import Moo.Printer
import Moo.Tree.Occurrence

/-!
# Trees with other labels

`Relabel` changes the location and the symbol of every node that has one,
and leaves the rest of a tree alone. `unplace` takes all locations away: trees
that are equal without their locations are equal up to locations. `forget`
takes all symbols away: trees that are equal without them are equal but for
symbols.

* `Program.relabel_relabel`: one change after the other is one change.
* `Program.occurrences_relabel`: the occurrences in a tree change as the tree
  does.
* `Program.relabel_fixed`: a change of labels that are all kept changes
  nothing.
* `Program.print_unseen`: print looks at a label only where a name is used and
  annotations are asked for; `Program.print_relabel`, without annotations.
-/
namespace Moo

/-- What becomes of the locations and symbols of a tree. -/
structure Relabel where
  loc : Option Loc → Option Loc
  symbol : Option Symbol → Option Symbol

/-- Takes all locations away. -/
def Relabel.unplace : Relabel := ⟨fun _ => none, id⟩

/-- Takes all symbols away. -/
def Relabel.forget : Relabel := ⟨id, fun _ => none⟩

@[simp]
theorem Relabel.forget_symbol (symbol : Option Symbol) : Relabel.forget.symbol symbol = none := rfl

def Ident.relabel (r : Relabel) (id : Ident) : Ident :=
  ⟨id.name, r.loc id.loc, r.symbol id.symbol⟩

@[simp]
theorem Ident.forget_withSymbol (id : Ident) (symbol : Option Symbol) :
    ({ id with symbol } : Ident).relabel .forget = id.relabel .forget := rfl

mutual

def TypeExpr.relabel (r : Relabel) : TypeExpr → TypeExpr
  | .primitive name => .primitive name
  | .struct tag => .struct (tag.relabel r)
  | .stray thing => .stray (thing.relabel r)

def Expr.relabel (r : Relabel) : Expr → Expr
  | .int value loc => .int value (r.loc loc)
  | .str text loc => .str text (r.loc loc)
  | .bool value loc => .bool value (r.loc loc)
  | .name id => .name (id.relabel r)
  | .dot object field symbol => .dot (object.relabel r) (field.relabel r) (r.symbol symbol)
  | .assign target value => .assign (target.relabel r) (value.relabel r)
  | .call callee args => .call (callee.relabel r) (Expr.relabelAll r args)
  | .unary op operand => .unary op (operand.relabel r)
  | .binary op left right => .binary op (left.relabel r) (right.relabel r)
  | .strayDot object field given symbol =>
    .strayDot (object.relabel r) (field.relabel r) (r.symbol given) (r.symbol symbol)
  | .strayCall callee given args =>
    .strayCall (callee.relabel r) (r.symbol given) (Expr.relabelAll r args)
  | .stray thing => .stray (thing.relabel r)

def Expr.relabelAll (r : Relabel) : List Expr → List Expr
  | [] => []
  | expr :: exprs => expr.relabel r :: Expr.relabelAll r exprs

def Decl.relabel (r : Relabel) : Decl → Decl
  | .var type id => .var (type.relabel r) (id.relabel r)
  | .formal type id => .formal (type.relabel r) (id.relabel r)
  | .function returns id formals decls stmts =>
    .function (returns.relabel r) (id.relabel r) (Decl.relabelAll r formals)
      (Decl.relabelAll r decls) (Stmt.relabelAll r stmts)
  | .struct tag fields => .struct (tag.relabel r) (Decl.relabelAll r fields)
  | .stray thing => .stray (thing.relabel r)

def Decl.relabelAll (r : Relabel) : List Decl → List Decl
  | [] => []
  | decl :: decls => decl.relabel r :: Decl.relabelAll r decls

def Stmt.relabel (r : Relabel) : Stmt → Stmt
  | .assign assignment => .assign (assignment.relabel r)
  | .increment target => .increment (target.relabel r)
  | .decrement target => .decrement (target.relabel r)
  | .read target => .read (target.relabel r)
  | .write value => .write (value.relabel r)
  | .ifThen condition decls stmts =>
    .ifThen (condition.relabel r) (Decl.relabelAll r decls) (Stmt.relabelAll r stmts)
  | .ifElse condition thenDecls thenStmts elseDecls elseStmts =>
    .ifElse (condition.relabel r) (Decl.relabelAll r thenDecls) (Stmt.relabelAll r thenStmts)
      (Decl.relabelAll r elseDecls) (Stmt.relabelAll r elseStmts)
  | .loop condition decls stmts =>
    .loop (condition.relabel r) (Decl.relabelAll r decls) (Stmt.relabelAll r stmts)
  | .call call => .call (call.relabel r)
  | .returnNothing => .returnNothing
  | .returnValue value => .returnValue (value.relabel r)
  | .stray thing => .stray (thing.relabel r)

def Stmt.relabelAll (r : Relabel) : List Stmt → List Stmt
  | [] => []
  | stmt :: stmts => stmt.relabel r :: Stmt.relabelAll r stmts

def Stray.relabel (r : Relabel) : Stray → Stray
  | .object kind => .object kind
  | .text value => .text value
  | .flag value => .flag value
  | .nothing => .nothing
  | .type type => .type (type.relabel r)
  | .expr expr => .expr (expr.relabel r)
  | .decl decl => .decl (decl.relabel r)
  | .stmt stmt => .stmt (stmt.relabel r)
  | .body decls stmts => .body (Decl.relabelAll r decls) (Stmt.relabelAll r stmts)
  | .program decls => .program (Decl.relabelAll r decls)

end

def Program.relabel (r : Relabel) (program : Program) : Program :=
  ⟨Decl.relabelAll r program.decls⟩

theorem Expr.relabelAll_eq_map (r : Relabel) (exprs : List Expr) :
    Expr.relabelAll r exprs = exprs.map (Expr.relabel r) := by
  induction exprs with
  | nil => rfl
  | cons e es ih => simp [Expr.relabelAll, ih]

theorem Decl.relabelAll_eq_map (r : Relabel) (decls : List Decl) :
    Decl.relabelAll r decls = decls.map (Decl.relabel r) := by
  induction decls with
  | nil => rfl
  | cons d ds ih => simp [Decl.relabelAll, ih]

theorem Stmt.relabelAll_eq_map (r : Relabel) (stmts : List Stmt) :
    Stmt.relabelAll r stmts = stmts.map (Stmt.relabel r) := by
  induction stmts with
  | nil => rfl
  | cons s ss ih => simp [Stmt.relabelAll, ih]

/-! ## One change after the other -/

/-- The change `r`, then the change `s`. -/
def Relabel.andThen (r s : Relabel) : Relabel := ⟨s.loc ∘ r.loc, s.symbol ∘ r.symbol⟩

section Twice

variable (r s : Relabel)

theorem Ident.relabel_relabel (id : Ident) :
    (id.relabel r).relabel s = id.relabel (r.andThen s) := rfl

mutual

theorem TypeExpr.relabel_relabel : ∀ t : TypeExpr,
    (t.relabel r).relabel s = t.relabel (r.andThen s)
  | .primitive _ => rfl
  | .struct _ => rfl
  | .stray thing => by simp only [TypeExpr.relabel, thing.relabel_relabel]

theorem Expr.relabel_relabel : ∀ e : Expr, (e.relabel r).relabel s = e.relabel (r.andThen s)
  | .int .. | .str .. | .bool .. => rfl
  | .name _ => rfl
  | .dot object field symbol => by
    simp only [Expr.relabel, object.relabel_relabel, field.relabel_relabel, Relabel.andThen,
      Function.comp_apply]
  | .assign target value => by
    simp only [Expr.relabel, target.relabel_relabel, value.relabel_relabel]
  | .call callee args => by
    simp only [Expr.relabel, callee.relabel_relabel, Expr.relabelAll_relabelAll args]
  | .unary _ operand => by simp only [Expr.relabel, operand.relabel_relabel]
  | .binary _ left right => by
    simp only [Expr.relabel, left.relabel_relabel, right.relabel_relabel]
  | .strayDot object field _ _ => by
    simp only [Expr.relabel, object.relabel_relabel, field.relabel_relabel, Relabel.andThen,
      Function.comp_apply]
  | .strayCall callee _ args => by
    simp only [Expr.relabel, callee.relabel_relabel, Expr.relabelAll_relabelAll args,
      Relabel.andThen, Function.comp_apply]
  | .stray thing => by simp only [Expr.relabel, thing.relabel_relabel]

theorem Expr.relabelAll_relabelAll : ∀ es : List Expr,
    Expr.relabelAll s (Expr.relabelAll r es) = Expr.relabelAll (r.andThen s) es
  | [] => rfl
  | e :: es => by
    simp only [Expr.relabelAll, e.relabel_relabel, Expr.relabelAll_relabelAll es]

theorem Decl.relabel_relabel : ∀ d : Decl, (d.relabel r).relabel s = d.relabel (r.andThen s)
  | .var type id | .formal type id => by
    simp only [Decl.relabel, type.relabel_relabel, id.relabel_relabel]
  | .function returns id formals decls stmts => by
    simp only [Decl.relabel, returns.relabel_relabel, id.relabel_relabel,
      Decl.relabelAll_relabelAll formals, Decl.relabelAll_relabelAll decls,
      Stmt.relabelAll_relabelAll stmts]
  | .struct tag fields => by
    simp only [Decl.relabel, tag.relabel_relabel, Decl.relabelAll_relabelAll fields]
  | .stray thing => by simp only [Decl.relabel, thing.relabel_relabel]

theorem Decl.relabelAll_relabelAll : ∀ ds : List Decl,
    Decl.relabelAll s (Decl.relabelAll r ds) = Decl.relabelAll (r.andThen s) ds
  | [] => rfl
  | d :: ds => by
    simp only [Decl.relabelAll, d.relabel_relabel, Decl.relabelAll_relabelAll ds]

theorem Stmt.relabel_relabel : ∀ t : Stmt, (t.relabel r).relabel s = t.relabel (r.andThen s)
  | .assign expr | .increment expr | .decrement expr | .read expr | .write expr | .call expr
  | .returnValue expr => by simp only [Stmt.relabel, expr.relabel_relabel]
  | .ifThen condition decls stmts | .loop condition decls stmts => by
    simp only [Stmt.relabel, condition.relabel_relabel, Decl.relabelAll_relabelAll decls,
      Stmt.relabelAll_relabelAll stmts]
  | .ifElse condition thenDecls thenStmts elseDecls elseStmts => by
    simp only [Stmt.relabel, condition.relabel_relabel, Decl.relabelAll_relabelAll thenDecls,
      Stmt.relabelAll_relabelAll thenStmts, Decl.relabelAll_relabelAll elseDecls,
      Stmt.relabelAll_relabelAll elseStmts]
  | .returnNothing => rfl
  | .stray thing => by simp only [Stmt.relabel, thing.relabel_relabel]

theorem Stmt.relabelAll_relabelAll : ∀ ts : List Stmt,
    Stmt.relabelAll s (Stmt.relabelAll r ts) = Stmt.relabelAll (r.andThen s) ts
  | [] => rfl
  | t :: ts => by
    simp only [Stmt.relabelAll, t.relabel_relabel, Stmt.relabelAll_relabelAll ts]

theorem Stray.relabel_relabel : ∀ thing : Stray,
    (thing.relabel r).relabel s = thing.relabel (r.andThen s)
  | .object _ | .text _ | .flag _ | .nothing => rfl
  | .type t => by simp only [Stray.relabel, t.relabel_relabel]
  | .expr e => by simp only [Stray.relabel, e.relabel_relabel]
  | .decl d => by simp only [Stray.relabel, d.relabel_relabel]
  | .stmt t => by simp only [Stray.relabel, t.relabel_relabel]
  | .body decls stmts => by
    simp only [Stray.relabel, Decl.relabelAll_relabelAll decls, Stmt.relabelAll_relabelAll stmts]
  | .program decls => by simp only [Stray.relabel, Decl.relabelAll_relabelAll decls]

end

theorem Program.relabel_relabel (p : Program) :
    (p.relabel r).relabel s = p.relabel (r.andThen s) :=
  congrArg Program.mk (Decl.relabelAll_relabelAll r s p.decls)

end Twice

/-! ## Occurrences -/

def Occurrence.relabel (r : Relabel) : Occurrence → Occurrence
  | .ident id => .ident (id.relabel r)
  | .dot field symbol => .dot (field.relabel r) (r.symbol symbol)
  | .stray symbol => .stray (r.symbol symbol)

theorem Occurrence.symbol_relabel (r : Relabel) (o : Occurrence) :
    (o.relabel r).symbol = r.symbol o.symbol := by
  cases o <;> rfl

section Occurrences

variable (r : Relabel)

mutual

theorem TypeExpr.occurrences_relabel : ∀ t : TypeExpr,
    (t.relabel r).occurrences = t.occurrences.map (·.relabel r)
  | .primitive _ => rfl
  | .struct _ => rfl
  | .stray thing => thing.occurrences_relabel

theorem Expr.occurrences_relabel : ∀ e : Expr,
    (e.relabel r).occurrences = e.occurrences.map (·.relabel r)
  | .int .. | .str .. | .bool .. => rfl
  | .name _ => rfl
  | .dot object field symbol => by
    simp [Expr.relabel, Expr.occurrences, Occurrence.relabel, object.occurrences_relabel]
  | .assign target value => by
    simp [Expr.relabel, Expr.occurrences, target.occurrences_relabel, value.occurrences_relabel]
  | .call callee args => by
    simp [Expr.relabel, Expr.occurrences, Occurrence.relabel, Expr.occurrencesAll_relabel args]
  | .unary _ operand => operand.occurrences_relabel
  | .binary _ left right => by
    simp [Expr.relabel, Expr.occurrences, left.occurrences_relabel, right.occurrences_relabel]
  | .strayDot object field _ _ => by
    simp [Expr.relabel, Expr.occurrences, Occurrence.relabel, object.occurrences_relabel,
      field.occurrences_relabel]
  | .strayCall callee _ args => by
    simp [Expr.relabel, Expr.occurrences, Occurrence.relabel, callee.occurrences_relabel,
      Expr.occurrencesAll_relabel args]
  | .stray thing => thing.occurrences_relabel

theorem Expr.occurrencesAll_relabel : ∀ es : List Expr,
    Expr.occurrencesAll (Expr.relabelAll r es) = (Expr.occurrencesAll es).map (·.relabel r)
  | [] => rfl
  | e :: es => by
    simp [Expr.relabelAll, Expr.occurrencesAll, e.occurrences_relabel,
      Expr.occurrencesAll_relabel es]

theorem Decl.occurrences_relabel : ∀ d : Decl,
    (d.relabel r).occurrences = d.occurrences.map (·.relabel r)
  | .var type id | .formal type id => by
    simp [Decl.relabel, Decl.occurrences, Occurrence.relabel, type.occurrences_relabel]
  | .function returns id formals decls stmts => by
    simp [Decl.relabel, Decl.occurrences, Occurrence.relabel, returns.occurrences_relabel,
      Decl.occurrencesAll_relabel formals, Decl.occurrencesAll_relabel decls,
      Stmt.occurrencesAll_relabel stmts]
  | .struct tag fields => by
    simp [Decl.relabel, Decl.occurrences, Occurrence.relabel, Decl.occurrencesAll_relabel fields]
  | .stray thing => thing.occurrences_relabel

theorem Decl.occurrencesAll_relabel : ∀ ds : List Decl,
    Decl.occurrencesAll (Decl.relabelAll r ds) = (Decl.occurrencesAll ds).map (·.relabel r)
  | [] => rfl
  | d :: ds => by
    simp [Decl.relabelAll, Decl.occurrencesAll, d.occurrences_relabel,
      Decl.occurrencesAll_relabel ds]

theorem Stmt.occurrences_relabel : ∀ s : Stmt,
    (s.relabel r).occurrences = s.occurrences.map (·.relabel r)
  | .assign expr | .increment expr | .decrement expr | .read expr | .write expr | .call expr
  | .returnValue expr => expr.occurrences_relabel
  | .ifThen condition decls stmts | .loop condition decls stmts => by
    simp [Stmt.relabel, Stmt.occurrences, condition.occurrences_relabel,
      Decl.occurrencesAll_relabel decls, Stmt.occurrencesAll_relabel stmts]
  | .ifElse condition thenDecls thenStmts elseDecls elseStmts => by
    simp [Stmt.relabel, Stmt.occurrences, condition.occurrences_relabel,
      Decl.occurrencesAll_relabel thenDecls, Stmt.occurrencesAll_relabel thenStmts,
      Decl.occurrencesAll_relabel elseDecls, Stmt.occurrencesAll_relabel elseStmts]
  | .returnNothing => rfl
  | .stray thing => thing.occurrences_relabel

theorem Stmt.occurrencesAll_relabel : ∀ ss : List Stmt,
    Stmt.occurrencesAll (Stmt.relabelAll r ss) = (Stmt.occurrencesAll ss).map (·.relabel r)
  | [] => rfl
  | s :: ss => by
    simp [Stmt.relabelAll, Stmt.occurrencesAll, s.occurrences_relabel,
      Stmt.occurrencesAll_relabel ss]

theorem Stray.occurrences_relabel : ∀ thing : Stray,
    (thing.relabel r).occurrences = thing.occurrences.map (·.relabel r)
  | .object _ | .text _ | .flag _ | .nothing => rfl
  | .type t => t.occurrences_relabel
  | .expr e => e.occurrences_relabel
  | .decl d => d.occurrences_relabel
  | .stmt s => s.occurrences_relabel
  | .body decls stmts => by
    simp [Stray.relabel, Stray.occurrences, Decl.occurrencesAll_relabel decls,
      Stmt.occurrencesAll_relabel stmts]
  | .program decls => Decl.occurrencesAll_relabel decls

end

theorem Program.occurrences_relabel (p : Program) :
    (p.relabel r).occurrences = p.occurrences.map (·.relabel r) :=
  Decl.occurrencesAll_relabel r p.decls

end Occurrences

/-! ## Labels that stay -/

/-- The change leaves locations alone, and the symbols of these occurrences. -/
structure Relabel.Fixes (r : Relabel) (occurrences : List Occurrence) : Prop where
  loc : ∀ loc, r.loc loc = loc
  symbol : ∀ occurrence ∈ occurrences, r.symbol occurrence.symbol = occurrence.symbol

section Fixes

variable {r : Relabel}

theorem Relabel.fixes_append {os ps : List Occurrence} :
    r.Fixes (os ++ ps) ↔ r.Fixes os ∧ r.Fixes ps := by
  constructor
  · intro h
    exact ⟨⟨h.loc, fun o ho => h.symbol o (List.mem_append_left ps ho)⟩,
      ⟨h.loc, fun o ho => h.symbol o (List.mem_append_right os ho)⟩⟩
  · rintro ⟨ho, hp⟩
    exact ⟨ho.loc, List.forall_mem_append.2 ⟨ho.symbol, hp.symbol⟩⟩

theorem Relabel.fixes_cons {o : Occurrence} {os : List Occurrence} :
    r.Fixes (o :: os) ↔ r.Fixes [o] ∧ r.Fixes os := by
  rw [← List.singleton_append, fixes_append]

theorem Ident.relabel_fixed {id : Ident} (h : r.Fixes [.ident id]) : id.relabel r = id := by
  have hsymbol : r.symbol id.symbol = id.symbol := h.symbol _ List.mem_cons_self
  rw [Ident.relabel, h.loc, hsymbol]

mutual

theorem TypeExpr.relabel_fixed : ∀ {t : TypeExpr}, r.Fixes t.occurrences → t.relabel r = t
  | .primitive _, _ => rfl
  | .struct _, h => by rw [TypeExpr.relabel, Ident.relabel_fixed h]
  | .stray _, h => by rw [TypeExpr.relabel, Stray.relabel_fixed h]

theorem Expr.relabel_fixed : ∀ {e : Expr}, r.Fixes e.occurrences → e.relabel r = e
  | .int .., h | .str .., h | .bool .., h => by rw [Expr.relabel, h.loc]
  | .name _, h => by rw [Expr.relabel, Ident.relabel_fixed h]
  | .dot object field symbol, h => by
    obtain ⟨hs, hf⟩ := Relabel.fixes_append.1 h
    obtain ⟨hs, ho⟩ := Relabel.fixes_cons.1 hs
    have hsymbol : r.symbol symbol = symbol := hs.symbol _ List.mem_cons_self
    rw [Expr.relabel, Expr.relabel_fixed ho, Ident.relabel_fixed hf, hsymbol]
  | .assign .., h | .binary .., h => by
    obtain ⟨hl, hr⟩ := Relabel.fixes_append.1 h
    rw [Expr.relabel, Expr.relabel_fixed hl, Expr.relabel_fixed hr]
  | .call callee args, h => by
    obtain ⟨hc, ha⟩ := Relabel.fixes_cons.1 h
    rw [Expr.relabel, Ident.relabel_fixed hc, Expr.relabelAll_fixed ha]
  | .unary _ operand, h => by
    rw [Expr.relabel, Expr.relabel_fixed (e := operand) h]
  | .strayDot object field given symbol, h => by
    obtain ⟨hs, hf⟩ := Relabel.fixes_append.1 h
    obtain ⟨hs, ho⟩ := Relabel.fixes_cons.1 hs
    obtain ⟨hg, hf⟩ := Relabel.fixes_cons.1 hf
    have hsymbol : r.symbol symbol = symbol := hs.symbol _ List.mem_cons_self
    have hgiven : r.symbol given = given := hg.symbol _ List.mem_cons_self
    rw [Expr.relabel, Expr.relabel_fixed ho, Stray.relabel_fixed hf, hgiven, hsymbol]
  | .strayCall callee given args, h => by
    obtain ⟨hg, ha⟩ := Relabel.fixes_append.1 h
    obtain ⟨hg, hc⟩ := Relabel.fixes_cons.1 hg
    have hgiven : r.symbol given = given := hg.symbol _ List.mem_cons_self
    rw [Expr.relabel, Stray.relabel_fixed hc, hgiven, Expr.relabelAll_fixed ha]
  | .stray _, h => by rw [Expr.relabel, Stray.relabel_fixed h]

theorem Expr.relabelAll_fixed : ∀ {es : List Expr}, r.Fixes (Expr.occurrencesAll es) →
    Expr.relabelAll r es = es
  | [], _ => rfl
  | _ :: _, h => by
    obtain ⟨he, hes⟩ := Relabel.fixes_append.1 h
    rw [Expr.relabelAll, Expr.relabel_fixed he, Expr.relabelAll_fixed hes]

theorem Decl.relabel_fixed : ∀ {d : Decl}, r.Fixes d.occurrences → d.relabel r = d
  | .var .., h | .formal .., h => by
    obtain ⟨ht, hi⟩ := Relabel.fixes_append.1 h
    rw [Decl.relabel, TypeExpr.relabel_fixed ht, Ident.relabel_fixed hi]
  | .function returns id formals decls stmts, h => by
    simp only [Decl.occurrences, Relabel.fixes_append] at h
    obtain ⟨⟨⟨hr, hf⟩, hd⟩, hs⟩ := h
    obtain ⟨hi, hf⟩ := Relabel.fixes_cons.1 hf
    rw [Decl.relabel, TypeExpr.relabel_fixed hr, Ident.relabel_fixed hi, Decl.relabelAll_fixed hf,
      Decl.relabelAll_fixed hd, Stmt.relabelAll_fixed hs]
  | .struct tag fields, h => by
    obtain ⟨ht, hf⟩ := Relabel.fixes_cons.1 h
    rw [Decl.relabel, Ident.relabel_fixed ht, Decl.relabelAll_fixed hf]
  | .stray _, h => by rw [Decl.relabel, Stray.relabel_fixed h]

theorem Decl.relabelAll_fixed : ∀ {ds : List Decl}, r.Fixes (Decl.occurrencesAll ds) →
    Decl.relabelAll r ds = ds
  | [], _ => rfl
  | _ :: _, h => by
    obtain ⟨hd, hds⟩ := Relabel.fixes_append.1 h
    rw [Decl.relabelAll, Decl.relabel_fixed hd, Decl.relabelAll_fixed hds]

theorem Stmt.relabel_fixed : ∀ {s : Stmt}, r.Fixes s.occurrences → s.relabel r = s
  | .assign expr, h | .increment expr, h | .decrement expr, h | .read expr, h | .write expr, h
  | .call expr, h | .returnValue expr, h => by
    rw [Stmt.relabel, Expr.relabel_fixed (e := expr) h]
  | .ifThen condition decls stmts, h | .loop condition decls stmts, h => by
    simp only [Stmt.occurrences, Relabel.fixes_append] at h
    obtain ⟨⟨hc, hd⟩, hs⟩ := h
    rw [Stmt.relabel, Expr.relabel_fixed hc, Decl.relabelAll_fixed hd, Stmt.relabelAll_fixed hs]
  | .ifElse condition thenDecls thenStmts elseDecls elseStmts, h => by
    simp only [Stmt.occurrences, Relabel.fixes_append] at h
    obtain ⟨⟨⟨⟨hc, htd⟩, hts⟩, hed⟩, hes⟩ := h
    rw [Stmt.relabel, Expr.relabel_fixed hc, Decl.relabelAll_fixed htd, Stmt.relabelAll_fixed hts,
      Decl.relabelAll_fixed hed, Stmt.relabelAll_fixed hes]
  | .returnNothing, _ => rfl
  | .stray _, h => by rw [Stmt.relabel, Stray.relabel_fixed h]

theorem Stmt.relabelAll_fixed : ∀ {ss : List Stmt}, r.Fixes (Stmt.occurrencesAll ss) →
    Stmt.relabelAll r ss = ss
  | [], _ => rfl
  | _ :: _, h => by
    obtain ⟨hs, hss⟩ := Relabel.fixes_append.1 h
    rw [Stmt.relabelAll, Stmt.relabel_fixed hs, Stmt.relabelAll_fixed hss]

theorem Stray.relabel_fixed : ∀ {thing : Stray}, r.Fixes thing.occurrences →
    thing.relabel r = thing
  | .object _, _ | .text _, _ | .flag _, _ | .nothing, _ => rfl
  | .type t, h => by rw [Stray.relabel, TypeExpr.relabel_fixed (t := t) h]
  | .expr e, h => by rw [Stray.relabel, Expr.relabel_fixed (e := e) h]
  | .decl d, h => by rw [Stray.relabel, Decl.relabel_fixed (d := d) h]
  | .stmt s, h => by rw [Stray.relabel, Stmt.relabel_fixed (s := s) h]
  | .body .., h => by
    obtain ⟨hd, hs⟩ := Relabel.fixes_append.1 h
    rw [Stray.relabel, Decl.relabelAll_fixed hd, Stmt.relabelAll_fixed hs]
  | .program decls, h => by
    have hd : r.Fixes (Decl.occurrencesAll decls) := h
    rw [Stray.relabel, Decl.relabelAll_fixed hd]

end

theorem Program.relabel_fixed {p : Program} (h : r.Fixes p.occurrences) : p.relabel r = p :=
  congrArg Program.mk (Decl.relabelAll_fixed h)

end Fixes

/-! ## Printing -/

/-- The change is not seen where a name is used or called, nor where it is asked whether there is a
symbol. -/
structure Relabel.Unseen (r : Relabel) (annotate : Bool) : Prop where
  isSome : annotate = true → ∀ symbol : Option Symbol, (r.symbol symbol).isSome = symbol.isSome
  use : ∀ id : Ident, (id.relabel r).use annotate = id.use annotate
  callee : ∀ id : Ident, (id.relabel r).callee annotate = id.callee annotate

section Print

variable (r : Relabel)

@[simp]
theorem Ident.name_relabel (id : Ident) : (id.relabel r).name = id.name := rfl

mutual

@[simp]
theorem TypeExpr.kind_relabel : ∀ t : TypeExpr, (t.relabel r).kind = t.kind
  | .primitive _ | .struct _ => by simp only [TypeExpr.relabel, TypeExpr.kind]
  | .stray thing => by simp only [TypeExpr.relabel, TypeExpr.kind, thing.kind_relabel]

@[simp]
theorem Expr.kind_relabel : ∀ e : Expr, (e.relabel r).kind = e.kind
  | .int .. | .str .. | .bool .. | .name _ | .dot .. | .assign .. | .call .. | .unary ..
  | .binary .. | .strayDot .. | .strayCall .. => by simp only [Expr.relabel, Expr.kind]
  | .stray thing => by simp only [Expr.relabel, Expr.kind, thing.kind_relabel]

@[simp]
theorem Decl.kind_relabel : ∀ d : Decl, (d.relabel r).kind = d.kind
  | .var .. | .formal .. | .function .. | .struct .. => by simp only [Decl.relabel, Decl.kind]
  | .stray thing => by simp only [Decl.relabel, Decl.kind, thing.kind_relabel]

@[simp]
theorem Stmt.kind_relabel : ∀ s : Stmt, (s.relabel r).kind = s.kind
  | .assign _ | .increment _ | .decrement _ | .read _ | .write _ | .ifThen .. | .ifElse ..
  | .loop .. | .call _ | .returnNothing | .returnValue _ => by simp only [Stmt.relabel, Stmt.kind]
  | .stray thing => by simp only [Stmt.relabel, Stmt.kind, thing.kind_relabel]

@[simp]
theorem Stray.kind_relabel : ∀ thing : Stray, (thing.relabel r).kind = thing.kind
  | .object _ | .text _ | .flag _ | .nothing | .body .. | .program _ => by
    simp only [Stray.relabel, Stray.kind]
  | .type t => by simp only [Stray.relabel, Stray.kind, t.kind_relabel]
  | .expr e => by simp only [Stray.relabel, Stray.kind, e.kind_relabel]
  | .decl d => by simp only [Stray.relabel, Stray.kind, d.kind_relabel]
  | .stmt s => by simp only [Stray.relabel, Stray.kind, s.kind_relabel]

end

@[simp]
theorem Stray.name_relabel (thing : Stray) : (thing.relabel r).name = thing.name := by
  match thing with
  | .type (.primitive _) | .type (.struct _) => rfl
  | .type (.stray _) => simp [Stray.relabel, TypeExpr.relabel, Stray.name, Stray.kind,
      TypeExpr.kind]
  | .object _ | .text _ | .flag _ | .nothing | .body .. | .program _ => rfl
  | .expr e => simp [Stray.relabel, Stray.name, Stray.kind]
  | .decl d => simp [Stray.relabel, Stray.name, Stray.kind]
  | .stmt s => simp [Stray.relabel, Stray.name, Stray.kind]

private theorem lacksLoc {kind kind' : String} (h : kind' = kind) :
    (.error (.lacks kind' "loc") : Except Fault (Option Loc)) =
      r.loc <$> .error (.lacks kind "loc") := by
  rw [h]
  rfl

theorem Stray.loc_relabel : ∀ thing : Stray, (thing.relabel r).loc = r.loc <$> thing.loc
  | .expr (.int ..) | .expr (.str ..) | .expr (.bool ..) | .expr (.dot ..) => rfl
  | .expr (.strayDot _ field _ _) => field.loc_relabel
  | .expr (.name _) | .expr (.assign ..) | .expr (.call ..) | .expr (.unary ..)
  | .expr (.binary ..) | .expr (.strayCall ..) => rfl
  | .expr (.stray thing) => lacksLoc r (thing.kind_relabel r)
  | .object _ | .text _ | .flag _ | .nothing | .body .. | .program _ => rfl
  | .type t => lacksLoc r (t.kind_relabel r)
  | .decl d => lacksLoc r (d.kind_relabel r)
  | .stmt s => lacksLoc r (s.kind_relabel r)

theorem Stray.hasSymbol_relabel {given given' : Option Symbol} (h : given'.isSome = given.isSome)
    (thing : Stray) : (thing.relabel r).hasSymbol given' = thing.hasSymbol given := by
  match thing with
  | .expr e => cases e <;> simp [Stray.relabel, Expr.relabel, Stray.hasSymbol, h]
  | .object _ | .text _ | .flag _ | .nothing | .type _ | .decl _ | .stmt _ | .body ..
  | .program _ => exact h

@[simp]
theorem TypeExpr.print_relabel (t : TypeExpr) : (t.relabel r).print = t.print := by
  cases t <;> simp [TypeExpr.relabel, TypeExpr.print]

@[simp]
theorem Decl.printFormal_relabel (d : Decl) : (d.relabel r).printFormal = d.printFormal := by
  cases d <;> simp [Decl.relabel, Decl.printFormal, Decl.kind]

@[simp]
theorem Decl.printFormals_relabel (ds : List Decl) :
    (Decl.relabelAll r ds).mapM Decl.printFormal = ds.mapM Decl.printFormal := by
  induction ds with
  | nil => rfl
  | cons d ds ih => simp [Decl.relabelAll, ih]

section Unseen

variable {r} {annotate : Bool}

theorem Stray.printedName_unseen (h : r.Unseen annotate) (thing : Stray) (given : Option Symbol) :
    (thing.relabel r).printedName annotate (r.symbol given) =
      thing.printedName annotate given := by
  cases annotate with
  | false => simp [Stray.printedName]
  | true => simp [Stray.printedName, thing.hasSymbol_relabel r (h.isSome rfl given)]

mutual

theorem Expr.print_unseen (h : r.Unseen annotate) : ∀ e : Expr,
    (e.relabel r).print annotate = e.print annotate
  | .int .. | .str .. | .bool .. | .stray _ => by simp [Expr.relabel, Expr.print]
  | .name id => by simp [Expr.relabel, Expr.print, h.use id]
  | .dot object field _ => by
    simp [Expr.relabel, Expr.print, Expr.print_unseen h object, h.use field]
  | .assign target value => by
    simp [Expr.relabel, Expr.print, Expr.print_unseen h target, Expr.print_unseen h value]
  | .call callee args => by
    simp [Expr.relabel, Expr.print, Expr.printAll_unseen h args, h.callee callee]
  | .unary _ operand => by simp [Expr.relabel, Expr.print, Expr.print_unseen h operand]
  | .binary _ left right => by
    simp [Expr.relabel, Expr.print, Expr.print_unseen h left, Expr.print_unseen h right]
  | .strayDot object field given _ => by
    have huse (name : String) : Ident.use annotate ⟨name, none, r.symbol given⟩ =
        Ident.use annotate ⟨name, none, given⟩ := h.use ⟨name, none, given⟩
    simp [Expr.relabel, Expr.print, Expr.print_unseen h object, field.printedName_unseen h, huse]
  | .strayCall callee given args => by
    have hcallee (name : String) : Ident.callee annotate ⟨name, none, r.symbol given⟩ =
        Ident.callee annotate ⟨name, none, given⟩ := h.callee ⟨name, none, given⟩
    simp [Expr.relabel, Expr.print, Expr.printAll_unseen h args, callee.printedName_unseen h, hcallee]

theorem Expr.printAll_unseen (h : r.Unseen annotate) : ∀ es : List Expr,
    Expr.printAll annotate (Expr.relabelAll r es) = Expr.printAll annotate es
  | [] => by simp [Expr.relabelAll]
  | e :: es => by
    simp [Expr.relabelAll, Expr.printAll, Expr.print_unseen h e, Expr.printAll_unseen h es]

end

theorem Expr.printAssignment_unseen (h : r.Unseen annotate) (e : Expr) :
    (e.relabel r).printAssignment annotate = e.printAssignment annotate := by
  cases e <;> simp [Expr.relabel, Expr.printAssignment, Expr.kind, Expr.print_unseen h]

mutual

theorem Decl.lines_unseen (h : r.Unseen annotate) : ∀ (d : Decl) (indent : Nat),
    (d.relabel r).lines annotate indent = d.lines annotate indent
  | .var .., _ => by simp [Decl.relabel, Decl.lines]
  | .formal .., _ => by simp [Decl.relabel, Decl.lines, Decl.kind]
  | .function _ _ _ decls stmts, indent => by
    simp [Decl.relabel, Decl.lines, Decl.linesAll_unseen h decls, Stmt.linesAll_unseen h stmts]
  | .struct _ fields, indent => by simp [Decl.relabel, Decl.lines, Decl.linesAll_unseen h fields]
  | .stray _, _ => by simp [Decl.relabel, Decl.lines]

theorem Decl.linesAll_unseen (h : r.Unseen annotate) : ∀ (ds : List Decl) (indent : Nat),
    Decl.linesAll annotate indent (Decl.relabelAll r ds) = Decl.linesAll annotate indent ds
  | [], _ => by simp [Decl.relabelAll]
  | d :: ds, indent => by
    simp [Decl.relabelAll, Decl.linesAll, Decl.lines_unseen h d, Decl.linesAll_unseen h ds]

theorem Stmt.lines_unseen (h : r.Unseen annotate) : ∀ (s : Stmt) (indent : Nat),
    (s.relabel r).lines annotate indent = s.lines annotate indent
  | .assign expr, _ | .increment expr, _ | .decrement expr, _ | .read expr, _ | .write expr, _
  | .call expr, _ | .returnValue expr, _ => by
    simp [Stmt.relabel, Stmt.lines, Expr.print_unseen h, Expr.printAssignment_unseen h]
  | .returnNothing, _ | .stray _, _ => by simp [Stmt.relabel, Stmt.lines]
  | .ifThen condition decls stmts, indent | .loop condition decls stmts, indent => by
    simp [Stmt.relabel, Stmt.lines, Expr.print_unseen h condition, Decl.linesAll_unseen h decls,
      Stmt.linesAll_unseen h stmts]
  | .ifElse condition thenDecls thenStmts elseDecls elseStmts, indent => by
    simp [Stmt.relabel, Stmt.lines, Expr.print_unseen h condition, Decl.linesAll_unseen h thenDecls,
      Stmt.linesAll_unseen h thenStmts, Decl.linesAll_unseen h elseDecls,
      Stmt.linesAll_unseen h elseStmts]

theorem Stmt.linesAll_unseen (h : r.Unseen annotate) : ∀ (ss : List Stmt) (indent : Nat),
    Stmt.linesAll annotate indent (Stmt.relabelAll r ss) = Stmt.linesAll annotate indent ss
  | [], _ => by simp [Stmt.relabelAll]
  | s :: ss, indent => by
    simp [Stmt.relabelAll, Stmt.linesAll, Stmt.lines_unseen h s, Stmt.linesAll_unseen h ss]

end

/-- A tree prints the same after a change that is seen nowhere. -/
theorem Program.print_unseen (h : r.Unseen annotate) (p : Program) :
    (p.relabel r).print annotate = p.print annotate := by
  simp [Program.relabel, Program.print, Decl.linesAll_unseen h]

end Unseen

/-- Without annotations a tree prints the same whatever its locations and symbols are. -/
@[simp]
theorem Program.print_relabel (p : Program) : (p.relabel r).print false = p.print false :=
  have hunseen : r.Unseen false := ⟨by simp, fun _ => rfl, fun _ => rfl⟩
  p.print_unseen hunseen

end Print

end Moo
