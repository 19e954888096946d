import Moo.Proofs.Tree.Relabel
import Moo.Proofs.Tree.WellFormed

/-!
# Trees with other names

`Program.rename` exchanges the name of every identifier of a tree, whether it
declares the name or uses it. The locations, the symbols and the words that
are no identifiers stay, so `int` as a type is left alone while a struct that
is called `int` is not. Only in the place of a callee or a field a type is
looked up like an identifier, and there its name is exchanged too.

* `Program.rename_id`: to leave all names as they are is to leave the tree.
* `Program.occurrences_rename`: the occurrences in a tree change as it does.
-/
namespace Moo

def Ident.rename (f : String → String) (id : Ident) : Ident :=
  { id with name := f id.name }

/-- The name that a type has in the place of an identifier. -/
def Stray.renameWord (f : String → String) : Stray → Stray
  | .type (.primitive name) => .type (.primitive (f name))
  | thing => thing

mutual

def TypeExpr.rename (f : String → String) : TypeExpr → TypeExpr
  | .primitive name => .primitive name
  | .struct tag => .struct (tag.rename f)
  | .stray thing => .stray (thing.rename f)

def Expr.rename (f : String → String) : Expr → Expr
  | .int value loc => .int value loc
  | .str text loc => .str text loc
  | .bool value loc => .bool value loc
  | .name id => .name (id.rename f)
  | .dot object field symbol => .dot (object.rename f) (field.rename f) symbol
  | .assign target value => .assign (target.rename f) (value.rename f)
  | .call callee args => .call (callee.rename f) (Expr.renameAll f args)
  | .unary op operand => .unary op (operand.rename f)
  | .binary op left right => .binary op (left.rename f) (right.rename f)
  | .strayDot object field given symbol =>
    .strayDot (object.rename f) ((field.rename f).renameWord f) given symbol
  | .strayCall callee given args =>
    .strayCall ((callee.rename f).renameWord f) given (Expr.renameAll f args)
  | .stray thing => .stray (thing.rename f)

def Expr.renameAll (f : String → String) : List Expr → List Expr
  | [] => []
  | expr :: exprs => expr.rename f :: Expr.renameAll f exprs

def Decl.rename (f : String → String) : Decl → Decl
  | .var type id => .var (type.rename f) (id.rename f)
  | .formal type id => .formal (type.rename f) (id.rename f)
  | .function returns id formals decls stmts =>
    .function (returns.rename f) (id.rename f) (Decl.renameAll f formals)
      (Decl.renameAll f decls) (Stmt.renameAll f stmts)
  | .struct tag fields => .struct (tag.rename f) (Decl.renameAll f fields)
  | .stray thing => .stray (thing.rename f)

def Decl.renameAll (f : String → String) : List Decl → List Decl
  | [] => []
  | decl :: decls => decl.rename f :: Decl.renameAll f decls

def Stmt.rename (f : String → String) : Stmt → Stmt
  | .assign assignment => .assign (assignment.rename f)
  | .increment target => .increment (target.rename f)
  | .decrement target => .decrement (target.rename f)
  | .read target => .read (target.rename f)
  | .write value => .write (value.rename f)
  | .ifThen condition decls stmts =>
    .ifThen (condition.rename f) (Decl.renameAll f decls) (Stmt.renameAll f stmts)
  | .ifElse condition thenDecls thenStmts elseDecls elseStmts =>
    .ifElse (condition.rename f) (Decl.renameAll f thenDecls) (Stmt.renameAll f thenStmts)
      (Decl.renameAll f elseDecls) (Stmt.renameAll f elseStmts)
  | .loop condition decls stmts =>
    .loop (condition.rename f) (Decl.renameAll f decls) (Stmt.renameAll f stmts)
  | .call call => .call (call.rename f)
  | .returnNothing => .returnNothing
  | .returnValue value => .returnValue (value.rename f)
  | .stray thing => .stray (thing.rename f)

def Stmt.renameAll (f : String → String) : List Stmt → List Stmt
  | [] => []
  | stmt :: stmts => stmt.rename f :: Stmt.renameAll f stmts

def Stray.rename (f : String → String) : Stray → Stray
  | .object kind => .object kind
  | .text value => .text value
  | .flag value => .flag value
  | .nothing => .nothing
  | .type type => .type (type.rename f)
  | .expr expr => .expr (expr.rename f)
  | .decl decl => .decl (decl.rename f)
  | .stmt stmt => .stmt (stmt.rename f)
  | .body decls stmts => .body (Decl.renameAll f decls) (Stmt.renameAll f stmts)
  | .program decls => .program (Decl.renameAll f decls)

end

def Program.rename (f : String → String) (program : Program) : Program :=
  ⟨Decl.renameAll f program.decls⟩

/-! ## The same names -/

theorem Stray.renameWord_id (thing : Stray) : thing.renameWord id = thing := by
  unfold renameWord
  split <;> rfl

mutual

theorem TypeExpr.rename_id : ∀ t : TypeExpr, t.rename id = t
  | .primitive _ | .struct _ => rfl
  | .stray thing => by rw [TypeExpr.rename, thing.rename_id]

theorem Expr.rename_id : ∀ e : Expr, e.rename id = e
  | .int .. | .str .. | .bool .. | .name _ => rfl
  | .dot object _ _ => by rw [Expr.rename, object.rename_id]; rfl
  | .assign target value => by rw [Expr.rename, target.rename_id, value.rename_id]
  | .call _ args => by rw [Expr.rename, Expr.renameAll_id args]; rfl
  | .unary _ operand => by rw [Expr.rename, operand.rename_id]
  | .binary _ left right => by rw [Expr.rename, left.rename_id, right.rename_id]
  | .strayDot object field _ _ => by
    rw [Expr.rename, object.rename_id, field.rename_id, Stray.renameWord_id]
  | .strayCall callee _ args => by
    rw [Expr.rename, callee.rename_id, Stray.renameWord_id, Expr.renameAll_id args]
  | .stray thing => by rw [Expr.rename, thing.rename_id]

theorem Expr.renameAll_id : ∀ es : List Expr, Expr.renameAll id es = es
  | [] => rfl
  | e :: es => by rw [Expr.renameAll, e.rename_id, Expr.renameAll_id es]

theorem Decl.rename_id : ∀ d : Decl, d.rename id = d
  | .var type _ | .formal type _ => by rw [Decl.rename, type.rename_id]; rfl
  | .function returns _ formals decls stmts => by
    rw [Decl.rename, returns.rename_id, Decl.renameAll_id formals, Decl.renameAll_id decls,
      Stmt.renameAll_id stmts]
    rfl
  | .struct _ fields => by rw [Decl.rename, Decl.renameAll_id fields]; rfl
  | .stray thing => by rw [Decl.rename, thing.rename_id]

theorem Decl.renameAll_id : ∀ ds : List Decl, Decl.renameAll id ds = ds
  | [] => rfl
  | d :: ds => by rw [Decl.renameAll, d.rename_id, Decl.renameAll_id ds]

theorem Stmt.rename_id : ∀ s : Stmt, s.rename id = s
  | .assign expr | .increment expr | .decrement expr | .read expr | .write expr | .call expr
  | .returnValue expr => by rw [Stmt.rename, expr.rename_id]
  | .ifThen condition decls stmts | .loop condition decls stmts => by
    rw [Stmt.rename, condition.rename_id, Decl.renameAll_id decls, Stmt.renameAll_id stmts]
  | .ifElse condition thenDecls thenStmts elseDecls elseStmts => by
    rw [Stmt.rename, condition.rename_id, Decl.renameAll_id thenDecls,
      Stmt.renameAll_id thenStmts, Decl.renameAll_id elseDecls, Stmt.renameAll_id elseStmts]
  | .returnNothing => rfl
  | .stray thing => by rw [Stmt.rename, thing.rename_id]

theorem Stmt.renameAll_id : ∀ ss : List Stmt, Stmt.renameAll id ss = ss
  | [] => rfl
  | s :: ss => by rw [Stmt.renameAll, s.rename_id, Stmt.renameAll_id ss]

theorem Stray.rename_id : ∀ thing : Stray, thing.rename id = thing
  | .object _ | .text _ | .flag _ | .nothing => rfl
  | .type t => by rw [Stray.rename, t.rename_id]
  | .expr e => by rw [Stray.rename, e.rename_id]
  | .decl d => by rw [Stray.rename, d.rename_id]
  | .stmt s => by rw [Stray.rename, s.rename_id]
  | .body decls stmts => by rw [Stray.rename, Decl.renameAll_id decls, Stmt.renameAll_id stmts]
  | .program decls => by rw [Stray.rename, Decl.renameAll_id decls]

end

theorem Program.rename_id (p : Program) : p.rename id = p :=
  congrArg Program.mk (Decl.renameAll_id p.decls)

/-! ## Occurrences -/

def Occurrence.rename (f : String → String) : Occurrence → Occurrence
  | .ident id => .ident (id.rename f)
  | .dot field symbol => .dot (field.rename f) symbol
  | .stray symbol => .stray symbol

section Occurrences

variable (f : String → String)

@[simp]
theorem Stray.occurrences_renameWord (thing : Stray) :
    (thing.renameWord f).occurrences = thing.occurrences := by
  unfold renameWord
  split <;> rfl

mutual

theorem TypeExpr.occurrences_rename : ∀ t : TypeExpr,
    (t.rename f).occurrences = t.occurrences.map (·.rename f)
  | .primitive _ | .struct _ => rfl
  | .stray thing => thing.occurrences_rename

theorem Expr.occurrences_rename : ∀ e : Expr,
    (e.rename f).occurrences = e.occurrences.map (·.rename f)
  | .int .. | .str .. | .bool .. | .name _ => rfl
  | .dot object field symbol => by
    simp [Expr.rename, Expr.occurrences, Occurrence.rename, object.occurrences_rename]
  | .assign target value => by
    simp [Expr.rename, Expr.occurrences, target.occurrences_rename, value.occurrences_rename]
  | .call callee args => by
    simp [Expr.rename, Expr.occurrences, Occurrence.rename, Expr.occurrencesAll_rename args]
  | .unary _ operand => operand.occurrences_rename
  | .binary _ left right => by
    simp [Expr.rename, Expr.occurrences, left.occurrences_rename, right.occurrences_rename]
  | .strayDot object field _ _ => by
    simp [Expr.rename, Expr.occurrences, Occurrence.rename, object.occurrences_rename,
      field.occurrences_rename]
  | .strayCall callee _ args => by
    simp [Expr.rename, Expr.occurrences, Occurrence.rename, callee.occurrences_rename,
      Expr.occurrencesAll_rename args]
  | .stray thing => thing.occurrences_rename

theorem Expr.occurrencesAll_rename : ∀ es : List Expr,
    Expr.occurrencesAll (Expr.renameAll f es) = (Expr.occurrencesAll es).map (·.rename f)
  | [] => rfl
  | e :: es => by
    simp [Expr.renameAll, Expr.occurrencesAll, e.occurrences_rename, Expr.occurrencesAll_rename es]

theorem Decl.occurrences_rename : ∀ d : Decl,
    (d.rename f).occurrences = d.occurrences.map (·.rename f)
  | .var type id | .formal type id => by
    simp [Decl.rename, Decl.occurrences, Occurrence.rename, type.occurrences_rename]
  | .function returns id formals decls stmts => by
    simp [Decl.rename, Decl.occurrences, Occurrence.rename, returns.occurrences_rename,
      Decl.occurrencesAll_rename formals, Decl.occurrencesAll_rename decls,
      Stmt.occurrencesAll_rename stmts]
  | .struct tag fields => by
    simp [Decl.rename, Decl.occurrences, Occurrence.rename, Decl.occurrencesAll_rename fields]
  | .stray thing => thing.occurrences_rename

theorem Decl.occurrencesAll_rename : ∀ ds : List Decl,
    Decl.occurrencesAll (Decl.renameAll f ds) = (Decl.occurrencesAll ds).map (·.rename f)
  | [] => rfl
  | d :: ds => by
    simp [Decl.renameAll, Decl.occurrencesAll, d.occurrences_rename, Decl.occurrencesAll_rename ds]

theorem Stmt.occurrences_rename : ∀ s : Stmt,
    (s.rename f).occurrences = s.occurrences.map (·.rename f)
  | .assign expr | .increment expr | .decrement expr | .read expr | .write expr | .call expr
  | .returnValue expr => expr.occurrences_rename
  | .ifThen condition decls stmts | .loop condition decls stmts => by
    simp [Stmt.rename, Stmt.occurrences, condition.occurrences_rename,
      Decl.occurrencesAll_rename decls, Stmt.occurrencesAll_rename stmts]
  | .ifElse condition thenDecls thenStmts elseDecls elseStmts => by
    simp [Stmt.rename, Stmt.occurrences, condition.occurrences_rename,
      Decl.occurrencesAll_rename thenDecls, Stmt.occurrencesAll_rename thenStmts,
      Decl.occurrencesAll_rename elseDecls, Stmt.occurrencesAll_rename elseStmts]
  | .returnNothing => rfl
  | .stray thing => thing.occurrences_rename

theorem Stmt.occurrencesAll_rename : ∀ ss : List Stmt,
    Stmt.occurrencesAll (Stmt.renameAll f ss) = (Stmt.occurrencesAll ss).map (·.rename f)
  | [] => rfl
  | s :: ss => by
    simp [Stmt.renameAll, Stmt.occurrencesAll, s.occurrences_rename, Stmt.occurrencesAll_rename ss]

theorem Stray.occurrences_rename : ∀ thing : Stray,
    (thing.rename f).occurrences = thing.occurrences.map (·.rename f)
  | .object _ | .text _ | .flag _ | .nothing => rfl
  | .type t => t.occurrences_rename
  | .expr e => e.occurrences_rename
  | .decl d => d.occurrences_rename
  | .stmt s => s.occurrences_rename
  | .body decls stmts => by
    simp [Stray.rename, Stray.occurrences, Decl.occurrencesAll_rename decls,
      Stmt.occurrencesAll_rename stmts]
  | .program decls => Decl.occurrencesAll_rename decls

end

theorem Program.occurrences_rename (p : Program) :
    (p.rename f).occurrences = p.occurrences.map (·.rename f) :=
  Decl.occurrencesAll_rename f p.decls

end Occurrences

/-- Occurrences without symbols have none under other names. -/
@[simp]
theorem unresolved_rename (f : String → String) (occurrences : List Occurrence) :
    Unresolved (occurrences.map (·.rename f)) ↔ Unresolved occurrences := by
  have hsymbol (o : Occurrence) : (o.rename f).symbol = o.symbol := by cases o <;> rfl
  simp [Unresolved, hsymbol]

theorem Relabel.fixes_of_unresolved {r : Relabel} (hloc : ∀ loc, r.loc loc = loc)
    (hnone : r.symbol none = none) {occurrences : List Occurrence} (h : Unresolved occurrences) :
    r.Fixes occurrences :=
  ⟨hloc, fun o ho => by rw [h o ho, hnone]⟩

/-! ## Things in the place of an identifier -/

/-- What one thing is called and where it is, in the words of another one. -/
structure Stray.Renamed (f : String → String) (thing thing' : Stray) : Prop where
  name : thing'.name.toOption = thing.name.toOption.map f
  loc : thing'.loc.toOption = thing.loc.toOption

theorem Stray.name_renameWord (f : String → String) : ∀ thing : Stray,
    ((thing.rename f).renameWord f).name.toOption = thing.name.toOption.map f
  | .type (.primitive _) | .type (.struct _) | .type (.stray _) => rfl
  | .object _ | .text _ | .flag _ | .nothing | .expr _ | .decl _ | .stmt _ | .body ..
  | .program _ => rfl

theorem Stray.loc_renameWord (f : String → String) : ∀ thing : Stray,
    ((thing.rename f).renameWord f).loc.toOption = thing.loc.toOption
  | .expr (.strayDot _ field _ _) => field.loc_renameWord f
  | .expr (.int ..) | .expr (.str ..) | .expr (.bool ..) | .expr (.dot ..) | .expr (.name _)
  | .expr (.assign ..) | .expr (.call ..) | .expr (.unary ..) | .expr (.binary ..)
  | .expr (.strayCall ..) | .expr (.stray _) => rfl
  | .type (.primitive _) | .type (.struct _) | .type (.stray _) => rfl
  | .object _ | .text _ | .flag _ | .nothing | .decl _ | .stmt _ | .body .. | .program _ => rfl

/-- The names of what stands in the place of an identifier change like those of identifiers. -/
theorem Stray.renamed (f : String → String) (thing : Stray) :
    Stray.Renamed f thing ((thing.rename f).renameWord f) :=
  ⟨thing.name_renameWord f, thing.loc_renameWord f⟩

/-- Either both have a name or neither. -/
theorem Stray.Renamed.names {f : String → String} {thing thing' : Stray}
    (h : Stray.Renamed f thing thing') :
    (∃ fault fault', thing.name = .error fault ∧ thing'.name = .error fault') ∨
      ∃ name, thing.name = .ok name ∧ thing'.name = .ok (f name) := by
  have hname := h.name
  cases hn : thing.name with
  | error fault =>
    cases hn' : thing'.name with
    | error fault' => exact .inl ⟨fault, fault', rfl, rfl⟩
    | ok name' => rw [hn, hn'] at hname; cases hname
  | ok name =>
    cases hn' : thing'.name with
    | error fault' => rw [hn, hn'] at hname; cases hname
    | ok name' =>
      rw [hn, hn'] at hname
      obtain rfl : name' = f name := Option.some.inj hname
      exact .inr ⟨name, rfl, rfl⟩

/-! ## Types -/

/-- The name of a type, up to what a change of names leaves open. -/
theorem TypeExpr.name?_rename {α : Type} {f : String → String} {shown : String → α}
    (h : ∀ name, shown (f name) = shown name) (t : TypeExpr) :
    (t.rename f).name?.map shown = t.name?.map shown := by
  cases t with
  | primitive => rfl
  | struct tag => exact congrArg some (h tag.name)
  | stray thing =>
    cases thing with
    | expr e =>
      cases e with
      | name id => exact congrArg some (h id.name)
      | _ => rfl
    | _ => rfl

end Moo
