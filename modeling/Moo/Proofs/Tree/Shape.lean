import Moo.Proofs.Reading.Legible
import Moo.Proofs.Tree.Relabel
import Moo.Proofs.Tree.WellFormed

/-!
# The shape of a tree that was read

A well-formed tree may hold more than the language has, such as a dot behind
a sum or an operator of any spelling. The tree of a text does not: what is
assigned to, counted, read into or in front of a dot is a chain of names and
dots, a statement that assigns holds an assignment and one that calls a call,
a struct has a field, and every operator is one of the language. Labels play
no part.

* `Program.Shaped`: a tree of this shape; `Program.Shaped.wellFormed`: it is
  well-formed.
* `Program.shaped_relabel`: it has the shape whatever its labels are.
* `parse_shaped`: every tree that was read has it.
-/
namespace Moo

/-- A name, or dots behind one. -/
def Expr.IsChain : Expr → Prop
  | .name _ => True
  | .dot object _ _ => object.IsChain
  | _ => False

mutual

def Expr.Shaped : Expr → Prop
  | .int .. | .str .. | .bool .. | .name _ => True
  | .dot object _ _ => object.IsChain
  | .assign target value => target.IsChain ∧ value.Shaped
  | .call _ args => Expr.ShapedAll args
  | .unary op operand => (∃ word ∈ [Fixed.minus, .not], op = word.spelling) ∧ operand.Shaped
  | .binary op left right =>
    (∃ word binding, Fixed.binding? word = some binding ∧ op = word.spelling) ∧ left.Shaped ∧
      right.Shaped
  | .strayDot .. | .strayCall .. | .stray _ => False

def Expr.ShapedAll : List Expr → Prop
  | [] => True
  | expr :: exprs => expr.Shaped ∧ Expr.ShapedAll exprs

end

mutual

def Stmt.Shaped : Stmt → Prop
  | .assign (.assign target value) => target.IsChain ∧ value.Shaped
  | .increment target | .decrement target | .read target => target.IsChain
  | .write value | .returnValue value => value.Shaped
  | .ifThen condition decls stmts | .loop condition decls stmts =>
    condition.Shaped ∧ (∀ decl ∈ decls, decl.IsVariable) ∧ Stmt.ShapedAll stmts
  | .ifElse condition thenDecls thenStmts elseDecls elseStmts =>
    condition.Shaped ∧ ((∀ decl ∈ thenDecls, decl.IsVariable) ∧ Stmt.ShapedAll thenStmts)
      ∧ (∀ decl ∈ elseDecls, decl.IsVariable) ∧ Stmt.ShapedAll elseStmts
  | .call (.call _ args) => Expr.ShapedAll args
  | .returnNothing => True
  | _ => False

def Stmt.ShapedAll : List Stmt → Prop
  | [] => True
  | stmt :: stmts => stmt.Shaped ∧ Stmt.ShapedAll stmts

end

def Decl.Shaped : Decl → Prop
  | .var type _ => type.WellFormed
  | .function returns _ formals decls stmts =>
    returns.WellFormed ∧ (∀ formal ∈ formals, formal.IsFormal)
      ∧ (∀ decl ∈ decls, decl.IsVariable) ∧ Stmt.ShapedAll stmts
  | .struct _ fields => fields ≠ [] ∧ ∀ field ∈ fields, field.IsVariable
  | .formal .. | .stray _ => False

def Program.Shaped (program : Program) : Prop :=
  ∀ decl ∈ program.decls, decl.Shaped

/-! ## Well-formedness -/

theorem Expr.IsChain.wellFormed : ∀ {expr : Expr}, expr.IsChain → expr.WellFormed
  | .name _, _ => trivial
  | .dot object _ _, h => by
    have hobject : object.IsChain := h
    exact hobject.wellFormed

mutual

theorem Expr.Shaped.wellFormed : ∀ {expr : Expr}, expr.Shaped → expr.WellFormed
  | .int .., _ | .str .., _ | .bool .., _ | .name _, _ => trivial
  | .dot _ _ _, h => Expr.IsChain.wellFormed h
  | .assign _ _, ⟨ht, hv⟩ => ⟨ht.wellFormed, hv.wellFormed⟩
  | .call _ _, h => Expr.ShapedAll.wellFormed h
  | .unary _ _, ⟨_, h⟩ => h.wellFormed
  | .binary _ _ _, ⟨_, hl, hr⟩ => ⟨hl.wellFormed, hr.wellFormed⟩

theorem Expr.ShapedAll.wellFormed : ∀ {exprs : List Expr}, Expr.ShapedAll exprs →
    Expr.WellFormedAll exprs
  | [], _ => trivial
  | _ :: _, ⟨h, hs⟩ => ⟨h.wellFormed, Expr.ShapedAll.wellFormed hs⟩

end

mutual

theorem Stmt.Shaped.wellFormed : ∀ {stmt : Stmt}, stmt.Shaped → stmt.WellFormed
  | .assign (.assign _ _), ⟨ht, hv⟩ => ⟨ht.wellFormed, hv.wellFormed⟩
  | .increment _, h | .decrement _, h | .read _, h => Expr.IsChain.wellFormed h
  | .write _, h | .returnValue _, h => Expr.Shaped.wellFormed h
  | .ifThen .., ⟨hc, hd, hs⟩ | .loop .., ⟨hc, hd, hs⟩ =>
    ⟨hc.wellFormed, hd, Stmt.ShapedAll.wellFormed hs⟩
  | .ifElse .., ⟨hc, ⟨htd, hts⟩, hed, hes⟩ =>
    ⟨hc.wellFormed, ⟨htd, Stmt.ShapedAll.wellFormed hts⟩, hed, Stmt.ShapedAll.wellFormed hes⟩
  | .call (.call _ _), h => Expr.ShapedAll.wellFormed h
  | .returnNothing, _ => trivial

theorem Stmt.ShapedAll.wellFormed : ∀ {stmts : List Stmt}, Stmt.ShapedAll stmts →
    Stmt.WellFormedAll stmts
  | [], _ => trivial
  | _ :: _, ⟨h, hs⟩ => ⟨h.wellFormed, Stmt.ShapedAll.wellFormed hs⟩

end

theorem Decl.Shaped.wellFormed {decl : Decl} (h : decl.Shaped) : decl.WellFormed := by
  cases decl with
  | var => exact h
  | function => exact ⟨h.1, h.2.1, h.2.2.1, h.2.2.2.wellFormed⟩
  | struct => exact h.2
  | formal => exact h
  | stray => exact h

theorem Program.Shaped.wellFormed {program : Program} (h : program.Shaped) : program.WellFormed :=
  fun decl hd => (h decl hd).wellFormed

/-! ## Other labels -/

section Relabel

variable (r : Relabel)

theorem TypeExpr.wellFormed_relabel (t : TypeExpr) : (t.relabel r).WellFormed ↔ t.WellFormed := by
  cases t <;> rfl

theorem Decl.isVariable_relabel (d : Decl) : (d.relabel r).IsVariable ↔ d.IsVariable := by
  cases d with
  | var type _ => exact type.wellFormed_relabel r
  | _ => rfl

theorem Decl.isFormal_relabel (d : Decl) : (d.relabel r).IsFormal ↔ d.IsFormal := by
  cases d with
  | formal type _ => exact type.wellFormed_relabel r
  | _ => rfl

theorem Decl.forall_isVariable_relabel (ds : List Decl) :
    (∀ d ∈ Decl.relabelAll r ds, d.IsVariable) ↔ ∀ d ∈ ds, d.IsVariable := by
  simp [Decl.relabelAll_eq_map, Decl.isVariable_relabel]

theorem Decl.forall_isFormal_relabel (ds : List Decl) :
    (∀ d ∈ Decl.relabelAll r ds, d.IsFormal) ↔ ∀ d ∈ ds, d.IsFormal := by
  simp [Decl.relabelAll_eq_map, Decl.isFormal_relabel]

theorem Expr.isChain_relabel : ∀ e : Expr, (e.relabel r).IsChain ↔ e.IsChain
  | .name _ => Iff.rfl
  | .dot object _ _ => object.isChain_relabel
  | .int .. | .str .. | .bool .. | .assign .. | .call .. | .unary .. | .binary .. | .strayDot ..
  | .strayCall .. | .stray _ => Iff.rfl

mutual

theorem Expr.shaped_relabel : ∀ e : Expr, (e.relabel r).Shaped ↔ e.Shaped
  | .int .. | .str .. | .bool .. | .name _ | .strayDot .. | .strayCall .. | .stray _ => Iff.rfl
  | .dot object _ _ => object.isChain_relabel r
  | .assign target value => and_congr (target.isChain_relabel r) value.shaped_relabel
  | .call _ args => Expr.shapedAll_relabel args
  | .unary _ operand => and_congr_right' operand.shaped_relabel
  | .binary _ left right =>
    and_congr_right' (and_congr left.shaped_relabel right.shaped_relabel)

theorem Expr.shapedAll_relabel : ∀ es : List Expr,
    Expr.ShapedAll (Expr.relabelAll r es) ↔ Expr.ShapedAll es
  | [] => Iff.rfl
  | e :: es => and_congr e.shaped_relabel (Expr.shapedAll_relabel es)

end

mutual

theorem Stmt.shaped_relabel : ∀ s : Stmt, (s.relabel r).Shaped ↔ s.Shaped
  | .assign assignment => by
    cases assignment with
    | assign target value => exact and_congr (target.isChain_relabel r) (value.shaped_relabel r)
    | _ => rfl
  | .increment target | .decrement target | .read target => target.isChain_relabel r
  | .write value | .returnValue value => value.shaped_relabel r
  | .ifThen condition decls stmts | .loop condition decls stmts =>
    and_congr (condition.shaped_relabel r)
      (and_congr (Decl.forall_isVariable_relabel r decls) (Stmt.shapedAll_relabel stmts))
  | .ifElse condition thenDecls thenStmts elseDecls elseStmts =>
    and_congr (condition.shaped_relabel r) <| and_congr
      (and_congr (Decl.forall_isVariable_relabel r thenDecls) (Stmt.shapedAll_relabel thenStmts))
      (and_congr (Decl.forall_isVariable_relabel r elseDecls) (Stmt.shapedAll_relabel elseStmts))
  | .call expr => by
    cases expr with
    | call callee args => exact Expr.shapedAll_relabel r args
    | _ => rfl
  | .returnNothing | .stray _ => Iff.rfl

theorem Stmt.shapedAll_relabel : ∀ ss : List Stmt,
    Stmt.ShapedAll (Stmt.relabelAll r ss) ↔ Stmt.ShapedAll ss
  | [] => Iff.rfl
  | s :: ss => and_congr s.shaped_relabel (Stmt.shapedAll_relabel ss)

end

theorem Decl.shaped_relabel (d : Decl) : (d.relabel r).Shaped ↔ d.Shaped := by
  cases d with
  | var type _ => exact type.wellFormed_relabel r
  | formal => rfl
  | function returns _ formals decls stmts =>
    exact and_congr (returns.wellFormed_relabel r) <|
      and_congr (Decl.forall_isFormal_relabel r formals) <|
        and_congr (Decl.forall_isVariable_relabel r decls) (Stmt.shapedAll_relabel r stmts)
  | struct _ fields =>
    refine and_congr (not_congr ?_) (Decl.forall_isVariable_relabel r fields)
    simp [Decl.relabelAll_eq_map]
  | stray => rfl

/-- Labels play no part. -/
theorem Program.shaped_relabel (p : Program) : (p.relabel r).Shaped ↔ p.Shaped := by
  simp [Program.Shaped, Program.relabel, Decl.relabelAll_eq_map, Decl.shaped_relabel]

mutual

theorem Expr.wellFormed_relabel : ∀ e : Expr, (e.relabel r).WellFormed ↔ e.WellFormed
  | .int .. | .str .. | .bool .. | .name _ | .strayDot .. | .strayCall .. | .stray _ => Iff.rfl
  | .dot object _ _ => object.wellFormed_relabel
  | .assign target value => and_congr target.wellFormed_relabel value.wellFormed_relabel
  | .call _ args => Expr.wellFormedAll_relabel args
  | .unary _ operand => operand.wellFormed_relabel
  | .binary _ left right => and_congr left.wellFormed_relabel right.wellFormed_relabel

theorem Expr.wellFormedAll_relabel : ∀ es : List Expr,
    Expr.WellFormedAll (Expr.relabelAll r es) ↔ Expr.WellFormedAll es
  | [] => Iff.rfl
  | e :: es => and_congr e.wellFormed_relabel (Expr.wellFormedAll_relabel es)

end

mutual

theorem Stmt.wellFormed_relabel : ∀ s : Stmt, (s.relabel r).WellFormed ↔ s.WellFormed
  | .assign expr | .increment expr | .decrement expr | .read expr | .write expr | .call expr
  | .returnValue expr => expr.wellFormed_relabel r
  | .ifThen condition decls stmts | .loop condition decls stmts =>
    and_congr (condition.wellFormed_relabel r)
      (and_congr (Decl.forall_isVariable_relabel r decls) (Stmt.wellFormedAll_relabel stmts))
  | .ifElse condition thenDecls thenStmts elseDecls elseStmts =>
    and_congr (condition.wellFormed_relabel r) <| and_congr
      (and_congr (Decl.forall_isVariable_relabel r thenDecls)
        (Stmt.wellFormedAll_relabel thenStmts))
      (and_congr (Decl.forall_isVariable_relabel r elseDecls)
        (Stmt.wellFormedAll_relabel elseStmts))
  | .returnNothing | .stray _ => Iff.rfl

theorem Stmt.wellFormedAll_relabel : ∀ ss : List Stmt,
    Stmt.WellFormedAll (Stmt.relabelAll r ss) ↔ Stmt.WellFormedAll ss
  | [] => Iff.rfl
  | s :: ss => and_congr s.wellFormed_relabel (Stmt.wellFormedAll_relabel ss)

end

theorem Decl.wellFormed_relabel (d : Decl) : (d.relabel r).WellFormed ↔ d.WellFormed := by
  cases d with
  | var type _ => exact type.wellFormed_relabel r
  | function returns _ formals decls stmts =>
    exact and_congr (returns.wellFormed_relabel r) <|
      and_congr (Decl.forall_isFormal_relabel r formals) <|
        and_congr (Decl.forall_isVariable_relabel r decls) (Stmt.wellFormedAll_relabel r stmts)
  | struct _ fields => exact Decl.forall_isVariable_relabel r fields
  | _ => rfl

theorem Program.wellFormed_relabel (p : Program) : (p.relabel r).WellFormed ↔ p.WellFormed := by
  simp [Program.WellFormed, Program.relabel, Decl.relabelAll_eq_map, Decl.wellFormed_relabel]

end Relabel

/-! ## Trees that were read -/

theorem TypeExpr.Legible.wellFormed {type : TypeExpr} (h : type.Legible) : type.WellFormed := by
  cases type with
  | stray => exact h
  | _ => trivial

theorem Decl.LegibleVar.isVariable {decl : Decl} (h : decl.LegibleVar) : decl.IsVariable := by
  cases decl with
  | var => exact h.1.wellFormed
  | _ => exact h

theorem Decl.LegibleFormal.isFormal {decl : Decl} (h : decl.LegibleFormal) : decl.IsFormal := by
  cases decl with
  | formal => exact h.1.wellFormed
  | _ => exact h

theorem Expr.Heads.isChain {spot : Spot} : ∀ {expr : Expr}, expr.Heads spot → expr.IsChain
  | .name _, _ => trivial
  | .dot object _ _, h => by
    have hobject : object.Heads spot := h
    exact hobject.isChain

mutual

theorem Expr.Legible.shaped : ∀ {expr : Expr}, expr.Legible → expr.Shaped
  | .int .., _ | .str .., _ | .bool .., _ | .name _, _ => trivial
  | .dot _ _ _, h => Expr.Heads.isChain h
  | .assign _ _, ⟨ht, hv⟩ => ⟨ht.isChain, hv.shaped⟩
  | .call _ _, ⟨_, h⟩ => Expr.LegibleAll.shaped h
  | .unary _ _, ⟨hop, h⟩ => ⟨hop, h.shaped⟩
  | .binary _ _ _, ⟨hop, hl, hr⟩ => ⟨hop, hl.shaped, hr.shaped⟩

theorem Expr.LegibleAll.shaped : ∀ {exprs : List Expr}, Expr.LegibleAll exprs →
    Expr.ShapedAll exprs
  | [], _ => trivial
  | _ :: _, ⟨h, hs⟩ => ⟨h.shaped, Expr.LegibleAll.shaped hs⟩

end

mutual

theorem Stmt.Legible.shaped {spot : Spot} : ∀ {stmt : Stmt}, stmt.Legible spot → stmt.Shaped
  | .assign (.assign _ _), ⟨ht, hv⟩ => ⟨ht.isChain, hv.shaped⟩
  | .increment _, h | .decrement _, h | .read _, h => Expr.Heads.isChain h
  | .write _, h | .returnValue _, h => Expr.Legible.shaped h
  | .ifThen .., ⟨hc, hd, hs⟩ | .loop .., ⟨hc, hd, hs⟩ =>
    ⟨hc.shaped, fun d hm => (hd d hm).isVariable, Stmt.LegibleAll.shaped hs⟩
  | .ifElse .., ⟨hc, htd, hts, hed, hes⟩ =>
    ⟨hc.shaped, ⟨fun d hm => (htd d hm).isVariable, Stmt.LegibleAll.shaped hts⟩,
      fun d hm => (hed d hm).isVariable, Stmt.LegibleAll.shaped hes⟩
  | .call (.call _ _), ⟨_, h⟩ => Expr.LegibleAll.shaped h
  | .returnNothing, _ => trivial

theorem Stmt.LegibleAll.shaped {spot : Spot} : ∀ {stmts : List Stmt}, Stmt.LegibleAll spot stmts →
    Stmt.ShapedAll stmts
  | [], _ => trivial
  | _ :: _, ⟨h, hs⟩ => ⟨h.shaped, Stmt.LegibleAll.shaped hs⟩

end

theorem Decl.Legible.shaped {decl : Decl} (h : decl.Legible) : decl.Shaped := by
  cases decl with
  | var => exact h.1.wellFormed
  | function =>
    obtain ⟨hr, _, hf, hd, hs⟩ := h
    exact ⟨hr.wellFormed, fun d hm => (hf d hm).isFormal, fun d hm => (hd d hm).isVariable,
      hs.shaped⟩
  | struct => exact ⟨h.2.1, fun d hm => (h.2.2 d hm).isVariable⟩
  | formal => exact h
  | stray => exact h

/-- Every tree that was read has the shape. -/
theorem parse_shaped {source : String} {program : Program} (h : parse source = .ok program) :
    program.Shaped :=
  fun decl hd => (parse_legible h decl hd).shaped

end Moo
