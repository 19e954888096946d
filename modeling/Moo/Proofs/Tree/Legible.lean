import Moo.Reading
import Moo.Proofs.Reading.Lexical

/-!
# Trees that can be written down

A tree is legible if every name, literal and operator in it can stand, as it
is, where printing puts it. A name may be spelled like a keyword as long as
that keyword is not offered where the name is read: `int` is a fine name for
a variable, and a fine first word of a statement behind another statement,
but not of the first statement of a block.

* `Ident.Fits`: the name is read as an identifier at the spot.
* `Expr.Legible`, `Stmt.Legible`, `Decl.Legible`: the parts of a tree.
* `Stmt.legibleAll_snoc`: one more statement at the end of a block.
-/
namespace Moo

/-- The name is read as an identifier at the spot. It has no symbol, as nothing has been analyzed. -/
structure Ident.Fits (spot : Spot) (id : Ident) : Prop where
  symbol : id.symbol = none
  spelled : IsLexeme .ident id.name.toList
  unlike : ∀ f : Fixed, spot.offers (.fixed f) = true → f.spelling ≠ id.name

/-- Where fewer keywords are offered a name still fits; a sign is never taken for a name. -/
theorem Ident.Fits.mono {id : Ident} {spot spot' : Spot} (h : id.Fits spot)
    (hs : ∀ f : Fixed, f.isKeyword = true → spot'.offers (.fixed f) = true →
      spot.offers (.fixed f) = true) : id.Fits spot' := by
  refine ⟨h.symbol, h.spelled, fun f hf he => ?_⟩
  obtain ⟨c, more, hw, hstart, _⟩ := h.spelled
  have hk : f.isKeyword = true :=
    (Fixed.first_letter ((congrArg String.toList he).trans hw)).2.2.2.2.2 hstart
  exact h.unlike f (hs f hk hf) he

/-- A name that is read anywhere can be declared: no keyword is offered there. -/
theorem Ident.Fits.name {id : Ident} {spot : Spot} (h : id.Fits spot) : id.Fits .name :=
  h.mono fun f _ hf => by simp [Spot.offers, Spot.terminals] at hf

def TypeExpr.Legible : TypeExpr → Prop
  | .primitive name => ∃ word ∈ [Fixed.int, .bool, .void], name = word.spelling
  | .struct tag => tag.Fits .name
  | .stray _ => False

/-- A name that fits the spot, or a chain of dots that starts with one. -/
def Expr.Heads (spot : Spot) : Expr → Prop
  | .name id => id.Fits spot
  | .dot object _ _ => object.Heads spot
  | _ => False

mutual

/-- An expression where an operand stands. -/
def Expr.Legible : Expr → Prop
  | .int value _ => ∃ n : Nat, value = n ∧ (Nat.repr n).length ≤ maxDigits
  | .str text _ => IsLexeme .text text.toList
  | .bool _ _ => True
  | .name id => id.Fits .operand
  | .dot object _ _ => object.Heads .operand
  | .assign target value => target.Heads .operand ∧ value.Legible
  | .call callee args => callee.Fits .operand ∧ Expr.LegibleAll args
  | .unary op operand => (∃ word ∈ [Fixed.minus, .not], op = word.spelling) ∧ operand.Legible
  | .binary op left right =>
    (∃ word binding, Fixed.binding? word = some binding ∧ op = word.spelling) ∧ left.Legible ∧
      right.Legible
  | .strayDot .. | .strayCall .. | .stray _ => False

def Expr.LegibleAll : List Expr → Prop
  | [] => True
  | e :: es => e.Legible ∧ Expr.LegibleAll es

end

/-- A variable, as a declaration in front of statements or as a field. -/
def Decl.LegibleVar : Decl → Prop
  | .var type id => type.Legible ∧ id.Fits .name
  | _ => False

def Decl.LegibleFormal : Decl → Prop
  | .formal type id => type.Legible ∧ id.Fits .name
  | _ => False

/-- Where the first statement behind the declarations of a block starts. -/
def bodySpot (decls : List Decl) : Spot :=
  if decls.isEmpty then .blockStart else .afterVariable

/-- Where the statement behind a statement starts. -/
def Stmt.after : Stmt → Spot
  | .ifThen .. | .ifElse .. | .loop .. => .afterBlock
  | _ => .afterStatement

mutual

/-- A statement that starts at the spot. -/
def Stmt.Legible (spot : Spot) : Stmt → Prop
  | .assign (.assign target value) => target.Heads spot ∧ value.Legible
  | .increment target | .decrement target => target.Heads spot
  | .read target => target.Heads .name
  | .write value | .returnValue value => value.Legible
  | .ifThen condition decls stmts | .loop condition decls stmts =>
    condition.Legible ∧ (∀ d ∈ decls, d.LegibleVar) ∧ Stmt.LegibleAll (bodySpot decls) stmts
  | .ifElse condition thenDecls thenStmts elseDecls elseStmts =>
    condition.Legible ∧
      (∀ d ∈ thenDecls, d.LegibleVar) ∧ Stmt.LegibleAll (bodySpot thenDecls) thenStmts ∧
      (∀ d ∈ elseDecls, d.LegibleVar) ∧ Stmt.LegibleAll (bodySpot elseDecls) elseStmts
  | .call (.call callee args) => callee.Fits spot ∧ Expr.LegibleAll args
  | .returnNothing => True
  | _ => False

/-- Statements that follow each other, the first at the spot. -/
def Stmt.LegibleAll (spot : Spot) : List Stmt → Prop
  | [] => True
  | s :: ss => s.Legible spot ∧ Stmt.LegibleAll s.after ss

end

/-- A declaration at top level. -/
def Decl.Legible : Decl → Prop
  | .var type id => type.Legible ∧ id.Fits .name
  | .function returns id formals decls stmts =>
    returns.Legible ∧ id.Fits .name ∧ (∀ d ∈ formals, d.LegibleFormal) ∧
      (∀ d ∈ decls, d.LegibleVar) ∧ Stmt.LegibleAll (bodySpot decls) stmts
  | .struct tag fields => tag.Fits .name ∧ fields ≠ [] ∧ ∀ d ∈ fields, d.LegibleVar
  | _ => False

def Program.Legible (program : Program) : Prop :=
  ∀ d ∈ program.decls, d.Legible

/-! ## Lists -/

theorem Expr.legibleAll_iff (es : List Expr) : Expr.LegibleAll es ↔ ∀ e ∈ es, e.Legible := by
  induction es with
  | nil => simp [Expr.LegibleAll]
  | cons e es ih => simp [Expr.LegibleAll, ih]

/-- Where the statement behind some statements starts. -/
def spotAfter (first : Spot) (stmts : List Stmt) : Spot :=
  (stmts.getLast?.map Stmt.after).getD first

theorem Stmt.legibleAll_snoc (first : Spot) (ss : List Stmt) (s : Stmt) :
    Stmt.LegibleAll first (ss ++ [s]) ↔
      Stmt.LegibleAll first ss ∧ s.Legible (spotAfter first ss) := by
  induction ss generalizing first with
  | nil => simp [Stmt.LegibleAll, spotAfter]
  | cons t ss ih =>
    have hspot : spotAfter first (t :: ss) = spotAfter t.after ss := by
      rw [spotAfter, List.getLast?_cons, Option.map_some, Option.getD_some, spotAfter,
        Option.getD_map]
    simp [Stmt.LegibleAll, ih, hspot, and_assoc]

/-- The spot of a block is where its next statement starts. -/
theorem Block.spot_eq (block : Block) :
    block.spot = spotAfter (bodySpot block.decls) block.stmts.reverse := by
  unfold Block.spot spotAfter bodySpot
  rw [List.getLast?_reverse]
  rcases block.stmts with _ | ⟨s, ss⟩
  · cases block.decls <;> rfl
  · cases s <;> rfl

/-- Dots and names are operands. -/
theorem Expr.Heads.legible {e : Expr} (h : e.Heads .operand) : e.Legible := by
  cases e with
  | name => exact h
  | dot => exact h
  | _ => exact h.elim

end Moo
