import Moo.Proofs.Reading.Completeness

/-!
# Every place leads to the end of a program

Wherever the reader stands, some words take it to the end of a program: an
operand is given where one is missing, and what is open is closed from the
inside out. So nothing that has been read rules out a program that starts
with it.

* `Place.finishes`: the words, for every place.
* `readOn_finishes`: the same for a text, which goes on with a new line.
-/
namespace Moo

open ClearWord

/-- A name. -/
def ClearWord.name : ClearWord where
  terminal := .ident
  text := "x"
  spelled := ⟨'x', [], rfl, by decide, List.forall_mem_nil _⟩
  unlike := fun _ f => by cases f <;> decide
  short := fun h => by cases h

namespace Place

/-- Wherever they stand, some clear words lead from the place to the end of a program. -/
def Finishes (place : Place) : Prop :=
  ∀ loc, ∃ words last program, place.run (layOut loc words) = some last ∧
    last.program? = some program

namespace Finishes

variable {place : Place}

theorem word (word : ClearWord)
    (h : ∀ loc, ∃ next, place.step? ⟨word.terminal, word.text, loc⟩ = some next ∧ next.Finishes) :
    place.Finishes := by
  intro loc
  obtain ⟨next, hs, hnext⟩ := h loc
  obtain ⟨words, last, program, hr, hp⟩ := hnext ((loc.past word.text.toList).next ' ')
  exact ⟨word :: words, last, program, (run_cons hs).trans hr, hp⟩

theorem fixed {next : Place} (f : Fixed)
    (hs : ∀ loc, place.step? ⟨.fixed f, f.spelling, loc⟩ = some next) (h : next.Finishes) :
    place.Finishes :=
  .word (.fixed f) fun loc => ⟨next, hs loc, h⟩

theorem name {next : Token → Place}
    (hs : ∀ name : Token, name.terminal = .ident → place.step? name = some (next name))
    (h : ∀ name, (next name).Finishes) : place.Finishes :=
  .word .name fun _ => ⟨_, hs _ rfl, h _⟩

end Finishes

/-! ## Blocks -/

theorem finishes_between (decls : List Decl) : (between decls).Finishes :=
  fun _ => ⟨[], _, _, rfl, rfl⟩

/-- Whatever statements a block has, it is closed, and then the blocks around it. -/
theorem finishes_withStmts : ∀ (block : Block) (stmts : List Stmt),
    (inBlock (block.withStmts stmts)).Finishes
  | .function .., _ => .fixed .closeBrace (fun _ => rfl) (finishes_between _)
  | .nested _ outer _ _, _ => .fixed .closeBrace (fun _ => rfl) (finishes_withStmts outer _)

theorem finishes_inBlock (block : Block) : (inBlock block).Finishes := by
  have h := finishes_withStmts block block.stmts
  cases block <;> exact h

theorem finishes_opened (block : Block) (opener : Opener) : (opened block opener).Finishes :=
  .fixed .openBrace (fun _ => rfl) (finishes_inBlock _)

theorem finishes_called (block : Block) (call : Expr) : (called block call).Finishes :=
  .fixed .semicolon (fun _ => rfl) (finishes_inBlock _)

/-! ## Expressions -/

/-- After an operand the expression can end, and then what it stands in. -/
theorem finishes_afterValue : ∀ (hole : Hole) (pending : List Pending) (operand : Expr),
    (afterValue pending hole operand).Finishes
  | .assigned .., _, _ | .written _, _, _ | .returned _, _, _ =>
    .fixed .semicolon (fun _ => rfl) (finishes_inBlock _)
  | .ifCondition _, _, _ | .loopCondition _, _, _ =>
    .fixed .closeParen (fun _ => rfl) (finishes_opened _ _)
  | .argumentOfCall .., _, _ => .fixed .closeParen (fun _ => rfl) (finishes_called _ _)
  | .argument _ _ _ outer, _, _ | .group _ outer, _, _ =>
    .fixed .closeParen (fun _ => rfl) (finishes_afterValue outer _ _)

theorem finishes_atOperand (pending : List Pending) (hole : Hole) :
    (atOperand pending hole).Finishes :=
  .word (.digit '0' (by decide)) fun _ => ⟨_, rfl, finishes_afterValue hole pending _⟩

theorem finishes_afterTarget (seat : Seat) (target : Expr) :
    (afterTarget seat target).Finishes := by
  cases seat with
  | read block => exact .fixed .semicolon (fun _ => rfl) (finishes_inBlock _)
  | head block => exact .fixed .becomes (fun _ => rfl) (finishes_atOperand _ _)
  -- whatever waits, the target may be a factor
  | operand pending hole => exact .fixed .times (fun _ => rfl) (finishes_atOperand _ _)

/-! ## Declarations -/

theorem finishes_structEnd (before : List Decl) (tag : Ident) (fields : List Decl) :
    (structEnd before tag fields).Finishes :=
  .fixed .semicolon (fun _ => rfl) (finishes_between _)

theorem finishes_headed (header : Header) : (headed header).Finishes :=
  .fixed .openBrace (fun _ => rfl) (finishes_inBlock _)

theorem finishes_named (slot : Slot) (type : TypeExpr) (id : Ident) :
    (named slot type id).Finishes := by
  cases slot with
  | top decls => exact .fixed .semicolon (fun _ => rfl) (finishes_between _)
  | field before tag fields =>
    -- now the struct has a field and can be closed
    have hclose : (inStruct before tag (.var type id :: fields)).Finishes :=
      .fixed .closeBrace (fun _ => rfl) (finishes_structEnd _ _ _)
    exact .fixed .semicolon (fun _ => rfl) hclose
  | formal header => exact .fixed .closeParen (fun _ => rfl) (finishes_headed _)
  | inner block => exact .fixed .semicolon (fun _ => rfl) (finishes_inBlock _)

theorem finishes_typed (slot : Slot) (type : TypeExpr) : (typed slot type).Finishes :=
  .name (fun _ ht => (Steps.name ht).step?_eq) fun _ => finishes_named slot type _

/-- Where a type starts, it may be `int`. -/
theorem typeSteps_int (slot : Slot) (loc : Loc) :
    slot.TypeSteps ⟨.fixed .int, "int", loc⟩ (typed slot (.primitive "int")) :=
  .primitive List.mem_cons_self rfl

theorem finishes_tagged (decls : List Decl) (tag : Ident) : (tagged decls tag).Finishes :=
  .name (fun _ ht => (Steps.taggedName ht).step?_eq) fun _ => finishes_named _ _ _

theorem finishes_structWord (slot : Slot) : (structWord slot).Finishes := by
  cases slot with
  | top decls => exact .name (fun _ ht => (Steps.tag ht).step?_eq) fun _ => finishes_tagged decls _
  | _ =>
    exact .name (fun _ ht => (Steps.structType (by simp) ht).step?_eq) fun _ =>
      finishes_typed _ _

/-- From every place, some words lead to the end of a program. -/
theorem finishes (place : Place) : place.Finishes := by
  cases place with
  | between decls => exact finishes_between decls
  | structWord slot => exact finishes_structWord slot
  | tagged decls tag => exact finishes_tagged decls tag
  | typed slot type => exact finishes_typed slot type
  | named slot type id => exact finishes_named slot type id
  | inStruct before tag fields =>
    exact .fixed .int (fun loc => (Steps.field (typeSteps_int _ loc)).step?_eq)
      (finishes_typed _ _)
  | structEnd before tag fields => exact finishes_structEnd before tag fields
  | inFormals header =>
    exact .fixed .int (fun loc => (Steps.formal (typeSteps_int _ loc)).step?_eq)
      (finishes_typed _ _)
  | headed header => exact finishes_headed header
  | inBlock block => exact finishes_inBlock block
  | ifWord block => exact .fixed .openParen (fun _ => rfl) (finishes_atOperand _ _)
  | whileWord block => exact .fixed .openParen (fun _ => rfl) (finishes_atOperand _ _)
  | opened block opener => exact finishes_opened block opener
  | cinWord block =>
    have hread : (readArrow block).Finishes :=
      .name (fun _ ht => (Steps.readName ht).step?_eq) fun _ => finishes_afterTarget _ _
    exact .fixed .readArrow (fun _ => rfl) hread
  | readArrow block =>
    exact .name (fun _ ht => (Steps.readName ht).step?_eq) fun _ => finishes_afterTarget _ _
  | coutWord block => exact .fixed .writeArrow (fun _ => rfl) (finishes_atOperand _ _)
  | atOperand pending hole => exact finishes_atOperand pending hole
  | afterTarget seat target => exact finishes_afterTarget seat target
  | afterDot seat object =>
    exact .name (fun _ ht => (Steps.member ht).step?_eq) fun _ => finishes_afterTarget _ _
  | afterValue pending hole operand => exact finishes_afterValue hole pending operand
  | counted block stmt => exact .fixed .semicolon (fun _ => rfl) (finishes_inBlock _)
  | called block call => exact finishes_called block call

end Place

/-- From every place, some text on the next line is read to the end of a program. -/
theorem readOn_finishes (place : Place) (read : List Token) (loc : Loc) :
    ∃ text reading, readOn place read loc ('\n' :: text) = .ok reading := by
  obtain ⟨words, last, program, hr, hp⟩ := place.finishes ((loc.next '\n').next ' ')
  have hnewline : gap (['\n'] ++ spaced words) = ['\n'] ++ gap (spaced words) := rfl
  have hread := @readOn_spaced _ _ read _ _ _ hr hp
  exact ⟨spaced words, _, (readOn_skip ['\n'] hnewline).trans hread⟩

end Moo
