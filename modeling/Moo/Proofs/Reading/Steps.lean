import Moo.Reading.Step

/-!
# What a step can be

`Place.Steps token place next` has one rule for each way in which a word goes
on from a place, with all that the word and the place have to be for it. What
every step keeps is proved by cases on these rules, and no such proof looks
into `Place.step?`.

* `Slot.TypeSteps`, `Block.Steps`, `Slot.Steps`, `Hole.Closes`,
  `Hole.ClosesEmpty`, `ValueSteps`, `OperandSteps`, `Seat.Steps`: the same for
  the parts of a place that decide what a step does.
* `Place.step?_eq_some_iff`: the rules are the steps that there are.
-/
namespace Moo

/-- The keyword that a type starts with. -/
inductive Slot.TypeSteps (slot : Slot) (token : Token) : Place → Prop
  | structWord : token.terminal = .fixed .struct → slot.TypeSteps token (.structWord slot)
  | primitive {word} : word ∈ [Fixed.int, .bool, .void] → token.terminal = .fixed word →
    slot.TypeSteps token (.typed slot (.primitive word.spelling))

/-- A word in a block, where a declaration or a statement starts. -/
inductive Block.Steps (block : Block) (token : Token) : Place → Prop
  | target : token.terminal = .ident →
    block.Steps token (.afterTarget (.head block) (.name token.ident))
  | type {next} : block.stmts = [] → (Slot.inner block).TypeSteps token next →
    block.Steps token next
  | cin : token.terminal = .fixed .cin → block.Steps token (.cinWord block)
  | cout : token.terminal = .fixed .cout → block.Steps token (.coutWord block)
  | ifWord : token.terminal = .fixed .ifWord → block.Steps token (.ifWord block)
  | whileWord : token.terminal = .fixed .whileWord → block.Steps token (.whileWord block)
  | returnWord : token.terminal = .fixed .returnWord →
    block.Steps token (.atOperand [] (.returned block))
  | elseWord {condition decls stmts before} : token.terminal = .fixed .elseWord →
    block.stmts = .ifThen condition decls stmts :: before →
    block.Steps token (.opened (block.withStmts before) (.ifElse condition decls stmts))
  | close : token.terminal = .fixed .closeBrace → block.Steps token block.close

/-- A word after a type and a name. -/
inductive Slot.Steps (type : TypeExpr) (id : Ident) (token : Token) : Slot → Place → Prop
  | var {decls} : token.terminal = .fixed .semicolon →
    Slot.Steps type id token (.top decls) (.between (.var type id :: decls))
  | function {decls} : token.terminal = .fixed .openParen →
    Slot.Steps type id token (.top decls) (.inFormals ⟨decls, type, id, []⟩)
  | field {before tag fields} : token.terminal = .fixed .semicolon →
    Slot.Steps type id token (.field before tag fields)
      (.inStruct before tag (.var type id :: fields))
  | nextFormal {header} : token.terminal = .fixed .comma →
    Slot.Steps type id token (.formal header)
      (.inFormals { header with formals := .formal type id :: header.formals })
  | lastFormal {header} : token.terminal = .fixed .closeParen →
    Slot.Steps type id token (.formal header)
      (.headed { header with formals := .formal type id :: header.formals })
  | localVar {block} : token.terminal = .fixed .semicolon →
    Slot.Steps type id token (.inner block) (.inBlock (block.addDecl (.var type id)))

/-- The word that ends an expression. -/
inductive Hole.Closes (expr : Expr) (token : Token) : Hole → Place → Prop
  | assigned {block target} : token.terminal = .fixed .semicolon →
    Hole.Closes expr token (.assigned block target)
      (.inBlock (block.addStmt (.assign (.assign target expr))))
  | written {block} : token.terminal = .fixed .semicolon →
    Hole.Closes expr token (.written block) (.inBlock (block.addStmt (.write expr)))
  | returned {block} : token.terminal = .fixed .semicolon →
    Hole.Closes expr token (.returned block) (.inBlock (block.addStmt (.returnValue expr)))
  | ifCondition {block} : token.terminal = .fixed .closeParen →
    Hole.Closes expr token (.ifCondition block) (.opened block (.ifThen expr))
  | loopCondition {block} : token.terminal = .fixed .closeParen →
    Hole.Closes expr token (.loopCondition block) (.opened block (.loop expr))
  | lastOfCall {block callee args} : token.terminal = .fixed .closeParen →
    Hole.Closes expr token (.argumentOfCall block callee args)
      (.called block (.call callee (expr :: args).reverse))
  | nextOfCall {block callee args} : token.terminal = .fixed .comma →
    Hole.Closes expr token (.argumentOfCall block callee args)
      (.atOperand [] (.argumentOfCall block callee (expr :: args)))
  | lastArgument {callee args pending outer} : token.terminal = .fixed .closeParen →
    Hole.Closes expr token (.argument callee args pending outer)
      (.afterValue pending outer (.call callee (expr :: args).reverse))
  | nextArgument {callee args pending outer} : token.terminal = .fixed .comma →
    Hole.Closes expr token (.argument callee args pending outer)
      (.atOperand [] (.argument callee (expr :: args) pending outer))
  | group {pending outer} : token.terminal = .fixed .closeParen →
    Hole.Closes expr token (.group pending outer) (.afterValue pending outer expr)

/-- The word that ends what needs no expression. -/
inductive Hole.ClosesEmpty (token : Token) : Hole → Place → Prop
  | returned {block} : token.terminal = .fixed .semicolon →
    Hole.ClosesEmpty token (.returned block) (.inBlock (block.addStmt .returnNothing))
  | argumentOfCall {block callee} : token.terminal = .fixed .closeParen →
    Hole.ClosesEmpty token (.argumentOfCall block callee []) (.called block (.call callee []))
  | argument {callee pending outer} : token.terminal = .fixed .closeParen →
    Hole.ClosesEmpty token (.argument callee [] pending outer)
      (.afterValue pending outer (.call callee []))

/-- A word after an operand. -/
inductive ValueSteps (pending : List Pending) (hole : Hole) (operand : Expr) (token : Token) :
    Place → Prop
  | operator {word binding pending'} : word.binding? = some binding →
    token.terminal = .fixed word →
    pendOperator? binding word.spelling operand pending = some pending' →
    ValueSteps pending hole operand token (.atOperand pending' hole)
  | close {next} : hole.Closes (settleAll operand pending) token next →
    ValueSteps pending hole operand token next

/-- A word where an operand starts. -/
inductive OperandSteps (pending : List Pending) (hole : Hole) (token : Token) : Place → Prop
  | name : token.terminal = .ident →
    OperandSteps pending hole token (.afterTarget (.operand pending hole) (.name token.ident))
  | number : token.terminal = .number →
    OperandSteps pending hole token (.afterValue pending hole (.int token.number token.loc))
  | text : token.terminal = .text →
    OperandSteps pending hole token (.afterValue pending hole (.str token.text token.loc))
  | trueWord : token.terminal = .fixed .trueWord →
    OperandSteps pending hole token (.afterValue pending hole (.bool true token.loc))
  | falseWord : token.terminal = .fixed .falseWord →
    OperandSteps pending hole token (.afterValue pending hole (.bool false token.loc))
  | group : token.terminal = .fixed .openParen →
    OperandSteps pending hole token (.atOperand [] (.group pending hole))
  | sign {word} : word ∈ [Fixed.minus, .not] → token.terminal = .fixed word →
    OperandSteps pending hole token (.atOperand (.unary word.spelling :: pending) hole)
  | close {next} : pending = [] → hole.ClosesEmpty token next →
    OperandSteps pending hole token next

/-- A word after a name or a chain of names and dots, where it is no dot. -/
inductive Seat.Steps (target : Expr) (token : Token) : Seat → Place → Prop
  | read {block} : token.terminal = .fixed .semicolon →
    Seat.Steps target token (.read block) (.inBlock (block.addStmt (.read target)))
  | assignment {block} : token.terminal = .fixed .becomes →
    Seat.Steps target token (.head block) (.atOperand [] (.assigned block target))
  | increment {block} : token.terminal = .fixed .increment →
    Seat.Steps target token (.head block) (.counted block (.increment target))
  | decrement {block} : token.terminal = .fixed .decrement →
    Seat.Steps target token (.head block) (.counted block (.decrement target))
  | callStmt {block callee} : target = .name callee → token.terminal = .fixed .openParen →
    Seat.Steps target token (.head block) (.atOperand [] (.argumentOfCall block callee []))
  | assign {pending hole} : onlyAssigns pending = true → token.terminal = .fixed .becomes →
    Seat.Steps target token (.operand pending hole) (.atOperand (.assign target :: pending) hole)
  | call {pending hole callee} : target = .name callee → token.terminal = .fixed .openParen →
    Seat.Steps target token (.operand pending hole)
      (.atOperand [] (.argument callee [] pending hole))
  | value {pending hole next} : ValueSteps pending hole target token next →
    Seat.Steps target token (.operand pending hole) next

/-- One more word. -/
inductive Place.Steps (token : Token) : Place → Place → Prop
  | between {decls next} : (Slot.top decls).TypeSteps token next →
    Place.Steps token (.between decls) next
  | tag {decls} : token.terminal = .ident →
    Place.Steps token (.structWord (.top decls)) (.tagged decls token.ident)
  | structType {slot} : (∀ decls, slot ≠ .top decls) → token.terminal = .ident →
    Place.Steps token (.structWord slot) (.typed slot (.struct token.ident))
  | openStruct {decls tag} : token.terminal = .fixed .openBrace →
    Place.Steps token (.tagged decls tag) (.inStruct decls tag [])
  | taggedName {decls tag} : token.terminal = .ident →
    Place.Steps token (.tagged decls tag) (.named (.top decls) (.struct tag) token.ident)
  | name {slot type} : token.terminal = .ident →
    Place.Steps token (.typed slot type) (.named slot type token.ident)
  | named {slot type id next} : slot.Steps type id token next →
    Place.Steps token (.named slot type id) next
  | closeStruct {before tag fields} : fields ≠ [] → token.terminal = .fixed .closeBrace →
    Place.Steps token (.inStruct before tag fields) (.structEnd before tag fields)
  | field {before tag fields next} : (Slot.field before tag fields).TypeSteps token next →
    Place.Steps token (.inStruct before tag fields) next
  | endStruct {before tag fields} : token.terminal = .fixed .semicolon →
    Place.Steps token (.structEnd before tag fields)
      (.between (.struct tag fields.reverse :: before))
  | noFormals {header} : header.formals = [] → token.terminal = .fixed .closeParen →
    Place.Steps token (.inFormals header) (.headed header)
  | formal {header next} : (Slot.formal header).TypeSteps token next →
    Place.Steps token (.inFormals header) next
  | body {header} : token.terminal = .fixed .openBrace →
    Place.Steps token (.headed header) (.inBlock (.function header [] []))
  | inBlock {block next} : block.Steps token next → Place.Steps token (.inBlock block) next
  | ifCondition {block} : token.terminal = .fixed .openParen →
    Place.Steps token (.ifWord block) (.atOperand [] (.ifCondition block))
  | loopCondition {block} : token.terminal = .fixed .openParen →
    Place.Steps token (.whileWord block) (.atOperand [] (.loopCondition block))
  | enter {block opener} : token.terminal = .fixed .openBrace →
    Place.Steps token (.opened block opener) (.inBlock (.nested opener block [] []))
  | readArrow {block} : token.terminal = .fixed .readArrow →
    Place.Steps token (.cinWord block) (.readArrow block)
  | readName {block} : token.terminal = .ident →
    Place.Steps token (.readArrow block) (.afterTarget (.read block) (.name token.ident))
  | writeArrow {block} : token.terminal = .fixed .writeArrow →
    Place.Steps token (.coutWord block) (.atOperand [] (.written block))
  | operand {pending hole next} : OperandSteps pending hole token next →
    Place.Steps token (.atOperand pending hole) next
  | dot {seat target} : token.terminal = .fixed .dot →
    Place.Steps token (.afterTarget seat target) (.afterDot seat target)
  | target {seat target next} : seat.Steps target token next →
    Place.Steps token (.afterTarget seat target) next
  | member {seat object} : token.terminal = .ident →
    Place.Steps token (.afterDot seat object) (.afterTarget seat (.dot object token.ident none))
  | value {pending hole operand next} : ValueSteps pending hole operand token next →
    Place.Steps token (.afterValue pending hole operand) next
  | counted {block stmt} : token.terminal = .fixed .semicolon →
    Place.Steps token (.counted block stmt) (.inBlock (block.addStmt stmt))
  | called {block call} : token.terminal = .fixed .semicolon →
    Place.Steps token (.called block call) (.inBlock (block.addStmt (.call call)))

/-! ## The rules are the steps -/

variable {token : Token} {next : Place}

theorem Slot.typeStep?_eq_some_iff {slot : Slot} :
    slot.typeStep? token = some next ↔ slot.TypeSteps token next := by
  constructor
  · intro h
    unfold Slot.typeStep? at h
    split at h
    · next ht => cases h; exact .structWord ht
    · next word _ ht =>
      split at h
      · next hp =>
        cases h
        exact .primitive (by cases word <;> simp_all [Fixed.isPrimitiveType]) ht
      · cases h
    · cases h
  · intro h
    cases h with
    | structWord ht => simp [Slot.typeStep?, ht]
    | primitive hm ht =>
      simp only [List.mem_cons, List.not_mem_nil, or_false] at hm
      obtain rfl | rfl | rfl := hm <;> simp [Slot.typeStep?, ht, Fixed.isPrimitiveType]

/-- A type starts with one of its keywords. -/
theorem Slot.TypeSteps.typeWord {slot : Slot} (h : slot.TypeSteps token next) :
    token.terminal ∈ Spot.typeWords := by
  cases h with
  | structWord ht => rw [ht]; decide
  | primitive hm ht =>
    rw [ht]
    simp only [List.mem_cons, List.not_mem_nil, or_false] at hm
    obtain rfl | rfl | rfl := hm <;> decide

theorem Block.step?_eq_some_iff {block : Block} :
    block.step? token = some next ↔ block.Steps token next := by
  constructor
  · intro h
    unfold Block.step? at h
    split at h
    · next ht => cases h; exact .target ht
    · next word ht =>
      split at h
      iterate 3
        split at h
        · next he => cases h; exact .type (List.isEmpty_iff.1 he) (.primitive (by simp) ht)
        · cases h
      · split at h
        · next he => cases h; exact .type (List.isEmpty_iff.1 he) (.structWord ht)
        · cases h
      · cases h; exact .cin ht
      · cases h; exact .cout ht
      · cases h; exact .ifWord ht
      · cases h; exact .whileWord ht
      · cases h; exact .returnWord ht
      · obtain ⟨⟨outer, opener⟩, hr, rfl⟩ := Option.map_eq_some_iff.1 h
        unfold Block.reopenIf? at hr
        split at hr
        · next hs => cases hr; exact .elseWord ht hs
        · cases hr
      · cases h; exact .close ht
      · cases h
    · cases h
  · intro h
    cases h with
    | type he ht =>
      cases ht with
      | structWord ht => simp [Block.step?, ht, he]
      | primitive hm ht =>
        simp only [List.mem_cons, List.not_mem_nil, or_false] at hm
        obtain rfl | rfl | rfl := hm <;> simp [Block.step?, ht, he]
    | elseWord ht hs => simp [Block.step?, Block.reopenIf?, ht, hs]
    | _ ht => simp [Block.step?, ht]

theorem Slot.step?_eq_some_iff {slot : Slot} {type : TypeExpr} {id : Ident} :
    slot.step? type id token = some next ↔ slot.Steps type id token next := by
  constructor
  · intro h
    cases slot with
    | top decls =>
      simp only [Slot.step?] at h
      split at h
      · next ht => cases h; exact .var ht
      · next ht => cases h; exact .function ht
      · cases h
    | field before tag fields =>
      simp only [Slot.step?] at h
      split at h
      · next ht => cases h; exact .field ht
      · cases h
    | formal header =>
      simp only [Slot.step?] at h
      split at h
      · next ht => cases h; exact .nextFormal ht
      · next ht => cases h; exact .lastFormal ht
      · cases h
    | inner block =>
      simp only [Slot.step?] at h
      split at h
      · next ht => cases h; exact .localVar ht
      · cases h
  · intro h
    cases h with
    | _ ht => simp [Slot.step?, ht]

namespace Hole

variable {hole : Hole}

theorem close?_eq_some_iff {expr : Expr} :
    hole.close? expr token = some next ↔ hole.Closes expr token next := by
  constructor
  · intro h
    cases hole with
    | assigned block target =>
      simp only [close?] at h
      split at h
      · next ht => cases h; exact .assigned ht
      · cases h
    | written block =>
      simp only [close?] at h
      split at h
      · next ht => cases h; exact .written ht
      · cases h
    | returned block =>
      simp only [close?] at h
      split at h
      · next ht => cases h; exact .returned ht
      · cases h
    | ifCondition block =>
      simp only [close?] at h
      split at h
      · next ht => cases h; exact .ifCondition ht
      · cases h
    | loopCondition block =>
      simp only [close?] at h
      split at h
      · next ht => cases h; exact .loopCondition ht
      · cases h
    | argumentOfCall block callee args =>
      simp only [close?] at h
      split at h
      · next ht => cases h; exact .lastOfCall ht
      · next ht => cases h; exact .nextOfCall ht
      · cases h
    | argument callee args pending outer =>
      simp only [close?] at h
      split at h
      · next ht => cases h; exact .lastArgument ht
      · next ht => cases h; exact .nextArgument ht
      · cases h
    | group pending outer =>
      simp only [close?] at h
      split at h
      · next ht => cases h; exact .group ht
      · cases h
  · intro h
    cases h with
    | _ ht => simp [close?, ht]

theorem closeEmpty?_eq_some_iff :
    hole.closeEmpty? token = some next ↔ hole.ClosesEmpty token next := by
  constructor
  · intro h
    unfold closeEmpty? at h
    split at h
    · split at h
      · next ht => cases h; exact .returned ht
      · cases h
    · split at h
      · next ht => cases h; exact .argumentOfCall ht
      · cases h
    · split at h
      · next ht => cases h; exact .argument ht
      · cases h
    · cases h
  · intro h
    cases h with
    | _ ht => simp [closeEmpty?, ht]

end Hole

theorem valueStep?_eq_some_iff {pending : List Pending} {hole : Hole} {operand : Expr} :
    valueStep? pending hole operand token = some next ↔
      ValueSteps pending hole operand token next := by
  constructor
  · intro h
    unfold valueStep? at h
    split at h
    · next word ht =>
      split at h
      · next binding hb =>
        obtain ⟨pending', hp, rfl⟩ := Option.map_eq_some_iff.1 h
        exact .operator hb ht hp
      · exact .close (Hole.close?_eq_some_iff.1 h)
    · cases h
  · intro h
    cases h with
    | operator hb ht hp => simp [valueStep?, ht, hb, hp]
    | close hc =>
      -- no word that ends an expression is an operator
      have hs := Hole.close?_eq_some_iff.2 hc
      cases hc with
      | _ ht => simpa [valueStep?, ht, Fixed.binding?] using hs

/-- An operand ends with an operator or with the expression. -/
theorem ValueSteps.operandEnd {pending : List Pending} {hole : Hole} {operand : Expr}
    (h : ValueSteps pending hole operand token next) : token.terminal ∈ Spot.operandEnds := by
  cases h with
  | operator hb ht =>
    next word _ _ _ =>
    rw [ht]
    cases word <;> first | decide | cases hb
  | close hc =>
    cases hc with
    | _ ht => rw [ht]; decide

theorem operandStep?_eq_some_iff {pending : List Pending} {hole : Hole} :
    operandStep? pending hole token = some next ↔ OperandSteps pending hole token next := by
  constructor
  · intro h
    unfold operandStep? at h
    split at h
    · next ht => cases h; exact .name ht
    · next ht => cases h; exact .number ht
    · next ht => cases h; exact .text ht
    · next ht => cases h; exact .trueWord ht
    · next ht => cases h; exact .falseWord ht
    · next ht => cases h; exact .group ht
    · next ht => cases h; exact .sign (by simp) ht
    · next ht => cases h; exact .sign (by simp) ht
    · split at h
      · next he => exact .close (List.isEmpty_iff.1 he) (Hole.closeEmpty?_eq_some_iff.1 h)
      · cases h
  · intro h
    cases h with
    | sign hm ht =>
      simp only [List.mem_cons, List.not_mem_nil, or_false] at hm
      obtain rfl | rfl := hm <;> simp [operandStep?, ht]
    | close he hc =>
      have hs := Hole.closeEmpty?_eq_some_iff.2 hc
      cases hc with
      | _ ht => simpa [operandStep?, ht, he] using hs
    | _ ht => simp [operandStep?, ht]

theorem Seat.step?_eq_some_iff {seat : Seat} {target : Expr} :
    seat.step? target token = some next ↔ seat.Steps target token next := by
  constructor
  · intro h
    cases seat with
    | read block =>
      simp only [Seat.step?] at h
      split at h
      · next ht => cases h; exact .read ht
      · cases h
    | head block =>
      simp only [Seat.step?] at h
      split at h
      · next ht => cases h; exact .assignment ht
      · next ht => cases h; exact .increment ht
      · next ht => cases h; exact .decrement ht
      · next ht => cases h; exact .callStmt rfl ht
      · cases h
    | operand pending hole =>
      simp only [Seat.step?] at h
      split at h
      · next ht =>
        split at h
        · next ho => cases h; exact .assign ho ht
        · cases h
      · next ht => cases h; exact .call rfl ht
      · exact .value (valueStep?_eq_some_iff.1 h)
  · intro h
    cases h with
    | callStmt hn ht => simp [Seat.step?, hn, ht]
    | assign ho ht => simp [Seat.step?, ho, ht]
    | call hn ht => simp [Seat.step?, hn, ht]
    | value hv =>
      have hend := hv.operandEnd
      simp only [Seat.step?]
      split
      · next ht => rw [ht] at hend; exact absurd hend (by decide)
      · next ht => rw [ht] at hend; exact absurd hend (by decide)
      · exact valueStep?_eq_some_iff.2 hv
    | _ ht => simp [Seat.step?, ht]

theorem Seat.Steps.ne_dot {seat : Seat} {target : Expr} (h : seat.Steps target token next) :
    token.terminal ≠ .fixed .dot := by
  intro hd
  cases h with
  | value hv =>
    have hend := hv.operandEnd
    rw [hd] at hend
    exact absurd hend (by decide)
  | callStmt _ ht => rw [hd] at ht; cases ht
  | assign _ ht => rw [hd] at ht; cases ht
  | call _ ht => rw [hd] at ht; cases ht
  | _ ht => rw [hd] at ht; cases ht

namespace Place

variable {place : Place}

theorem Steps.of_step (h : place.step? token = some next) : place.Steps token next := by
  cases place with
  | between decls => exact .between (Slot.typeStep?_eq_some_iff.1 h)
  | structWord slot =>
    simp only [step?] at h
    split at h
    · next ht => cases h; exact .tag ht
    · next ht hs => cases h; exact .structType hs ht
    · cases h
  | tagged decls tag =>
    simp only [step?] at h
    split at h
    · next ht => cases h; exact .openStruct ht
    · next ht => cases h; exact .taggedName ht
    · cases h
  | typed slot type =>
    simp only [step?] at h
    split at h
    · next ht => cases h; exact .name ht
    · cases h
  | named slot type id => exact .named (Slot.step?_eq_some_iff.1 h)
  | inStruct before tag fields =>
    simp only [step?] at h
    split at h
    · next ht => cases h; exact .closeStruct (List.cons_ne_nil _ _) ht
    · exact .field (Slot.typeStep?_eq_some_iff.1 h)
  | structEnd before tag fields =>
    simp only [step?] at h
    split at h
    · next ht => cases h; exact .endStruct ht
    · cases h
  | inFormals header =>
    simp only [step?] at h
    split at h
    · next ht hn => cases h; exact .noFormals hn ht
    · exact .formal (Slot.typeStep?_eq_some_iff.1 h)
  | headed header =>
    simp only [step?] at h
    split at h
    · next ht => cases h; exact .body ht
    · cases h
  | inBlock block => exact .inBlock (Block.step?_eq_some_iff.1 h)
  | ifWord block =>
    simp only [step?] at h
    split at h
    · next ht => cases h; exact .ifCondition ht
    · cases h
  | whileWord block =>
    simp only [step?] at h
    split at h
    · next ht => cases h; exact .loopCondition ht
    · cases h
  | opened block opener =>
    simp only [step?] at h
    split at h
    · next ht => cases h; exact .enter ht
    · cases h
  | cinWord block =>
    simp only [step?] at h
    split at h
    · next ht => cases h; exact .readArrow ht
    · cases h
  | readArrow block =>
    simp only [step?] at h
    split at h
    · next ht => cases h; exact .readName ht
    · cases h
  | coutWord block =>
    simp only [step?] at h
    split at h
    · next ht => cases h; exact .writeArrow ht
    · cases h
  | atOperand pending hole => exact .operand (operandStep?_eq_some_iff.1 h)
  | afterTarget seat target =>
    simp only [step?] at h
    split at h
    · next ht => cases h; exact .dot ht
    · exact .target (Seat.step?_eq_some_iff.1 h)
  | afterDot seat object =>
    simp only [step?] at h
    split at h
    · next ht => cases h; exact .member ht
    · cases h
  | afterValue pending hole operand => exact .value (valueStep?_eq_some_iff.1 h)
  | counted block stmt =>
    simp only [step?] at h
    split at h
    · next ht => cases h; exact .counted ht
    · cases h
  | called block call =>
    simp only [step?] at h
    split at h
    · next ht => cases h; exact .called ht
    · cases h

theorem Steps.step?_eq (h : place.Steps token next) : place.step? token = some next := by
  cases h with
  | between ht => exact Slot.typeStep?_eq_some_iff.2 ht
  | structType hs ht =>
    next slot =>
    cases slot with
    | top decls => exact absurd rfl (hs decls)
    | _ => simp [step?, ht]
  | named hs => exact Slot.step?_eq_some_iff.2 hs
  | closeStruct hn ht =>
    next fields =>
    cases fields with
    | nil => exact absurd rfl hn
    | cons => simp [step?, ht]
  | field ht =>
    have hs := Slot.typeStep?_eq_some_iff.2 ht
    have htype := ht.typeWord
    simp only [step?]
    split
    · next hc => rw [hc] at htype; exact absurd htype (by decide)
    · exact hs
  | noFormals hn ht => simp [step?, hn, ht]
  | formal ht =>
    have hs := Slot.typeStep?_eq_some_iff.2 ht
    have htype := ht.typeWord
    simp only [step?]
    split
    · next hc _ => rw [hc] at htype; exact absurd htype (by decide)
    · exact hs
  | inBlock hs => exact Block.step?_eq_some_iff.2 hs
  | operand hs => exact operandStep?_eq_some_iff.2 hs
  | target hs =>
    have hne := hs.ne_dot
    simp only [step?]
    exact Seat.step?_eq_some_iff.2 hs
  | value hv => exact valueStep?_eq_some_iff.2 hv
  | _ ht => simp [step?, ht]

/-- The rules are the steps that there are. -/
theorem step?_eq_some_iff : place.step? token = some next ↔ place.Steps token next :=
  ⟨Steps.of_step, Steps.step?_eq⟩

end Place

end Moo
