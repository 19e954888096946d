import Moo.Proofs.Reading.Invariant
import Moo.Proofs.Reading.Steps

/-!
# The run over the words of a derivation

`Place.run` takes the steps of some words one after the other. For every
nonterminal, `Nonterminal.Runs` says what a run over words derived from it
does to the place in front of them, whatever that place holds already: a
statement joins its block, an operand its pending work, and so on.

* `settle_ready`, `pendOperator?_ready`: pending work that may wait for an
  operand of a level is not touched by operators of that level.
* `RunsOperand.operator`: two operands with an operator between them run as
  one operand.
* `Derives.runs`: words derived from a nonterminal run as it says.
-/
namespace Moo

/-- The place after some more words. -/
def Place.run (place : Place) : List Token → Option Place
  | [] => some place
  | token :: tokens => (place.step? token).bind (·.run tokens)

namespace Place

variable {place next : Place} {token : Token} {ts us : List Token}

@[simp]
theorem run_nil : place.run [] = some place := rfl

theorem run_cons (h : place.step? token = some next) : place.run (token :: ts) = next.run ts := by
  simp [run, h]

theorem run_append (h : place.run ts = some next) : place.run (ts ++ us) = next.run us := by
  induction ts generalizing place with
  | nil =>
    cases h
    rfl
  | cons token ts ih =>
    obtain ⟨middle, hs, hr⟩ := Option.bind_eq_some_iff.1 h
    rw [List.cons_append, run_cons hs, ih hr]

theorem run_snoc (h : place.run ts = some next) : place.run (ts ++ [token]) = next.step? token := by
  rw [run_append h, run]
  cases next.step? token <;> rfl

/-- A type may start, for the slot. -/
def StartsType (place : Place) (slot : Slot) : Prop :=
  ∀ token : Token, token.terminal ∈ Spot.typeWords → place.step? token = slot.typeStep? token

/-- A type has been read for the slot, and its name follows. -/
def EndsType (place : Place) (slot : Slot) (type : TypeExpr) : Prop :=
  ∀ name : Token, name.terminal = .ident → place.step? name = some (.named slot type name.ident)

/-- All formals of the header have been read, and a comma or parenthesis follows. -/
structure EndsFormals (place : Place) (header : Header) : Prop where
  comma : ∀ comma : Token, comma.terminal = .fixed .comma →
    place.step? comma = some (.inFormals header)
  close : ∀ closeParen : Token, closeParen.terminal = .fixed .closeParen →
    place.step? closeParen = some (.headed header)

/-- A name may start, for the seat. -/
def StartsName (place : Place) (seat : Seat) : Prop :=
  ∀ name : Token, name.terminal = .ident →
    place.step? name = some (.afterTarget seat (.name name.ident))

/-- An operand has been read. -/
def EndsOperand (place : Place) (pending : List Pending) (hole : Hole) (operand : Expr) : Prop :=
  ∀ token : Token, token.terminal ∈ Spot.operandEnds →
    place.step? token = valueStep? pending hole operand token

/-- The expression for the hole has been read. -/
def EndsExp (place : Place) (hole : Hole) (expr : Expr) : Prop :=
  ∀ token : Token, token.terminal ∈ [.fixed .closeParen, .fixed .comma, .fixed .semicolon] →
    place.step? token = hole.close? expr token

end Place

/-- The place after a variable for the slot. -/
def Slot.declare? (decl : Decl) : Slot → Option Place
  | top decls => some (.between (decl :: decls))
  | field before tag fields => some (.inStruct before tag (decl :: fields))
  | inner block => some (.inBlock (block.addDecl decl))
  | formal _ => none

namespace Block

def addDecls (more : List Decl) : Block → Block
  | function header decls stmts => function header (more.reverse ++ decls) stmts
  | nested opener outer decls stmts => nested opener outer (more.reverse ++ decls) stmts

def addStmts (more : List Stmt) (block : Block) : Block :=
  block.withStmts (more.reverse ++ block.stmts)

end Block

/-- The hole of a list of arguments, for any number of them. -/
def TakesArguments (hole : List Expr → Hole) : Prop :=
  ∀ (args : List Expr) (e : Expr) (comma : Token), comma.terminal = .fixed .comma →
    (hole args).close? e comma = some (.atOperand [] (hole (e :: args)))

/-- The words are read as an operand of the level: whatever is settled afterwards is the same as if
the expression itself had been the operand. -/
def RunsOperand (k : Nat) (ts : List Token) (e : Expr) : Prop :=
  ∀ pending hole, Ready k pending → ∃ place pending' operand,
    (Place.atOperand pending hole).run ts = some place ∧
      place.EndsOperand pending' hole operand ∧
      ∀ binding ≤ k, settle binding operand pending' = settle binding e pending

/-- The words are read as a whole expression. -/
def RunsExp (ts : List Token) (e : Expr) : Prop :=
  ∀ hole, ∃ place, (Place.atOperand [] hole).run ts = some place ∧ place.EndsExp hole e

/-- What a run over words derived from a nonterminal does. -/
def Nonterminal.Runs : (n : Nonterminal) → List Token → n.Value → Prop
  | .start, ts, program => (Place.between []).run ts = some (.between program.decls.reverse)
  | .decls, ts, ds => (Place.between []).run ts = some (.between ds.reverse)
  | .decl, ts, d | .structDecl, ts, d | .fnDecl, ts, d =>
    ∀ before, (Place.between before).run ts = some (.between (d :: before))
  | .varDecl, ts, d => ∀ (place : Place) (slot : Slot) (next : Place), place.StartsType slot →
    slot.declare? d = some next → place.run ts = some next
  | .fields, ts, ds => ∀ before tag,
    (Place.inStruct before tag []).run ts = some (.inStruct before tag ds.reverse)
  | .formals, ts, ds => ∀ before returns id, ∃ place,
    (Place.inFormals ⟨before, returns, id, []⟩).run ts = some place ∧
      place.EndsFormals ⟨before, returns, id, ds.reverse⟩
  | .formalDecl, ts, d => ∀ header : Header, ∃ place, (Place.inFormals header).run ts = some place ∧
    place.EndsFormals { header with formals := d :: header.formals }
  | .fnBody, ts, body => ∀ header, (Place.headed header).run ts =
    some (.between (header.close body.1.reverse body.2.reverse :: header.before))
  | .declList, ts, ds => ∀ block : Block, block.stmts = [] →
    (Place.inBlock block).run ts = some (.inBlock (block.addDecls ds))
  | .stmtList, ts, ss => ∀ block : Block,
    (Place.inBlock block).run ts = some (.inBlock (block.addStmts ss))
  | .type, ts, written => ∀ (place : Place) slot, place.StartsType slot → ∃ next : Place,
    place.run ts = some next ∧ next.EndsType slot written
  | .stmt, ts, s => ∀ block : Block,
    (Place.inBlock block).run ts = some (.inBlock (block.addStmt s))
  | .block, ts, body => ∀ (outer : Block) opener, (Place.opened outer opener).run ts =
    some (.inBlock (outer.addStmt (opener.close body.1.reverse body.2.reverse)))
  | .exp, ts, e => RunsOperand 0 ts e
  | .assignExp, ts, e => RunsOperand 0 ts e ∧ ∀ block : Block, ∃ place,
    (Place.inBlock block).run ts = some place ∧ ∀ semicolon : Token,
      semicolon.terminal = .fixed .semicolon →
      place.step? semicolon = some (.inBlock (block.addStmt (.assign e)))
  | .orExp, ts, e => RunsOperand 1 ts e
  | .andExp, ts, e => RunsOperand 2 ts e
  | .relExp, ts, e => RunsOperand 3 ts e
  | .addExp, ts, e => RunsOperand 4 ts e
  | .mulExp, ts, e => RunsOperand 5 ts e
  | .unaryExp, ts, e | .term, ts, e => RunsOperand 6 ts e
  | .fnCall, ts, e => (∀ pending hole,
      (Place.atOperand pending hole).run ts = some (.afterValue pending hole e)) ∧
    ∀ block, (Place.inBlock block).run ts = some (.called block e)
  | .actuals, ts, es => ∃ front last, es = front ++ [last] ∧ ∀ hole, TakesArguments hole →
    ∃ place, (Place.atOperand [] (hole [])).run ts = some place ∧
      place.EndsExp (hole front.reverse) last
  | .loc, ts, e => ∀ (place : Place) seat, place.StartsName seat →
    place.run ts = some (.afterTarget seat e)

/-! ## Places in front of a type or a name -/

theorem startsType_between (decls : List Decl) :
    (Place.between decls).StartsType (.top decls) :=
  fun _ _ => rfl

theorem startsType_inStruct (before : List Decl) (tag : Ident) (fields : List Decl) :
    (Place.inStruct before tag fields).StartsType (.field before tag fields) := by
  intro token ht
  simp only [Place.step?]
  split
  · next hc => rw [hc] at ht; contradiction
  · rfl

theorem startsType_inFormals (header : Header) :
    (Place.inFormals header).StartsType (.formal header) := by
  intro token ht
  simp only [Place.step?]
  split
  · next hc _ => rw [hc] at ht; contradiction
  · rfl

theorem startsType_inBlock {block : Block} (h : block.stmts = []) :
    (Place.inBlock block).StartsType (.inner block) := by
  intro token ht
  simp only [Spot.typeWords, List.mem_cons, List.not_mem_nil, or_false] at ht
  rcases ht with ht | ht | ht | ht <;>
    simp [Place.step?, Block.step?, Slot.typeStep?, ht, h, Fixed.isPrimitiveType]

theorem startsName_atOperand (pending : List Pending) (hole : Hole) :
    (Place.atOperand pending hole).StartsName (.operand pending hole) := by
  intro name hn
  exact Place.Steps.step?_eq (.operand (.name hn))

theorem startsName_inBlock (block : Block) : (Place.inBlock block).StartsName (.head block) := by
  intro name hn
  exact Place.Steps.step?_eq (.inBlock (.target hn))

theorem startsName_readArrow (block : Block) :
    (Place.readArrow block).StartsName (.read block) := by
  intro name hn
  exact Place.Steps.step?_eq (.readName hn)

/-! ## Pending work -/

theorem Ready.mono {j k : Nat} {pending : List Pending} (h : Ready j pending) (hjk : j ≤ k) :
    Ready k pending := by
  match pending, h with
  | [], _ => trivial
  | .assign _ :: _, _ => trivial
  | .binary _ _ _ :: _, h => exact Nat.lt_of_lt_of_le h hjk
  | .unary _ :: _, h => exact Nat.le_trans h hjk

/-- Pending work that may wait for an operand of a level has nothing to combine at that level. -/
theorem settle_ready {k : Nat} {pending : List Pending} (h : Ready k pending) (h0 : 0 < k)
    (h6 : k < 6) (e : Expr) : settle k e pending = (e, pending) := by
  match pending, h with
  | [], _ => rfl
  | .assign _ :: _, _ => simp [settle, Nat.ne_of_gt h0]
  | .binary own _ _ :: _, h =>
    have h : own < k := h
    simp [settle, Nat.not_le_of_lt h]
  | .unary _ :: _, h => exact absurd h (Nat.not_le_of_lt h6)

/-- An operator joins pending work that is ready for its level. -/
theorem pendOperator?_ready {binding : Nat} {op : String} {operand left : Expr}
    {pending pending' : List Pending} (h : Ready binding pending) (h0 : 0 < binding)
    (h6 : binding < 6)
    (hs : ∀ b ≤ leftLevel binding, settle b operand pending' = settle b left pending) :
    pendOperator? binding op operand pending' = some (.binary binding op left :: pending) := by
  by_cases h3 : binding = 3
  · subst h3
    have hs4 : settle 4 operand pending' = (left, pending) := by
      rw [hs 4 (Nat.le_refl 4), settle_ready (h.mono (by decide)) (by decide) (by decide)]
    simp only [pendOperator?, if_true, hs4]
    split
    · next heq =>
      cases heq
      exact absurd h (Nat.lt_irrefl 3)
    · next heq => cases heq; rfl
  · have hsb : settle binding operand pending' = (left, pending) := by
      rw [hs binding (by simp [leftLevel, h3]), settle_ready h h0 h6]
    simp [pendOperator?, h3, hsb]

/-! ## Operands -/

variable {ts us : List Token} {token : Token} {e : Expr}

theorem RunsOperand.loosen {k : Nat} (h : RunsOperand (k + 1) ts e) : RunsOperand k ts e := by
  intro pending hole hr
  obtain ⟨place, pending', operand, hrun, hend, hs⟩ := h pending hole (hr.mono (Nat.le_succ k))
  exact ⟨place, pending', operand, hrun, hend, fun b hb => hs b (Nat.le_succ_of_le hb)⟩

theorem mem_operandEnds {word : Fixed} {binding : Nat} (h : word.binding? = some binding) :
    .fixed word ∈ Spot.operandEnds := by
  cases word <;> first | decide | cases h

theorem binding_bounds {word : Fixed} {binding : Nat} (h : word.binding? = some binding) :
    0 < binding ∧ binding < 6 := by
  cases word <;> cases h <;> decide

theorem RunsOperand.operator {word : Fixed} {binding : Nat} {l r : Expr}
    (hw : word.binding? = some binding) (hl : RunsOperand (leftLevel binding) ts l)
    (ht : token.terminal = .fixed word) (hr : RunsOperand (binding + 1) us r) :
    RunsOperand binding (ts ++ token :: us) (.binary word.spelling l r) := by
  intro pending hole hready
  obtain ⟨h0, h6⟩ := binding_bounds hw
  have hle : binding ≤ leftLevel binding := by unfold leftLevel; split <;> omega
  obtain ⟨place, pending₁, operand, hrun, hend, hs⟩ := hl pending hole (hready.mono hle)
  have hstep : place.step? token =
      some (.atOperand (.binary binding word.spelling l :: pending) hole) := by
    rw [hend token (ht ▸ mem_operandEnds hw)]
    simp [valueStep?, ht, hw, pendOperator?_ready hready h0 h6 hs]
  obtain ⟨place', pending₂, operand', hrun', hend', hs'⟩ :=
    hr (.binary binding word.spelling l :: pending) hole (Nat.lt_succ_self binding)
  refine ⟨place', pending₂, operand', ?_, hend', fun b hb => ?_⟩
  · rw [Place.run_append hrun, Place.run_cons hstep, hrun']
  · rw [hs' b (Nat.le_succ_of_le hb)]
    simp [settle, hb]

theorem RunsOperand.sign {op : Fixed} (ho : op ∈ [Fixed.minus, .not])
    (ht : token.terminal = .fixed op) (h : RunsOperand 6 ts e) :
    RunsOperand 6 (token :: ts) (.unary op.spelling e) := by
  intro pending hole _
  have hstep : (Place.atOperand pending hole).step? token =
      some (.atOperand (.unary op.spelling :: pending) hole) :=
    Place.Steps.step?_eq (.operand (.sign ho ht))
  obtain ⟨place, pending', operand, hrun, hend, hs⟩ :=
    h (.unary op.spelling :: pending) hole (Nat.le_refl 6)
  refine ⟨place, pending', operand, ?_, hend, fun b hb => ?_⟩
  · rw [Place.run_cons hstep, hrun]
  · rw [hs b hb, settle]

/-- What leaves an operand that is no target. -/
theorem RunsOperand.value (h : ∀ pending hole,
    (Place.atOperand pending hole).run ts = some (.afterValue pending hole e)) :
    RunsOperand 6 ts e :=
  fun pending hole _ => ⟨_, pending, e, h pending hole, fun _ _ => rfl, fun _ _ => rfl⟩

/-- A literal is one word. -/
theorem RunsOperand.literal (h : ∀ pending hole,
    (Place.atOperand pending hole).step? token = some (.afterValue pending hole e)) :
    RunsOperand 6 [token] e :=
  .value fun pending hole => by
    rw [Place.run_cons (h pending hole), Place.run_nil]

theorem endsOperand_afterTarget (pending : List Pending) (hole : Hole) (target : Expr) :
    (Place.afterTarget (.operand pending hole) target).EndsOperand pending hole target := by
  intro token ht
  simp only [Place.step?, Seat.step?]
  split
  · next hd => rw [hd] at ht; contradiction
  · split
    · next hb => rw [hb] at ht; contradiction
    · next ho => rw [ho] at ht; contradiction
    · rfl

theorem RunsOperand.target (h : Nonterminal.loc.Runs ts e) : RunsOperand 6 ts e :=
  fun pending hole _ => ⟨_, pending, e, h _ _ (startsName_atOperand pending hole),
    endsOperand_afterTarget pending hole e, fun _ _ => rfl⟩

/-- An assignment waits for its value. -/
theorem RunsOperand.assign {target value : Expr} (hl : Nonterminal.loc.Runs ts target)
    (ht : token.terminal = .fixed .becomes) (hv : RunsOperand 0 us value) :
    RunsOperand 0 (ts ++ token :: us) (.assign target value) := by
  intro pending hole hready
  have honly : onlyAssigns pending = true := by
    match pending, hready with
    | [], _ => rfl
    | .assign _ :: _, _ => rfl
    | .unary _ :: _, h => exact absurd h (Nat.not_succ_le_zero 5)
  have hstep : (Place.afterTarget (.operand pending hole) target).step? token =
      some (.atOperand (.assign target :: pending) hole) :=
    Place.Steps.step?_eq (.target (.assign honly ht))
  obtain ⟨place, pending', operand, hrun, hend, hs⟩ := hv (.assign target :: pending) hole trivial
  refine ⟨place, pending', operand, ?_, hend, fun b hb => ?_⟩
  · rw [Place.run_append (hl _ _ (startsName_atOperand pending hole)), Place.run_cons hstep, hrun]
  · obtain rfl := Nat.le_zero.1 hb
    rw [hs 0 hb, settle, if_pos rfl]

/-- An operand where an expression ends, with what was pending. -/
theorem Place.EndsOperand.exp {place : Place} {pending : List Pending} {hole : Hole}
    {operand : Expr} (h : place.EndsOperand pending hole operand) :
    place.EndsExp hole (settleAll operand pending) := by
  intro token ht
  simp only [List.mem_cons, List.not_mem_nil, or_false] at ht
  rcases ht with ht | ht | ht <;>
    rw [h token (by rw [ht]; decide), valueStep?, ht] <;> simp [Fixed.binding?]

/-- An operand with nothing pending in front of it is a whole expression where one ends. -/
theorem RunsOperand.exp (h : RunsOperand 0 ts e) : RunsExp ts e := by
  intro hole
  obtain ⟨place, pending, operand, hrun, hend, hs⟩ := h [] hole trivial
  have hall : settleAll operand pending = e := by
    rw [settleAll, hs 0 (Nat.le_refl 0)]
    rfl
  exact ⟨place, hrun, hall ▸ hend.exp⟩

theorem RunsOperand.group {openParen closeParen : Token}
    (ho : openParen.terminal = .fixed .openParen) (h : RunsExp ts e)
    (hc : closeParen.terminal = .fixed .closeParen) :
    RunsOperand 6 (openParen :: ts ++ [closeParen]) e := by
  refine .value fun pending hole => ?_
  have hstep : (Place.atOperand pending hole).step? openParen =
      some (.atOperand [] (.group pending hole)) :=
    Place.Steps.step?_eq (.operand (.group ho))
  obtain ⟨place, hrun, hend⟩ := h (.group pending hole)
  rw [List.cons_append, Place.run_cons hstep, Place.run_snoc hrun, hend _ (by simp [hc])]
  simp [Hole.close?, hc]

/-! ## Calls -/

theorem takesArguments_argument (callee : Ident) (pending : List Pending) (outer : Hole) :
    TakesArguments (Hole.argument callee · pending outer) := by
  intro args e comma hc
  simp [Hole.close?, hc]

theorem takesArguments_argumentOfCall (block : Block) (callee : Ident) :
    TakesArguments (Hole.argumentOfCall block callee) := by
  intro args e comma hc
  simp [Hole.close?, hc]

theorem runs_oneActual (h : RunsExp ts e) : Nonterminal.actuals.Runs ts [e] := by
  refine ⟨[], e, rfl, fun hole _ => ?_⟩
  exact h (hole [])

theorem runs_moreActuals {es : List Expr} {comma : Token} (hes : Nonterminal.actuals.Runs ts es)
    (hc : comma.terminal = .fixed .comma) (he : RunsExp us e) :
    Nonterminal.actuals.Runs (ts ++ comma :: us) (es ++ [e]) := by
  obtain ⟨front, last, rfl, hes⟩ := hes
  refine ⟨front ++ [last], e, rfl, fun hole hh => ?_⟩
  obtain ⟨place, hrun, hend⟩ := hes hole hh
  obtain ⟨place', hrun', hend'⟩ := he (hole (last :: front.reverse))
  have hstep : place.step? comma = some (.atOperand [] (hole (last :: front.reverse))) := by
    rw [hend comma (by simp [hc]), hh _ _ _ hc]
  refine ⟨place', ?_, by simpa using hend'⟩
  rw [Place.run_append hrun, Place.run_cons hstep, hrun']

theorem runs_fnCall {name openParen closeParen : Token} {args : List Expr}
    (hn : name.terminal = .ident) (ho : openParen.terminal = .fixed .openParen)
    (hargs : Nonterminal.actuals.Runs ts args) (hc : closeParen.terminal = .fixed .closeParen) :
    Nonterminal.fnCall.Runs (name :: openParen :: ts ++ [closeParen]) (.call name.ident args) := by
  obtain ⟨front, last, rfl, hargs⟩ := hargs
  constructor
  · intro pending hole
    have hopen : (Place.afterTarget (.operand pending hole) (.name name.ident)).step? openParen =
        some (.atOperand [] (.argument name.ident [] pending hole)) :=
      Place.Steps.step?_eq (.target (.call rfl ho))
    obtain ⟨place, hrun, hend⟩ := hargs _ (takesArguments_argument name.ident pending hole)
    rw [List.cons_append, List.cons_append, Place.run_cons (startsName_atOperand _ _ _ hn),
      Place.run_cons hopen, Place.run_snoc hrun, hend _ (by simp [hc])]
    simp [Hole.close?, hc]
  · intro block
    have hopen : (Place.afterTarget (.head block) (.name name.ident)).step? openParen =
        some (.atOperand [] (.argumentOfCall block name.ident [])) :=
      Place.Steps.step?_eq (.target (.callStmt rfl ho))
    obtain ⟨place, hrun, hend⟩ := hargs _ (takesArguments_argumentOfCall block name.ident)
    rw [List.cons_append, List.cons_append, Place.run_cons (startsName_inBlock _ _ hn),
      Place.run_cons hopen, Place.run_snoc hrun, hend _ (by simp [hc])]
    simp [Hole.close?, hc]

theorem runs_fnCallNoActuals {name openParen closeParen : Token} (hn : name.terminal = .ident)
    (ho : openParen.terminal = .fixed .openParen) (hc : closeParen.terminal = .fixed .closeParen) :
    Nonterminal.fnCall.Runs [name, openParen, closeParen] (.call name.ident []) := by
  constructor <;> intros <;>
    simp [Place.run, Place.step?, operandStep?, Block.step?, Seat.step?, Hole.closeEmpty?, hn, ho,
      hc]

/-! ## Blocks -/

namespace Block

variable (block : Block)

@[simp]
theorem addDecls_nil : block.addDecls [] = block := by
  cases block <;> rfl

@[simp]
theorem addDecls_snoc (decls : List Decl) (d : Decl) :
    block.addDecls (decls ++ [d]) = (block.addDecls decls).addDecl d := by
  cases block <;> simp [addDecls, addDecl]

@[simp]
theorem addDecls_stmts (decls : List Decl) : (block.addDecls decls).stmts = block.stmts := by
  cases block <;> rfl

@[simp]
theorem addStmts_nil : block.addStmts [] = block := by
  cases block <;> rfl

@[simp]
theorem addStmts_snoc (stmts : List Stmt) (s : Stmt) :
    block.addStmts (stmts ++ [s]) = (block.addStmts stmts).addStmt s := by
  cases block <;> simp [addStmts, addStmt, withStmts, Block.stmts]

theorem addStmts_cons (s : Stmt) (stmts : List Stmt) :
    block.addStmts (s :: stmts) = (block.addStmt s).addStmts stmts := by
  cases block <;> simp [addStmts, addStmt, withStmts, Block.stmts]

@[simp]
theorem reopenIf?_addStmt (condition : Expr) (decls : List Decl) (stmts : List Stmt) :
    (block.addStmt (.ifThen condition decls stmts)).reopenIf? =
      some (block, .ifElse condition decls stmts) := by
  cases block <;> rfl

end Block

/-- A block that is entered, filled and closed. -/
theorem run_body {openBrace closeBrace : Token} {decls : List Decl} {stmts : List Stmt}
    {place : Place} (block : Block) (hd : Nonterminal.declList.Runs ts decls)
    (hs : Nonterminal.stmtList.Runs us stmts) (hc : closeBrace.terminal = .fixed .closeBrace)
    (ho : place.step? openBrace = some (.inBlock block)) (hn : block.stmts = []) :
    place.run (openBrace :: ts ++ us ++ [closeBrace]) =
      some ((block.addDecls decls).addStmts stmts).close := by
  rw [List.cons_append, List.cons_append, Place.run_cons ho, List.append_assoc,
    Place.run_append (hd block hn), Place.run_snoc (hs _)]
  exact Place.Steps.step?_eq (.inBlock (.close hc))

/-! ## Declarations -/

variable {name : Token} {type : TypeExpr}

theorem endsType_typed (slot : Slot) (type : TypeExpr) :
    (Place.typed slot type).EndsType slot type := by
  intro name hn
  exact Place.Steps.step?_eq (.name hn)

theorem endsType_tagged (decls : List Decl) (tag : Ident) :
    (Place.tagged decls tag).EndsType (.top decls) (.struct tag) := by
  intro name hn
  exact Place.Steps.step?_eq (.taggedName hn)

theorem runs_primitiveType {word : Fixed} (hw : word ∈ [Fixed.int, .bool, .void])
    (ht : token.terminal = .fixed word) :
    Nonterminal.type.Runs [token] (.primitive word.spelling) := by
  intro place slot hp
  refine ⟨.typed slot (.primitive word.spelling), ?_, endsType_typed slot _⟩
  simp only [List.mem_cons, List.not_mem_nil, or_false] at hw
  rcases hw with rfl | rfl | rfl <;>
    simp [Place.run, hp token (by rw [ht]; decide), Slot.typeStep?, ht, Fixed.isPrimitiveType]

theorem runs_structType {word tag : Token} (hw : word.terminal = .fixed .struct)
    (ht : tag.terminal = .ident) : Nonterminal.type.Runs [word, tag] (.struct tag.ident) := by
  intro place slot hp
  have hword : place.step? word = some (.structWord slot) := by
    rw [hp word (by rw [hw]; decide)]
    simp [Slot.typeStep?, hw]
  -- at top level a struct may be declared as well, so its tag leads elsewhere
  cases slot with
  | top decls =>
    refine ⟨.tagged decls tag.ident, ?_, endsType_tagged decls _⟩
    rw [Place.run_cons hword]
    simp [Place.run, Place.step?, ht]
  | field | formal | inner =>
    refine ⟨.typed _ (.struct tag.ident), ?_, endsType_typed _ _⟩
    rw [Place.run_cons hword]
    simp [Place.run, Place.step?, ht]

theorem runs_varDecl {semicolon : Token} (h : Nonterminal.type.Runs ts type)
    (hn : name.terminal = .ident) (hs : semicolon.terminal = .fixed .semicolon) :
    Nonterminal.varDecl.Runs (ts ++ [name, semicolon]) (.var type name.ident) := by
  intro place slot next hp hd
  obtain ⟨middle, hrun, hend⟩ := h place slot hp
  rw [Place.run_append hrun, Place.run_cons (hend name hn), ← hd]
  cases slot with
  | formal => cases hd
  | top | field | inner => simp [Place.run, Place.step?, Slot.step?, Slot.declare?, hs]

theorem Derives.fields_ne_nil {ts : List Token} : ¬ Derives .fields ts [] := by
  generalize hs : ([] : List Decl) = ds
  intro h
  cases h with
  | oneField => cases hs
  | moreFields => simp at hs

theorem runs_structDecl {word tag openBrace closeBrace semicolon : Token} {fields : List Decl}
    (hw : word.terminal = .fixed .struct) (ht : tag.terminal = .ident)
    (ho : openBrace.terminal = .fixed .openBrace) (h : Nonterminal.fields.Runs ts fields)
    (hne : fields ≠ []) (hc : closeBrace.terminal = .fixed .closeBrace)
    (hs : semicolon.terminal = .fixed .semicolon) :
    Nonterminal.structDecl.Runs (word :: tag :: openBrace :: ts ++ [closeBrace, semicolon])
      (.struct tag.ident fields) := by
  intro before
  have hstart : (Place.between before).run [word, tag, openBrace] =
      some (.inStruct before tag.ident []) := by
    simp [Place.run, Place.step?, Slot.typeStep?, hw, ht, ho]
  have hclose : (Place.inStruct before tag.ident fields.reverse).run [closeBrace, semicolon] =
      some (.between (.struct tag.ident fields :: before)) := by
    obtain ⟨d, ds, hds⟩ := List.exists_cons_of_ne_nil (List.reverse_ne_nil_iff.2 hne)
    rw [← List.reverse_reverse fields, hds, List.reverse_reverse]
    simp [Place.run, Place.step?, hc, hs]
  show Place.run _ ([word, tag, openBrace] ++ ts ++ [closeBrace, semicolon]) = _
  rw [List.append_assoc, Place.run_append hstart, Place.run_append (h before tag.ident), hclose]

theorem runs_formalDecl (h : Nonterminal.type.Runs ts type) (hn : name.terminal = .ident) :
    Nonterminal.formalDecl.Runs (ts ++ [name]) (.formal type name.ident) := by
  intro header
  obtain ⟨place, hrun, hend⟩ := h _ _ (startsType_inFormals header)
  refine ⟨.named (.formal header) type name.ident, ?_, fun comma hc => ?_, fun closeParen hc => ?_⟩
  · rw [Place.run_snoc hrun, hend _ hn]
  · exact Place.Steps.step?_eq (.named (.nextFormal hc))
  · exact Place.Steps.step?_eq (.named (.lastFormal hc))

/-- The type, name and parenthesis of a function's head. -/
theorem run_head {openParen : Token} (before : List Decl) (h : Nonterminal.type.Runs ts type)
    (hn : name.terminal = .ident) (ho : openParen.terminal = .fixed .openParen) :
    (Place.between before).run (ts ++ name :: openParen :: us) =
      (Place.inFormals ⟨before, type, name.ident, []⟩).run us := by
  obtain ⟨place, hrun, hend⟩ := h _ _ (startsType_between before)
  rw [Place.run_append hrun, Place.run_cons (hend name hn), Place.run_cons]
  exact Place.Steps.step?_eq (.named (.function ho))

theorem runs_fnDecl {openParen closeParen : Token} {vs : List Token} {formals : List Decl}
    {body : List Decl × List Stmt} (h : Nonterminal.type.Runs ts type) (hn : name.terminal = .ident)
    (ho : openParen.terminal = .fixed .openParen) (hfs : Nonterminal.formals.Runs us formals)
    (hc : closeParen.terminal = .fixed .closeParen) (hb : Nonterminal.fnBody.Runs vs body) :
    Nonterminal.fnDecl.Runs (ts ++ name :: openParen :: us ++ closeParen :: vs)
      (.function type name.ident formals body.1 body.2) := by
  intro before
  obtain ⟨place, hrun, hend⟩ := hfs before type name.ident
  rw [List.append_assoc, List.cons_append, List.cons_append, run_head before h hn ho,
    Place.run_append hrun, Place.run_cons (hend.close _ hc), hb]
  simp [Header.close]

theorem runs_fnDeclNoFormals {openParen closeParen : Token} {vs : List Token}
    {body : List Decl × List Stmt} (h : Nonterminal.type.Runs ts type) (hn : name.terminal = .ident)
    (ho : openParen.terminal = .fixed .openParen) (hc : closeParen.terminal = .fixed .closeParen)
    (hb : Nonterminal.fnBody.Runs vs body) :
    Nonterminal.fnDecl.Runs (ts ++ name :: openParen :: closeParen :: vs)
      (.function type name.ident [] body.1 body.2) := by
  intro before
  have hclose : (Place.inFormals ⟨before, type, name.ident, []⟩).step? closeParen =
      some (.headed ⟨before, type, name.ident, []⟩) :=
    Place.Steps.step?_eq (.noFormals rfl hc)
  rw [run_head before h hn ho, Place.run_cons hclose, hb]
  simp [Header.close]

/-! ## Statements -/

variable {semicolon : Token}

theorem runs_assignExp {becomes : Token} {target value : Expr}
    (ht : Nonterminal.loc.Runs ts target) (hb : becomes.terminal = .fixed .becomes)
    (hv : RunsOperand 0 us value) :
    Nonterminal.assignExp.Runs (ts ++ becomes :: us) (.assign target value) := by
  refine ⟨.assign ht hb hv, fun block => ?_⟩
  have hstep : (Place.afterTarget (.head block) target).step? becomes =
      some (.atOperand [] (.assigned block target)) :=
    Place.Steps.step?_eq (.target (.assignment hb))
  obtain ⟨place, hrun, hend⟩ := hv.exp (.assigned block target)
  refine ⟨place, ?_, fun semicolon hs => ?_⟩
  · rw [Place.run_append (ht _ _ (startsName_inBlock block)), Place.run_cons hstep, hrun]
  · rw [hend _ (by simp [hs])]
    simp [Hole.close?, hs]

/-- A statement that starts with a target and goes on with `++` or `--`. -/
theorem runs_count {op : Token} {stmt : Stmt} (h : Nonterminal.loc.Runs ts e)
    (ho : ∀ block, (Place.afterTarget (.head block) e).step? op = some (.counted block stmt))
    (hs : semicolon.terminal = .fixed .semicolon) :
    Nonterminal.stmt.Runs (ts ++ [op, semicolon]) stmt := by
  intro block
  rw [Place.run_append (h _ _ (startsName_inBlock block)), Place.run_cons (ho block)]
  simp [Place.run, Place.step?, hs]

theorem runs_readStmt {word arrow : Token} (hw : word.terminal = .fixed .cin)
    (ha : arrow.terminal = .fixed .readArrow) (h : Nonterminal.loc.Runs ts e)
    (hs : semicolon.terminal = .fixed .semicolon) :
    Nonterminal.stmt.Runs (word :: arrow :: ts ++ [semicolon]) (.read e) := by
  intro block
  have hstart : (Place.inBlock block).run [word, arrow] = some (.readArrow block) := by
    simp [Place.run, Place.step?, Block.step?, hw, ha]
  show Place.run _ ([word, arrow] ++ ts ++ [semicolon]) = _
  rw [List.append_assoc, Place.run_append hstart,
    Place.run_snoc (h _ _ (startsName_readArrow block))]
  exact Place.Steps.step?_eq (.target (.read hs))

/-- A statement of some words, an expression and one last word. -/
theorem run_expThen {front : List Token} {hole : Hole} {block : Block} {last : Token}
    {next : Place} (hfront : (Place.inBlock block).run front = some (.atOperand [] hole))
    (h : RunsExp ts e) (hc : hole.close? e last = some next)
    (hl : last.terminal ∈ [.fixed .closeParen, .fixed .comma, .fixed .semicolon]) :
    (Place.inBlock block).run (front ++ ts ++ last :: us) = next.run us := by
  obtain ⟨place, hrun, hend⟩ := h hole
  rw [List.append_assoc, Place.run_append hfront, Place.run_append hrun,
    Place.run_cons ((hend last hl).trans hc)]

theorem runs_writeStmt {word arrow : Token} (hw : word.terminal = .fixed .cout)
    (ha : arrow.terminal = .fixed .writeArrow) (h : RunsExp ts e)
    (hs : semicolon.terminal = .fixed .semicolon) :
    Nonterminal.stmt.Runs (word :: arrow :: ts ++ [semicolon]) (.write e) := by
  intro block
  have hstart : (Place.inBlock block).run [word, arrow] =
      some (.atOperand [] (.written block)) := by
    simp [Place.run, Place.step?, Block.step?, hw, ha]
  exact run_expThen hstart h (by simp [Hole.close?, hs]) (by simp [hs])

theorem runs_returnValueStmt {word : Token} (hw : word.terminal = .fixed .returnWord)
    (h : RunsExp ts e) (hs : semicolon.terminal = .fixed .semicolon) :
    Nonterminal.stmt.Runs (word :: ts ++ [semicolon]) (.returnValue e) := by
  intro block
  have hstart : (Place.inBlock block).run [word] = some (.atOperand [] (.returned block)) := by
    simp [Place.run, Place.step?, Block.step?, hw]
  exact run_expThen hstart h (by simp [Hole.close?, hs]) (by simp [hs])

variable {word openParen closeParen : Token} {body : List Decl × List Stmt}

/-- The condition of an `if`. -/
theorem run_ifCondition (block : Block) (hw : word.terminal = .fixed .ifWord)
    (ho : openParen.terminal = .fixed .openParen) (h : RunsExp ts e)
    (hc : closeParen.terminal = .fixed .closeParen) :
    (Place.inBlock block).run (word :: openParen :: ts ++ closeParen :: us) =
      (Place.opened block (.ifThen e)).run us := by
  have hstart : (Place.inBlock block).run [word, openParen] =
      some (.atOperand [] (.ifCondition block)) := by
    simp [Place.run, Place.step?, Block.step?, hw, ho]
  exact run_expThen hstart h (by simp [Hole.close?, hc]) (by simp [hc])

theorem runs_ifStmt (hw : word.terminal = .fixed .ifWord)
    (ho : openParen.terminal = .fixed .openParen) (h : RunsExp ts e)
    (hc : closeParen.terminal = .fixed .closeParen) (hb : Nonterminal.block.Runs us body) :
    Nonterminal.stmt.Runs (word :: openParen :: ts ++ closeParen :: us)
      (.ifThen e body.1 body.2) := by
  intro block
  rw [run_ifCondition block hw ho h hc, hb]
  simp [Opener.close]

theorem runs_ifElseStmt {elseWord : Token} {vs : List Token} {elseBody : List Decl × List Stmt}
    (hw : word.terminal = .fixed .ifWord) (ho : openParen.terminal = .fixed .openParen)
    (h : RunsExp ts e) (hc : closeParen.terminal = .fixed .closeParen)
    (hb : Nonterminal.block.Runs us body) (hel : elseWord.terminal = .fixed .elseWord)
    (hb' : Nonterminal.block.Runs vs elseBody) :
    Nonterminal.stmt.Runs (word :: openParen :: ts ++ closeParen :: us ++ elseWord :: vs)
      (.ifElse e body.1 body.2 elseBody.1 elseBody.2) := by
  intro block
  have helse : (Place.inBlock (block.addStmt (.ifThen e body.1 body.2))).step? elseWord =
      some (.opened block (.ifElse e body.1 body.2)) := by
    simp [Place.step?, Block.step?, hel]
  rw [Place.run_append (runs_ifStmt hw ho h hc hb block), Place.run_cons helse, hb']
  simp [Opener.close]

theorem runs_whileStmt (hw : word.terminal = .fixed .whileWord)
    (ho : openParen.terminal = .fixed .openParen) (h : RunsExp ts e)
    (hc : closeParen.terminal = .fixed .closeParen) (hb : Nonterminal.block.Runs us body) :
    Nonterminal.stmt.Runs (word :: openParen :: ts ++ closeParen :: us)
      (.loop e body.1 body.2) := by
  intro block
  have hstart : (Place.inBlock block).run [word, openParen] =
      some (.atOperand [] (.loopCondition block)) := by
    simp [Place.run, Place.step?, Block.step?, hw, ho]
  have hclose : (Hole.loopCondition block).close? e closeParen =
      some (.opened block (.loop e)) := by
    simp [Hole.close?, hc]
  show Place.run _ ([word, openParen] ++ ts ++ closeParen :: us) = _
  rw [run_expThen hstart h hclose (by simp [hc]), hb]
  simp [Opener.close]

/-! ## Every nonterminal -/

/-- Words derived from a nonterminal run as it says. -/
theorem Derives.runs {n : Nonterminal} {tokens : List Token} {value : n.Value}
    (h : Derives n tokens value) : n.Runs tokens value := by
  induction h with
  | start _ ih => exact ih
  | noDecls => rfl
  | moreDecls _ _ ihds ihd =>
    show Place.run _ _ = _
    rw [Place.run_append ihds, ihd, List.reverse_append]
    rfl
  | varDeclIsDecl _ ih => exact fun before => ih _ _ _ (startsType_between before) rfl
  | fnDeclIsDecl _ ih => exact ih
  | structDeclIsDecl _ ih => exact ih
  | varDecl _ hn hs iht => exact runs_varDecl iht hn hs
  | structDecl hw ht ho hfs hc hs ih =>
    exact runs_structDecl hw ht ho ih (by rintro rfl; exact Derives.fields_ne_nil hfs) hc hs
  | oneField _ ih => exact fun before tag => ih _ _ _ (startsType_inStruct before tag []) rfl
  | moreFields _ _ ihds ihd =>
    intro before tag
    rw [Place.run_append (ihds before tag), ihd _ _ _ (startsType_inStruct before tag _) rfl,
      List.reverse_append]
    rfl
  | fnDecl _ hn ho _ hc _ iht ihfs ihb => exact runs_fnDecl iht hn ho ihfs hc ihb
  | fnDeclNoFormals _ hn ho hc _ iht ihb => exact runs_fnDeclNoFormals iht hn ho hc ihb
  | oneFormal _ ih => exact fun before returns id => ih ⟨before, returns, id, []⟩
  | moreFormals _ hc _ ihds ihd =>
    intro before returns id
    obtain ⟨place, hrun, hend⟩ := ihds before returns id
    obtain ⟨place', hrun', hend'⟩ := ihd ⟨before, returns, id, _⟩
    refine ⟨place', ?_, by simpa using hend'⟩
    rw [Place.run_append hrun, Place.run_cons (hend.comma _ hc), hrun']
  | formalDecl _ hn iht => exact runs_formalDecl iht hn
  | fnBody ho _ _ hc ihds ihss =>
    intro header
    rw [run_body (.function header [] []) ihds ihss hc (Place.Steps.body ho).step?_eq rfl]
    simp [Block.addDecls, Block.addStmts, Block.withStmts, Block.stmts, Block.close]
  | noLocals => exact fun block _ => by simp
  | @moreLocals _ _ ds d _ _ ihds ihd =>
    intro block hn
    have hn' : (block.addDecls ds).stmts = [] := (block.addDecls_stmts ds).trans hn
    rw [Place.run_append (ihds block hn), ihd _ _ _ (startsType_inBlock hn') rfl,
      Block.addDecls_snoc]
  | noStmts => exact fun block => by simp
  | moreStmts _ _ ihss ihs =>
    intro block
    rw [Place.run_append (ihss block), ihs, Block.addStmts_snoc]
  | primitiveType hw ht => exact runs_primitiveType hw ht
  | structType hw ht => exact runs_structType hw ht
  | assignStmt _ hs ih =>
    intro block
    obtain ⟨place, hrun, hend⟩ := ih.2 block
    rw [Place.run_snoc hrun, hend _ hs]
  | postIncStmt _ ho hs ih =>
    exact runs_count ih (fun _ => Place.Steps.step?_eq (.target (.increment ho))) hs
  | postDecStmt _ ho hs ih =>
    exact runs_count ih (fun _ => Place.Steps.step?_eq (.target (.decrement ho))) hs
  | readStmt hw ha _ hs ih => exact runs_readStmt hw ha ih hs
  | writeStmt hw ha _ hs ih => exact runs_writeStmt hw ha ih.exp hs
  | ifStmt hw ho _ hc _ ihe ihb => exact runs_ifStmt hw ho ihe.exp hc ihb
  | ifElseStmt hw ho _ hc _ hel _ ihe iht ihf =>
    exact runs_ifElseStmt hw ho ihe.exp hc iht hel ihf
  | whileStmt hw ho _ hc _ ihe ihb => exact runs_whileStmt hw ho ihe.exp hc ihb
  | callStmt _ hs ih =>
    intro block
    rw [Place.run_snoc (ih.2 block)]
    exact Place.Steps.step?_eq (.called hs)
  | returnStmt hw hs =>
    intro block
    simp [Place.run, Place.step?, Block.step?, operandStep?, Hole.closeEmpty?, hw, hs]
  | returnValueStmt hw _ hs ih => exact runs_returnValueStmt hw ih.exp hs
  | block ho _ _ hc ihds ihss =>
    intro outer opener
    rw [run_body (.nested opener outer [] []) ihds ihss hc (Place.Steps.enter ho).step?_eq rfl]
    simp [Block.addDecls, Block.addStmts, Block.withStmts, Block.stmts, Block.close]
  | assignIsExp _ ih => exact ih.1
  | orIsExp _ ih => exact ih.loosen
  | assignExp _ hb _ iht ihv => exact runs_assignExp iht hb ihv
  | andIsOr _ ih => exact ih.loosen
  | orOp _ ht _ ihl ihr => exact .operator rfl ihl ht ihr
  | relIsAnd _ ih => exact ih.loosen
  | andOp _ ht _ ihl ihr => exact .operator rfl ihl ht ihr
  | addIsRel _ ih => exact ih.loosen
  | relOp ho _ ht _ ihl ihr =>
    refine .operator ?_ ihl ht ihr
    simp only [List.mem_cons, List.not_mem_nil, or_false] at ho
    rcases ho with rfl | rfl | rfl | rfl | rfl | rfl <;> rfl
  | mulIsAdd _ ih => exact ih.loosen
  | addOp ho _ ht _ ihl ihr =>
    refine .operator ?_ ihl ht ihr
    simp only [List.mem_cons, List.not_mem_nil, or_false] at ho
    rcases ho with rfl | rfl <;> rfl
  | unaryIsMul _ ih => exact ih.loosen
  | mulOp ho _ ht _ ihl ihr =>
    refine .operator ?_ ihl ht ihr
    simp only [List.mem_cons, List.not_mem_nil, or_false] at ho
    rcases ho with rfl | rfl <;> rfl
  | termIsUnary _ ih => exact ih
  | unaryOp ho ht _ ih => exact .sign ho ht ih
  | locIsTerm _ ih => exact .target ih
  | intLit ht => exact .literal fun _ _ => Place.Steps.step?_eq (.operand (.number ht))
  | strLit ht => exact .literal fun _ _ => Place.Steps.step?_eq (.operand (.text ht))
  | trueLit ht => exact .literal fun _ _ => Place.Steps.step?_eq (.operand (.trueWord ht))
  | falseLit ht => exact .literal fun _ _ => Place.Steps.step?_eq (.operand (.falseWord ht))
  | group ho _ hc ih => exact .group ho ih.exp hc
  | callIsTerm _ ih => exact .value ih.1
  | fnCall hn ho _ hc ih => exact runs_fnCall hn ho ih hc
  | fnCallNoActuals hn ho hc => exact runs_fnCallNoActuals hn ho hc
  | oneActual _ ih => exact runs_oneActual ih.exp
  | moreActuals _ hc _ ihes ihe => exact runs_moreActuals ihes hc ihe.exp
  | idRef hn =>
    intro place seat hp
    rw [Place.run_cons (hp _ hn), Place.run_nil]
  | dotAccess _ hd hn ih =>
    intro place seat hp
    rw [Place.run_append (ih place seat hp)]
    simp [Place.run, Place.step?, hd, hn]

end Moo
