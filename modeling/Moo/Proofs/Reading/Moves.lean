import Moo.Proofs.Reading.Words
import Moo.Proofs.Tree.Relabel

/-!
# The reader does not look at locations

Words that are moved to other locations take the reader the same way, to
places whose trees are moved along with them. So where the words of a text
stand has no part in how it is read.

* `Place.relabel`: other labels in everything that a place holds.
* `Place.Steps.move`: a step with a word that was moved.
* `Place.Leads.move`: the same for the words of a whole text.
-/
namespace Moo

/-- Moves all locations, and leaves symbols alone. -/
def Relabel.move (f : Loc → Loc) : Relabel := ⟨Option.map f, id⟩

def Token.move (f : Loc → Loc) (token : Token) : Token :=
  { token with loc := f token.loc }

/-! ## Places with other labels -/

section Relabel

variable (r : Relabel)

def Header.relabel (header : Header) : Header :=
  ⟨header.before.map (Decl.relabel r), header.returns.relabel r, header.id.relabel r,
    header.formals.map (Decl.relabel r)⟩

def Opener.relabel : Opener → Opener
  | loop condition => loop (condition.relabel r)
  | ifThen condition => ifThen (condition.relabel r)
  | ifElse condition thenDecls thenStmts =>
    ifElse (condition.relabel r) (Decl.relabelAll r thenDecls) (Stmt.relabelAll r thenStmts)

def Block.relabel : Block → Block
  | function header decls stmts =>
    function (header.relabel r) (decls.map (Decl.relabel r)) (stmts.map (Stmt.relabel r))
  | nested opener outer decls stmts =>
    nested (opener.relabel r) outer.relabel (decls.map (Decl.relabel r))
      (stmts.map (Stmt.relabel r))

def Slot.relabel : Slot → Slot
  | top decls => top (decls.map (Decl.relabel r))
  | field before tag fields =>
    field (before.map (Decl.relabel r)) (tag.relabel r) (fields.map (Decl.relabel r))
  | formal header => formal (header.relabel r)
  | inner block => inner (block.relabel r)

def Pending.relabel : Pending → Pending
  | assign target => assign (target.relabel r)
  | binary binding op left => binary binding op (left.relabel r)
  | unary op => unary op

def Hole.relabel : Hole → Hole
  | assigned block target => assigned (block.relabel r) (target.relabel r)
  | written block => written (block.relabel r)
  | returned block => returned (block.relabel r)
  | ifCondition block => ifCondition (block.relabel r)
  | loopCondition block => loopCondition (block.relabel r)
  | argumentOfCall block callee args =>
    argumentOfCall (block.relabel r) (callee.relabel r) (args.map (Expr.relabel r))
  | argument callee args pending outer =>
    argument (callee.relabel r) (args.map (Expr.relabel r)) (pending.map (Pending.relabel r))
      outer.relabel
  | group pending outer => group (pending.map (Pending.relabel r)) outer.relabel

def Seat.relabel : Seat → Seat
  | read block => read (block.relabel r)
  | head block => head (block.relabel r)
  | operand pending hole => operand (pending.map (Pending.relabel r)) (hole.relabel r)

def Place.relabel : Place → Place
  | between decls => between (decls.map (Decl.relabel r))
  | structWord slot => structWord (slot.relabel r)
  | tagged decls tag => tagged (decls.map (Decl.relabel r)) (tag.relabel r)
  | typed slot type => typed (slot.relabel r) (type.relabel r)
  | named slot type id => named (slot.relabel r) (type.relabel r) (id.relabel r)
  | inStruct before tag fields =>
    inStruct (before.map (Decl.relabel r)) (tag.relabel r) (fields.map (Decl.relabel r))
  | structEnd before tag fields =>
    structEnd (before.map (Decl.relabel r)) (tag.relabel r) (fields.map (Decl.relabel r))
  | inFormals header => inFormals (header.relabel r)
  | headed header => headed (header.relabel r)
  | inBlock block => inBlock (block.relabel r)
  | ifWord block => ifWord (block.relabel r)
  | whileWord block => whileWord (block.relabel r)
  | opened block opener => opened (block.relabel r) (opener.relabel r)
  | cinWord block => cinWord (block.relabel r)
  | readArrow block => readArrow (block.relabel r)
  | coutWord block => coutWord (block.relabel r)
  | atOperand pending hole => atOperand (pending.map (Pending.relabel r)) (hole.relabel r)
  | afterTarget seat target => afterTarget (seat.relabel r) (target.relabel r)
  | afterDot seat object => afterDot (seat.relabel r) (object.relabel r)
  | afterValue pending hole operand =>
    afterValue (pending.map (Pending.relabel r)) (hole.relabel r) (operand.relabel r)
  | counted block stmt => counted (block.relabel r) (stmt.relabel r)
  | called block call => called (block.relabel r) (call.relabel r)

namespace Block

variable (block : Block)

@[simp]
theorem decls_relabel : (block.relabel r).decls = block.decls.map (Decl.relabel r) := by
  cases block <;> rfl

@[simp]
theorem stmts_relabel : (block.relabel r).stmts = block.stmts.map (Stmt.relabel r) := by
  cases block <;> rfl

@[simp]
theorem addDecl_relabel (decl : Decl) :
    (block.addDecl decl).relabel r = (block.relabel r).addDecl (decl.relabel r) := by
  cases block <;> rfl

@[simp]
theorem withStmts_relabel (stmts : List Stmt) :
    (block.withStmts stmts).relabel r =
      (block.relabel r).withStmts (stmts.map (Stmt.relabel r)) := by
  cases block <;> rfl

@[simp]
theorem addStmt_relabel (stmt : Stmt) :
    (block.addStmt stmt).relabel r = (block.relabel r).addStmt (stmt.relabel r) := by
  simp [addStmt]

/-- A block ends as the same declaration or statement. -/
@[simp]
theorem close_relabel : block.close.relabel r = (block.relabel r).close := by
  have hdecls (ds : List Decl) :
      Decl.relabelAll r ds.reverse = (ds.map (Decl.relabel r)).reverse := by
    rw [Decl.relabelAll_eq_map, List.map_reverse]
  have hstmts (ss : List Stmt) :
      Stmt.relabelAll r ss.reverse = (ss.map (Stmt.relabel r)).reverse := by
    rw [Stmt.relabelAll_eq_map, List.map_reverse]
  cases block with
  | function header decls stmts =>
    simp [close, Block.relabel, Place.relabel, Header.close, Header.relabel, Decl.relabel, hdecls,
      hstmts]
  | nested opener outer decls stmts =>
    cases opener <;>
      simp [close, Block.relabel, Place.relabel, Opener.close, Opener.relabel, Stmt.relabel, hdecls,
        hstmts]

@[simp]
theorem spot_relabel : (block.relabel r).spot = block.spot := by
  unfold spot
  rw [decls_relabel, stmts_relabel]
  rcases block.stmts with _ | ⟨s, ss⟩
  · cases block.decls <;> rfl
  · cases s <;> rfl

end Block

/-- What is offered at a place does not depend on labels. -/
@[simp]
theorem Place.spot_relabel (place : Place) : (place.relabel r).spot = place.spot := by
  cases place with
  | between decls =>
    rcases decls with _ | ⟨d, ds⟩
    · rfl
    · cases d <;> rfl
  | named slot => cases slot <;> rfl
  | inStruct _ _ fields => cases fields <;> rfl
  | inFormals header =>
    obtain ⟨_, _, _, formals⟩ := header
    cases formals <;> rfl
  | inBlock block => exact block.spot_relabel r
  | atOperand pending hole =>
    rcases pending with _ | ⟨p, ps⟩
    · cases hole with
      | argumentOfCall _ _ args => cases args <;> rfl
      | argument _ args => cases args <;> rfl
      | _ => rfl
    · rfl
  | afterTarget seat target => cases seat <;> cases target <;> rfl
  | _ => rfl

/-! ## Pending work -/

@[simp]
theorem settle_relabel (binding : Nat) (operand : Expr) (pending : List Pending) :
    settle binding (operand.relabel r) (pending.map (Pending.relabel r)) =
      ((settle binding operand pending).1.relabel r,
        (settle binding operand pending).2.map (Pending.relabel r)) := by
  induction pending generalizing operand with
  | nil => rfl
  | cons p ps ih =>
    cases p with
    | unary op => exact ih (.unary op operand)
    | binary own op left =>
      simp only [List.map_cons, Pending.relabel, settle]
      split
      · exact ih (.binary op left operand)
      · rfl
    | assign target =>
      simp only [List.map_cons, Pending.relabel, settle]
      split
      · exact ih (.assign target operand)
      · rfl

@[simp]
theorem settleAll_relabel (operand : Expr) (pending : List Pending) :
    settleAll (operand.relabel r) (pending.map (Pending.relabel r)) =
      (settleAll operand pending).relabel r := by
  unfold settleAll
  rw [settle_relabel]

/-- Whether a comparison waits does not depend on labels. -/
theorem pendOperator?_relabel (binding : Nat) (op : String) (operand : Expr)
    (pending : List Pending) :
    pendOperator? binding op (operand.relabel r) (pending.map (Pending.relabel r)) =
      (pendOperator? binding op operand pending).map (List.map (Pending.relabel r)) := by
  unfold pendOperator?
  simp only [settle_relabel]
  split
  · rcases (settle 4 operand pending) with ⟨left, _ | ⟨p, ps⟩⟩
    · rfl
    · cases p with
      | binary own _ _ =>
        by_cases hown : own = 3
        · subst hown
          rfl
        · simp [Pending.relabel, hown]
      | _ => rfl
  · rfl

theorem onlyAssigns_relabel (pending : List Pending) :
    onlyAssigns (pending.map (Pending.relabel r)) = onlyAssigns pending := by
  rcases pending with _ | ⟨p, ps⟩
  · rfl
  · cases p <;> rfl

end Relabel

/-! ## Steps with moved words -/

section Move

variable {f : Loc → Loc} {token : Token} {next : Place}

theorem Slot.TypeSteps.move {slot : Slot} (h : slot.TypeSteps token next) :
    (slot.relabel (.move f)).TypeSteps (token.move f) (next.relabel (.move f)) := by
  cases h with
  | structWord ht => exact .structWord ht
  | primitive hm ht => exact .primitive hm ht

theorem Block.Steps.move {block : Block} (h : block.Steps token next) :
    (block.relabel (.move f)).Steps (token.move f) (next.relabel (.move f)) := by
  cases h with
  | target ht => exact .target ht
  | type he ht =>
    refine .type ?_ ht.move
    rw [stmts_relabel, he, List.map_nil]
  | cin ht => exact .cin ht
  | cout ht => exact .cout ht
  | ifWord ht => exact .ifWord ht
  | whileWord ht => exact .whileWord ht
  | returnWord ht => exact .returnWord ht
  | @elseWord condition decls stmts before ht hs =>
    have hstmts : (block.relabel (.move f)).stmts =
        (Stmt.ifThen condition decls stmts).relabel (.move f) ::
          before.map (Stmt.relabel (.move f)) := by
      rw [stmts_relabel, hs, List.map_cons]
    simp only [Place.relabel, withStmts_relabel]
    exact .elseWord ht hstmts
  | close ht =>
    rw [close_relabel]
    exact .close ht

theorem Slot.Steps.move {slot : Slot} {type : TypeExpr} {id : Ident}
    (h : slot.Steps type id token next) :
    (slot.relabel (.move f)).Steps (type.relabel (.move f)) (id.relabel (.move f)) (token.move f)
      (next.relabel (.move f)) := by
  cases h with
  | var ht => exact .var ht
  | function ht => exact .function ht
  | field ht => exact .field ht
  | nextFormal ht => exact .nextFormal ht
  | lastFormal ht => exact .lastFormal ht
  | localVar ht =>
    simp only [Place.relabel, Block.addDecl_relabel]
    exact .localVar ht

theorem Hole.Closes.move {hole : Hole} {expr : Expr} (h : hole.Closes expr token next) :
    (hole.relabel (.move f)).Closes (expr.relabel (.move f)) (token.move f)
      (next.relabel (.move f)) := by
  have hargs (e : Expr) (es : List Expr) (r : Relabel) :
      Expr.relabelAll r (e :: es).reverse = (e.relabel r :: es.map (Expr.relabel r)).reverse := by
    rw [Expr.relabelAll_eq_map, List.map_reverse, List.map_cons]
  cases h with
  | assigned ht =>
    simp only [Place.relabel, Block.addStmt_relabel]
    exact .assigned ht
  | written ht =>
    simp only [Place.relabel, Block.addStmt_relabel]
    exact .written ht
  | returned ht =>
    simp only [Place.relabel, Block.addStmt_relabel]
    exact .returned ht
  | ifCondition ht => exact .ifCondition ht
  | loopCondition ht => exact .loopCondition ht
  | lastOfCall ht =>
    simp only [Place.relabel, Expr.relabel, hargs]
    exact .lastOfCall ht
  | nextOfCall ht => exact .nextOfCall ht
  | lastArgument ht =>
    simp only [Place.relabel, Expr.relabel, hargs]
    exact .lastArgument ht
  | nextArgument ht => exact .nextArgument ht
  | group ht => exact .group ht

theorem Hole.ClosesEmpty.move {hole : Hole} (h : hole.ClosesEmpty token next) :
    (hole.relabel (.move f)).ClosesEmpty (token.move f) (next.relabel (.move f)) := by
  cases h with
  | returned ht =>
    simp only [Place.relabel, Block.addStmt_relabel]
    exact .returned ht
  | argumentOfCall ht => exact .argumentOfCall ht
  | argument ht => exact .argument ht

theorem ValueSteps.move {pending : List Pending} {hole : Hole} {operand : Expr}
    (h : ValueSteps pending hole operand token next) :
    ValueSteps (pending.map (Pending.relabel (.move f))) (hole.relabel (.move f))
      (operand.relabel (.move f)) (token.move f) (next.relabel (.move f)) := by
  cases h with
  | operator hb ht hp =>
    refine .operator hb ht ?_
    rw [pendOperator?_relabel, hp]
    rfl
  | close hc =>
    refine .close ?_
    rw [settleAll_relabel]
    exact hc.move

theorem OperandSteps.move {pending : List Pending} {hole : Hole}
    (h : OperandSteps pending hole token next) :
    OperandSteps (pending.map (Pending.relabel (.move f))) (hole.relabel (.move f))
      (token.move f) (next.relabel (.move f)) := by
  cases h with
  | name ht => exact .name ht
  | number ht => exact .number ht
  | text ht => exact .text ht
  | trueWord ht => exact .trueWord ht
  | falseWord ht => exact .falseWord ht
  | group ht => exact .group ht
  | sign hm ht => exact .sign hm ht
  | close he hc =>
    subst he
    exact .close rfl hc.move

theorem Seat.Steps.move {seat : Seat} {target : Expr} (h : seat.Steps target token next) :
    (seat.relabel (.move f)).Steps (target.relabel (.move f)) (token.move f)
      (next.relabel (.move f)) := by
  cases h with
  | read ht =>
    simp only [Place.relabel, Block.addStmt_relabel]
    exact .read ht
  | assignment ht => exact .assignment ht
  | increment ht => exact .increment ht
  | decrement ht => exact .decrement ht
  | callStmt hn ht =>
    subst hn
    exact .callStmt rfl ht
  | assign ho ht =>
    refine .assign ?_ ht
    rw [onlyAssigns_relabel]
    exact ho
  | call hn ht =>
    subst hn
    exact .call rfl ht
  | value hv => exact .value hv.move

/-- A step with a word that was moved. -/
theorem Place.Steps.move {place : Place} (h : place.Steps token next) :
    (place.relabel (.move f)).Steps (token.move f) (next.relabel (.move f)) := by
  cases h with
  | between ht => exact .between ht.move
  | tag ht => exact .tag ht
  | @structType slot hs ht =>
    refine .structType ?_ ht
    cases slot with
    | top decls => exact absurd rfl (hs decls)
    | _ => exact fun _ heq => nomatch heq
  | openStruct ht => exact .openStruct ht
  | taggedName ht => exact .taggedName ht
  | name ht => exact .name ht
  | named hs => exact .named hs.move
  | closeStruct hn ht => exact .closeStruct (by simpa using hn) ht
  | field ht => exact .field ht.move
  | endStruct ht =>
    simp only [Place.relabel, List.map_cons, Decl.relabel, Decl.relabelAll_eq_map,
      List.map_reverse]
    exact .endStruct ht
  | noFormals hn ht => exact .noFormals (by simp [Header.relabel, hn]) ht
  | formal ht => exact .formal ht.move
  | body ht => exact .body ht
  | inBlock hs => exact .inBlock hs.move
  | ifCondition ht => exact .ifCondition ht
  | loopCondition ht => exact .loopCondition ht
  | enter ht => exact .enter ht
  | readArrow ht => exact .readArrow ht
  | readName ht => exact .readName ht
  | writeArrow ht => exact .writeArrow ht
  | operand hs => exact .operand hs.move
  | dot ht => exact .dot ht
  | target hs => exact .target hs.move
  | member ht => exact .member ht
  | value hv => exact .value hv.move
  | counted ht =>
    simp only [Place.relabel, Block.addStmt_relabel]
    exact .counted ht
  | called ht =>
    simp only [Place.relabel, Block.addStmt_relabel]
    exact .called ht

/-- The words of a whole text, each moved. -/
theorem Place.Leads.move {place last : Place} {tokens : List Token}
    (h : place.Leads tokens last) :
    (place.relabel (.move f)).Leads (tokens.map (Token.move f)) (last.relabel (.move f)) := by
  induction h with
  | stay => exact .stay
  | word hf hs _ ih =>
    have hstep := (Place.Steps.of_step hs).move (f := f)
    obtain ⟨ho, hspelled, hunlike⟩ := hf
    refine .word ⟨?_, hspelled, fun hi g hg => hunlike hi g ?_⟩ hstep.step?_eq ih
    · rw [Place.spot_relabel]
      exact ho
    · rwa [Place.spot_relabel] at hg

theorem Place.program?_move {place : Place} {program : Program}
    (h : place.program? = some program) :
    (place.relabel (.move f)).program? = some (program.relabel (.move f)) := by
  cases place with
  | between decls =>
    cases h
    simp [Place.relabel, Place.program?, Program.relabel, Decl.relabelAll_eq_map]
  | _ => cases h

/-- Without locations, nobody sees what was moved. -/
theorem Program.unplace_move (f : Loc → Loc) (program : Program) :
    (program.relabel (.move f)).relabel .unplace = program.relabel .unplace :=
  program.relabel_relabel (.move f) .unplace

end Move

end Moo
