import Mathlib.Algebra.Group.Nat.Defs
import Moo.Proofs.Reading.Steps
import Moo.Proofs.Reading.Words
import Moo.Proofs.Tree.Legible

/-!
# What is read is legible

Every part of a tree that was read was a word that its spot offered, so it
can be written down again: the tree of an accepted text is legible.

* `Place.Legible`: the same of all that a place holds.
* `Place.Legible.step`: a word that is found keeps it.
* `parse_legible`: the statement for whole texts.
-/
namespace Moo

/-! ## Words -/

variable {token : Token} {spot : Spot}

theorem Spot.Finds.fits (h : spot.Finds token) (ht : token.terminal = .ident) :
    token.ident.Fits spot :=
  ⟨rfl, ht ▸ h.spelled, h.unlike ht⟩

theorem ofDigitChars_lt {digits : List Char} (hd : ∀ c ∈ digits, c.isDigit = true) (init : Nat) :
    Nat.ofDigitChars 10 digits init < (init + 1) * 10 ^ digits.length := by
  induction digits generalizing init with
  | nil => simp
  | cons c digits ih =>
    have hc : c.toNat - '0'.toNat ≤ 9 := by
      have hc := hd c List.mem_cons_self
      simp only [Char.isDigit, ge_iff_le, Bool.and_eq_true, decide_eq_true_eq,
        UInt32.le_iff_toNat_le] at hc
      have h9 : c.toNat ≤ 57 := hc.2
      show c.toNat - 48 ≤ 9
      omega
    have hrest := ih (fun d h => hd d (List.mem_cons_of_mem c h)) (10 * init + (c.toNat - '0'.toNat))
    rw [Nat.ofDigitChars_cons, List.length_cons]
    calc Nat.ofDigitChars 10 digits (10 * init + (c.toNat - '0'.toNat))
        < (10 * init + (c.toNat - '0'.toNat) + 1) * 10 ^ digits.length := hrest
      _ ≤ (10 * init + 10) * 10 ^ digits.length := Nat.mul_le_mul_right _ (by omega)
      _ = (init + 1) * 10 ^ (digits.length + 1) := by
        rw [show 10 * init + 10 = (init + 1) * 10 by omega, Nat.mul_assoc, ← Nat.pow_succ']

/-- A number has no more digits than the word that it was read from. -/
theorem Token.number_digits (hd : IsLexeme .number token.text.toList)
    (ht : token.terminal = .number) (hs : token.overlong? = none) :
    ∃ n : Nat, token.number = n ∧ n.repr.length ≤ maxDigits := by
  have hlen : token.text.length ≤ maxDigits := by simpa [Token.overlong?, ht] using hs
  have hpos : 0 < token.text.length := by
    rw [← String.length_toList]
    exact List.length_pos_iff.2 hd.1
  refine ⟨Nat.ofDigitChars 10 token.text.toList 0, rfl, Nat.le_trans ?_ hlen⟩
  rw [Nat.length_repr_le_iff hpos, ← String.length_toList]
  simpa using ofDigitChars_lt hd.2 0

theorem legible_number (h : spot.Finds token) (ht : token.terminal = .number)
    (hs : token.overlong? = none) (loc : Option Loc) : (Expr.int token.number loc).Legible :=
  Token.number_digits (ht ▸ h.spelled) ht hs

/-! ## Places -/

structure Header.Legible (header : Header) : Prop where
  before : ∀ d ∈ header.before, d.Legible
  returns : header.returns.Legible
  id : header.id.Fits .name
  formals : ∀ d ∈ header.formals, d.LegibleFormal

def Opener.Legible : Opener → Prop
  | loop condition | ifThen condition => condition.Legible
  | ifElse condition thenDecls thenStmts => condition.Legible ∧
    (∀ d ∈ thenDecls, d.LegibleVar) ∧ Stmt.LegibleAll (bodySpot thenDecls) thenStmts

def Block.Legible : Block → Prop
  | function header decls stmts => header.Legible ∧ (∀ d ∈ decls, d.LegibleVar) ∧
    Stmt.LegibleAll (bodySpot decls) stmts.reverse
  | nested opener outer decls stmts => opener.Legible ∧ outer.Legible ∧
    (∀ d ∈ decls, d.LegibleVar) ∧ Stmt.LegibleAll (bodySpot decls) stmts.reverse

/-- The fields of a struct, and what is in front of it. -/
structure LegibleFields (before : List Decl) (tag : Ident) (fields : List Decl) : Prop where
  before : ∀ d ∈ before, d.Legible
  tag : tag.Fits .name
  fields : ∀ d ∈ fields, d.LegibleVar

def Slot.Legible : Slot → Prop
  | top decls => ∀ d ∈ decls, d.Legible
  | field before tag fields => LegibleFields before tag fields
  | formal header => header.Legible
  | inner block => block.Legible ∧ block.stmts = []

def Pending.Legible : Pending → Prop
  | assign target => target.Heads .operand
  | binary binding op left =>
    (∃ word, Fixed.binding? word = some binding ∧ op = word.spelling) ∧ left.Legible
  | unary op => ∃ word ∈ [Fixed.minus, .not], op = word.spelling

def Hole.Legible : Hole → Prop
  | assigned block target => block.Legible ∧ target.Heads block.spot
  | written block | returned block | ifCondition block | loopCondition block => block.Legible
  | argumentOfCall block callee args =>
    block.Legible ∧ callee.Fits block.spot ∧ ∀ e ∈ args, e.Legible
  | argument callee args pending outer =>
    callee.Fits .operand ∧ (∀ e ∈ args, e.Legible) ∧ (∀ w ∈ pending, w.Legible) ∧ outer.Legible
  | group pending outer => (∀ w ∈ pending, w.Legible) ∧ outer.Legible

namespace Seat

def Legible : Seat → Prop
  | read block | head block => block.Legible
  | operand pending hole => (∀ w ∈ pending, w.Legible) ∧ hole.Legible

/-- Where the name at the seat starts. -/
def start : Seat → Spot
  | read _ => .name
  | head block => block.spot
  | operand _ _ => .operand

end Seat

def Place.Legible : Place → Prop
  | between decls => ∀ d ∈ decls, d.Legible
  | structWord slot => slot.Legible
  | tagged decls tag => (∀ d ∈ decls, d.Legible) ∧ tag.Fits .name
  | typed slot type => slot.Legible ∧ type.Legible
  | named slot type id => slot.Legible ∧ type.Legible ∧ id.Fits .name
  | inStruct before tag fields => LegibleFields before tag fields
  | structEnd before tag fields => LegibleFields before tag fields ∧ fields ≠ []
  | inFormals header | headed header => header.Legible
  | inBlock block | ifWord block | whileWord block | cinWord block | readArrow block
  | coutWord block => block.Legible
  | opened block opener => block.Legible ∧ opener.Legible
  | atOperand pending hole => (∀ w ∈ pending, w.Legible) ∧ hole.Legible
  | afterTarget seat target | afterDot seat target => seat.Legible ∧ target.Heads seat.start
  | afterValue pending hole operand =>
    (∀ w ∈ pending, w.Legible) ∧ hole.Legible ∧ operand.Legible
  | counted block stmt => block.Legible ∧ stmt.Legible block.spot
  | called block call => block.Legible ∧ (Stmt.call call).Legible block.spot

/-! ## Blocks -/

namespace Block

variable {block : Block}

theorem Legible.addStmt {stmt : Stmt} (h : block.Legible) (hs : stmt.Legible block.spot) :
    (block.addStmt stmt).Legible := by
  rw [spot_eq] at hs
  cases block with
  | function header decls stmts =>
    obtain ⟨hh, hds, hss⟩ := h
    refine ⟨hh, hds, ?_⟩
    rw [Block.stmts, List.reverse_cons]
    exact (Stmt.legibleAll_snoc _ _ _).2 ⟨hss, hs⟩
  | nested opener outer decls stmts =>
    obtain ⟨hop, hout, hds, hss⟩ := h
    refine ⟨hop, hout, hds, ?_⟩
    rw [Block.stmts, List.reverse_cons]
    exact (Stmt.legibleAll_snoc _ _ _).2 ⟨hss, hs⟩

theorem Legible.addDecl {decl : Decl} (h : block.Legible) (hn : block.stmts = [])
    (hd : decl.LegibleVar) : (block.addDecl decl).Legible := by
  cases block with
  | function header decls stmts =>
    cases hn
    obtain ⟨hh, hds, _⟩ := h
    exact ⟨hh, List.forall_mem_cons.2 ⟨hd, hds⟩, trivial⟩
  | nested opener outer decls stmts =>
    cases hn
    obtain ⟨hop, hout, hds, _⟩ := h
    exact ⟨hop, hout, List.forall_mem_cons.2 ⟨hd, hds⟩, trivial⟩

theorem Legible.dropStmt {stmt : Stmt} {before : List Stmt} (h : block.Legible)
    (hs : block.stmts = stmt :: before) :
    (block.withStmts before).Legible ∧ ∃ spot, stmt.Legible spot := by
  cases block with
  | function header decls stmts =>
    cases hs
    obtain ⟨hh, hds, hss⟩ := h
    rw [List.reverse_cons] at hss
    obtain ⟨hss, hs⟩ := (Stmt.legibleAll_snoc _ _ _).1 hss
    exact ⟨⟨hh, hds, hss⟩, _, hs⟩
  | nested opener outer decls stmts =>
    cases hs
    obtain ⟨hop, hout, hds, hss⟩ := h
    rw [List.reverse_cons] at hss
    obtain ⟨hss, hs⟩ := (Stmt.legibleAll_snoc _ _ _).1 hss
    exact ⟨⟨hop, hout, hds, hss⟩, _, hs⟩

end Block

/-! ## Steps -/

variable {place next : Place}

theorem Block.Legible.close {block : Block} (h : block.Legible) : block.close.Legible := by
  cases block with
  | function header decls stmts =>
    obtain ⟨hh, hds, hss⟩ := h
    refine List.forall_mem_cons.2 ⟨⟨hh.returns, hh.id, ?_, ?_, ?_⟩, hh.before⟩
    · simpa using hh.formals
    · simpa using hds
    · simpa [bodySpot] using hss
  | nested opener outer decls stmts =>
    obtain ⟨hop, hout, hds, hss⟩ := h
    have hds' : ∀ d ∈ decls.reverse, d.LegibleVar := by simpa using hds
    have hss' : Stmt.LegibleAll (bodySpot decls.reverse) stmts.reverse := by
      simpa [bodySpot] using hss
    refine Block.Legible.addStmt hout ?_
    cases opener with
    | loop => exact ⟨hop, hds', hss'⟩
    | ifThen => exact ⟨hop, hds', hss'⟩
    | ifElse => exact ⟨hop.1, hop.2.1, hop.2.2, hds', hss'⟩

theorem Slot.Legible.typeStep {slot : Slot} (h : slot.Legible) (hs : slot.TypeSteps token next) :
    next.Legible := by
  cases hs with
  | structWord => exact h
  | primitive hm => exact ⟨h, _, hm, rfl⟩

theorem Block.Legible.step {block : Block} (h : block.Legible) (hf : block.spot.Finds token)
    (hs : block.Steps token next) : next.Legible := by
  cases hs with
  | target ht => exact ⟨h, hf.fits ht⟩
  | type he ht =>
    have hslot : (Slot.inner block).Legible := ⟨h, he⟩
    exact hslot.typeStep ht
  | returnWord => exact ⟨List.forall_mem_nil _, h⟩
  | elseWord _ hs =>
    obtain ⟨hout, _, hif⟩ := h.dropStmt hs
    exact ⟨hout, hif⟩
  | close => exact h.close
  | _ => exact h

theorem Slot.Legible.step {slot : Slot} {type : TypeExpr} {id : Ident} (h : slot.Legible)
    (ht : type.Legible) (hi : id.Fits .name) (hs : slot.Steps type id token next) :
    next.Legible := by
  cases hs with
  | var => exact List.forall_mem_cons.2 ⟨⟨ht, hi⟩, h⟩
  | function => exact ⟨h, ht, hi, List.forall_mem_nil _⟩
  | field => exact ⟨h.before, h.tag, List.forall_mem_cons.2 ⟨⟨ht, hi⟩, h.fields⟩⟩
  | nextFormal =>
    exact ⟨h.before, h.returns, h.id, List.forall_mem_cons.2 ⟨⟨ht, hi⟩, h.formals⟩⟩
  | lastFormal =>
    exact ⟨h.before, h.returns, h.id, List.forall_mem_cons.2 ⟨⟨ht, hi⟩, h.formals⟩⟩
  | localVar => exact h.1.addDecl h.2 ⟨ht, hi⟩

/-! ## Expressions -/

theorem legible_settle (binding : Nat) {pending : List Pending} {operand : Expr}
    (hp : ∀ w ∈ pending, w.Legible) (he : operand.Legible) :
    (settle binding operand pending).1.Legible ∧
      ∀ w ∈ (settle binding operand pending).2, w.Legible := by
  induction pending generalizing operand with
  | nil => exact ⟨he, hp⟩
  | cons w pending ih =>
    obtain ⟨hw, hp'⟩ := List.forall_mem_cons.1 hp
    cases w with
    | unary op => exact ih hp' ⟨hw, he⟩
    | binary own op left =>
      simp only [settle]
      split
      · obtain ⟨word, hb, ho⟩ := hw.1
        exact ih hp' ⟨⟨word, own, hb, ho⟩, hw.2, he⟩
      · exact ⟨he, hp⟩
    | assign target =>
      simp only [settle]
      split
      · exact ih hp' ⟨hw, he⟩
      · exact ⟨he, hp⟩

theorem legible_pendOperator {pending pending' : List Pending} {word : Fixed} {binding : Nat}
    {operand : Expr} (hp : ∀ w ∈ pending, w.Legible) (he : operand.Legible)
    (hb : word.binding? = some binding)
    (hs : pendOperator? binding word.spelling operand pending = some pending') :
    ∀ w ∈ pending', w.Legible := by
  unfold pendOperator? at hs
  split at hs
  · obtain ⟨hl, hrest⟩ := legible_settle 4 hp he
    split at hs
    · cases hs
    · next left rest _ heq =>
      cases hs
      rw [heq] at hl hrest
      exact List.forall_mem_cons.2 ⟨⟨⟨word, hb, rfl⟩, hl⟩, hrest⟩
  · obtain ⟨hl, hrest⟩ := legible_settle binding hp he
    cases hs
    exact List.forall_mem_cons.2 ⟨⟨⟨word, hb, rfl⟩, hl⟩, hrest⟩

theorem legible_settleAll {pending : List Pending} {operand : Expr}
    (hp : ∀ w ∈ pending, w.Legible) (he : operand.Legible) : (settleAll operand pending).Legible :=
  (legible_settle 0 hp he).1

theorem Expr.legible_arguments {args : List Expr} (h : ∀ e ∈ args, e.Legible) :
    Expr.LegibleAll args.reverse := by
  rw [Expr.legibleAll_iff]
  simpa using h

theorem Hole.Legible.close {hole : Hole} {expr : Expr} (h : hole.Legible) (he : expr.Legible)
    (hs : hole.Closes expr token next) : next.Legible := by
  cases hs with
  | assigned => exact h.1.addStmt ⟨h.2, he⟩
  | written => exact Block.Legible.addStmt h he
  | returned => exact Block.Legible.addStmt h he
  | ifCondition => exact ⟨h, he⟩
  | loopCondition => exact ⟨h, he⟩
  | lastOfCall =>
    obtain ⟨hb, hc, hargs⟩ := h
    exact ⟨hb, hc, Expr.legible_arguments (List.forall_mem_cons.2 ⟨he, hargs⟩)⟩
  | nextOfCall =>
    obtain ⟨hb, hc, hargs⟩ := h
    exact ⟨List.forall_mem_nil _, hb, hc, List.forall_mem_cons.2 ⟨he, hargs⟩⟩
  | lastArgument =>
    obtain ⟨hc, hargs, hp, hout⟩ := h
    exact ⟨hp, hout, hc, Expr.legible_arguments (List.forall_mem_cons.2 ⟨he, hargs⟩)⟩
  | nextArgument =>
    obtain ⟨hc, hargs, hp, hout⟩ := h
    exact ⟨List.forall_mem_nil _, hc, List.forall_mem_cons.2 ⟨he, hargs⟩, hp, hout⟩
  | group => exact ⟨h.1, h.2, he⟩

theorem Hole.Legible.closeEmpty {hole : Hole} (h : hole.Legible)
    (hs : hole.ClosesEmpty token next) : next.Legible := by
  cases hs with
  | returned => exact Block.Legible.addStmt h trivial
  | argumentOfCall =>
    obtain ⟨hb, hc, _⟩ := h
    exact ⟨hb, hc, trivial⟩
  | argument =>
    obtain ⟨hc, _, hp, hout⟩ := h
    exact ⟨hp, hout, hc, trivial⟩

theorem legible_valueStep {pending : List Pending} {hole : Hole} {operand : Expr}
    (hp : ∀ w ∈ pending, w.Legible) (h : hole.Legible) (he : operand.Legible)
    (hs : ValueSteps pending hole operand token next) : next.Legible := by
  cases hs with
  | operator hb _ hpend => exact ⟨legible_pendOperator hp he hb hpend, h⟩
  | close hc => exact h.close (legible_settleAll hp he) hc

/-- Every spot where an operand starts offers the keywords that an operand may be. -/
theorem offers_atOperand (pending : List Pending) (hole : Hole) (f : Fixed)
    (hf : Spot.operand.offers (.fixed f) = true) :
    (Place.atOperand pending hole).spot.offers (.fixed f) = true := by
  unfold Place.spot
  split <;> simp_all [Spot.offers, Spot.terminals]

theorem legible_operandStep {pending : List Pending} {hole : Hole}
    (hp : ∀ w ∈ pending, w.Legible) (h : hole.Legible)
    (hf : (Place.atOperand pending hole).spot.Finds token) (ho : token.overlong? = none)
    (hs : OperandSteps pending hole token next) : next.Legible := by
  cases hs with
  | name ht =>
    exact ⟨⟨hp, h⟩, (hf.fits ht).mono fun f _ => offers_atOperand pending hole f⟩
  | number ht => exact ⟨hp, h, legible_number hf ht ho _⟩
  | text ht =>
    have htext : IsLexeme .text token.text.toList := ht ▸ hf.spelled
    exact ⟨hp, h, htext⟩
  | trueWord => exact ⟨hp, h, trivial⟩
  | falseWord => exact ⟨hp, h, trivial⟩
  | group => exact ⟨List.forall_mem_nil _, hp, h⟩
  | sign hm => exact ⟨List.forall_mem_cons.2 ⟨⟨_, hm, rfl⟩, hp⟩, h⟩
  | close _ hc => exact h.closeEmpty hc

theorem Seat.Legible.step {seat : Seat} {target : Expr} (h : seat.Legible)
    (ht : target.Heads seat.start) (hs : seat.Steps target token next) : next.Legible := by
  cases hs with
  | read => exact Block.Legible.addStmt h ht
  | assignment => exact ⟨List.forall_mem_nil _, h, ht⟩
  | increment => exact ⟨h, ht⟩
  | decrement => exact ⟨h, ht⟩
  | callStmt he =>
    subst he
    exact ⟨List.forall_mem_nil _, h, ht, List.forall_mem_nil _⟩
  | assign =>
    obtain ⟨hp, hh⟩ := h
    exact ⟨List.forall_mem_cons.2 ⟨ht, hp⟩, hh⟩
  | call he =>
    subst he
    obtain ⟨hp, hh⟩ := h
    exact ⟨List.forall_mem_nil _, ht, List.forall_mem_nil _, hp, hh⟩
  | value hv => exact legible_valueStep h.1 h.2 (Expr.Heads.legible ht) hv

/-! ## Places -/

namespace Place

theorem Legible.step (h : place.Legible) (hf : place.spot.Finds token)
    (ho : token.overlong? = none) (hs : place.Steps token next) : next.Legible := by
  cases hs with
  | between ht =>
    next decls =>
    have hslot : (Slot.top decls).Legible := h
    exact hslot.typeStep ht
  | tag ht => exact ⟨h, hf.fits ht⟩
  | structType _ ht => exact ⟨h, hf.fits ht⟩
  | openStruct => exact ⟨h.1, h.2, List.forall_mem_nil _⟩
  | taggedName ht => exact ⟨h.1, h.2, (hf.fits ht).name⟩
  | name ht => exact ⟨h.1, h.2, hf.fits ht⟩
  | named hs => exact h.1.step h.2.1 h.2.2 hs
  | closeStruct hn => exact ⟨h, hn⟩
  | field ht =>
    next before tag fields =>
    have hslot : (Slot.field before tag fields).Legible := h
    exact hslot.typeStep ht
  | endStruct =>
    obtain ⟨hfs, hn⟩ := h
    refine List.forall_mem_cons.2 ⟨⟨hfs.tag, by simpa using hn, ?_⟩, hfs.before⟩
    simpa using hfs.fields
  | noFormals => exact h
  | formal ht =>
    next header =>
    have hslot : (Slot.formal header).Legible := h
    exact hslot.typeStep ht
  | body => exact ⟨h, List.forall_mem_nil _, trivial⟩
  | inBlock hs => exact Block.Legible.step h hf hs
  | ifCondition => exact ⟨List.forall_mem_nil _, h⟩
  | loopCondition => exact ⟨List.forall_mem_nil _, h⟩
  | enter => exact ⟨h.2, h.1, List.forall_mem_nil _, trivial⟩
  | readArrow => exact h
  | readName ht => exact ⟨h, hf.fits ht⟩
  | writeArrow => exact ⟨List.forall_mem_nil _, h⟩
  | operand hs => exact legible_operandStep h.1 h.2 hf ho hs
  | dot => exact h
  | target hs => exact h.1.step h.2 hs
  | member => exact h
  | value hv => exact legible_valueStep h.1 h.2.1 h.2.2 hv
  | counted => exact h.1.addStmt h.2
  | called => exact h.1.addStmt h.2

theorem Leads.legible {tokens : List Token} {last : Place} (h : place.Leads tokens last)
    (ho : ∀ t ∈ tokens, t.overlong? = none) (hp : place.Legible) : last.Legible := by
  induction h with
  | stay => exact hp
  | word hf hs _ ih =>
    obtain ⟨ht, ho⟩ := List.forall_mem_cons.1 ho
    exact ih ho (hp.step hf ht (.of_step hs))

end Place

/-- The tree of an accepted text is legible. -/
theorem parse_legible {source : String} {program : Program} (h : parse source = .ok program) :
    program.Legible := by
  obtain ⟨tokens, last, _, ho, hleads, hlast⟩ := parse_ok h
  have hend := hleads.legible ho (List.forall_mem_nil _)
  cases last with
  | between decls =>
    cases hlast
    intro d hd
    exact hend d (by simpa using hd)
  | _ => cases hlast

end Moo
