import Moo.Proofs.Reading.Invariant
import Moo.Proofs.Reading.Steps

/-!
# One more word

Every step that a place takes keeps `Place.Follows`: the place after the
step follows the words so far and the word of the step.

* `Block.Follows.step`, `Slot.Follows.typeStep`, `Slot.Follows.step`,
  `Hole.Follows.close`, `Seat.Follows.step`: the same for the parts of a
  place that decide what a step does.
* `Place.Follows.step`: one word.
* `Place.Follows.program`: where a program may end, its words are derived
  from `start`.
-/
namespace Moo

variable {ts us vs : List Token} {token : Token} {place : Place}

/-! ## Declarations and blocks -/

/-- The brace that opens the body of a function. -/
theorem Header.Ends.enter {header : Header} (h : header.Ends ts)
    (ho : token.terminal = .fixed .openBrace) :
    (Block.function header [] []).Follows (ts ++ [token]) := by
  have hds : Derives .declList [] ([] : List Decl).reverse := .noLocals
  have hss : Derives .stmtList [] ([] : List Stmt).reverse := .noStmts
  simpa using Block.Follows.function h ho hds hss

/-- The brace that opens a block in a block. -/
theorem Block.Follows.enter {block : Block} {opener : Opener} (h : block.Follows ts)
    (hop : opener.Heads us) (ho : token.terminal = .fixed .openBrace) :
    (Block.nested opener block [] []).Follows (ts ++ us ++ [token]) := by
  have hds : Derives .declList [] ([] : List Decl).reverse := .noLocals
  have hss : Derives .stmtList [] ([] : List Stmt).reverse := .noStmts
  simpa using Block.Follows.nested h hop ho hds hss

theorem Header.Ends.close {header : Header} {openBrace closeBrace : Token} {decls : List Decl}
    {stmts : List Stmt} (h : header.Ends ts) (ho : openBrace.terminal = .fixed .openBrace)
    (hds : Derives .declList us decls.reverse) (hss : Derives .stmtList vs stmts.reverse)
    (hc : closeBrace.terminal = .fixed .closeBrace) :
    Derives .decls (ts ++ openBrace :: us ++ vs ++ [closeBrace])
      (header.close decls stmts :: header.before).reverse := by
  have hb := Derives.fnBody ho hds hss hc
  obtain ⟨⟨hbefore, ht, hn, hp⟩, hfs, hcp⟩ := h
  generalize hr : List.reverse _ = formals at hfs
  cases hfs with
  | none =>
    have hd := Derives.fnDeclIsDecl (Derives.fnDeclNoFormals ht hn hp hcp hb)
    simp only [Header.close, hr]
    exact (hbefore.consDecl hd).of_eq (by simp)
  | some hfs =>
    subst hr
    have hd := Derives.fnDeclIsDecl (Derives.fnDecl ht hn hp hfs hcp hb)
    exact (hbefore.consDecl hd).of_eq (by simp)

theorem Block.Follows.close {block : Block} (h : block.Follows ts)
    (hc : token.terminal = .fixed .closeBrace) : Place.Follows block.close (ts ++ [token]) := by
  cases h with
  | function hh ho hds hss => exact .between (hh.close ho hds hss hc)
  | nested hout hop ho hds hss =>
    have hs := hop.close (Derives.block ho hds hss hc)
    simpa [Block.close] using Place.Follows.inBlock (hout.addStmt hs)

/-- An `else` turns the statement that has just been read into the opener of one more block. -/
theorem Block.Follows.reopen {block : Block} {condition : Expr} {decls : List Decl}
    {stmts before : List Stmt} (h : block.Follows ts)
    (hs : block.stmts = .ifThen condition decls stmts :: before)
    (he : token.terminal = .fixed .elseWord) :
    Place.Follows (.opened (block.withStmts before) (.ifElse condition decls stmts))
      (ts ++ [token]) := by
  obtain ⟨us, vs, rfl, hout, hif⟩ := h.dropStmt hs
  cases hif with
  | ifStmt hw ho hc hp hb => simpa using Place.Follows.opened hout (.ifElse hw ho hc hp hb he)

theorem Slot.Follows.typeStep {slot : Slot} (h : slot.Follows ts)
    (hs : slot.TypeSteps token place) : place.Follows (ts ++ [token]) := by
  cases hs with
  | structWord ht => exact .structWord h ht
  | primitive hm ht => exact .typed h (.primitiveType hm ht)

theorem Block.Follows.step {block : Block} (h : block.Follows ts) (hs : block.Steps token place) :
    place.Follows (ts ++ [token]) := by
  cases hs with
  | target ht => exact .afterTarget (.head h) (.idRef ht)
  | type he ht => exact Slot.Follows.typeStep (.inner h he) ht
  | cin ht => exact .cinWord h ht
  | cout ht => exact .coutWord h ht
  | ifWord ht => exact .ifWord h ht
  | whileWord ht => exact .whileWord h ht
  | returnWord ht => simpa using Place.Follows.atOperand (.returned h ht) .nil
  | elseWord ht hs => exact h.reopen hs ht
  | close ht => exact h.close ht

theorem FollowsFields.addField {before fields : List Decl} {tag : Ident} {d : Decl}
    (h : FollowsFields before tag fields ts) (hd : Derives .varDecl us d) :
    FollowsFields before tag (d :: fields) (ts ++ us) := by
  obtain ⟨hbefore, hw, ht, ho, hfs⟩ := h
  have hfs' := hfs.field hd
  rw [← List.reverse_cons] at hfs'
  simpa using FollowsFields.intro hbefore hw ht ho (.some hfs')

theorem FollowsFields.close {before fields : List Decl} {tag : Ident} {closeBrace semicolon : Token}
    (h : FollowsFields before tag fields ts) (hn : fields ≠ [])
    (hc : closeBrace.terminal = .fixed .closeBrace)
    (hs : semicolon.terminal = .fixed .semicolon) :
    Derives .decls (ts ++ [closeBrace] ++ [semicolon])
      (.struct tag fields.reverse :: before).reverse := by
  obtain ⟨hbefore, hw, ht, ho, hfs⟩ := h
  generalize hr : fields.reverse = fs at hfs
  cases hfs with
  | none => exact (hn (List.reverse_eq_nil_iff.1 hr)).elim
  | some hfs =>
    subst hr
    have hd := Derives.structDeclIsDecl (Derives.structDecl hw ht ho hfs hc hs)
    exact (hbefore.consDecl hd).of_eq (by simp)

/-- A word after a type and a name. -/
theorem Slot.Follows.step {slot : Slot} {type : TypeExpr} {name : Token} (h : slot.Follows ts)
    (ht : Derives .type us type) (hn : name.terminal = .ident)
    (hs : slot.Steps type name.ident token place) :
    place.Follows (ts ++ us ++ [name] ++ [token]) := by
  have hvar : token.terminal = .fixed .semicolon →
      Derives .varDecl (us ++ [name, token]) (.var type name.ident) := .varDecl ht hn
  cases h with
  | top hds =>
    cases hs with
    | var hw => simpa using Place.Follows.between (hds.consDecl (.varDeclIsDecl (hvar hw)))
    | function hw => simpa using Place.Follows.inFormals ⟨⟨hds, ht, hn, hw⟩, .first⟩
  | field hfs =>
    cases hs with
    | field hw => simpa using Place.Follows.inStruct (hfs.addField (hvar hw))
  | formal hh =>
    obtain ⟨vs, ws, hvw, hb, hfs⟩ := hh.addFormal (.formalDecl ht hn)
    have hwords : ts ++ us ++ [name] = vs ++ ws := by simpa using hvw
    rw [hwords]
    cases hs with
    | nextFormal hw => simpa using Place.Follows.inFormals ⟨hb, .next hfs hw⟩
    | lastFormal hw => exact .headed ⟨hb, .some hfs, hw⟩
  | inner hb he =>
    cases hs with
    | localVar hw => simpa using Place.Follows.inBlock (hb.addDecl he (hvar hw))

/-! ## Expressions -/

/-- An operator after an operand joins the pending work. -/
theorem Waits.pendOperator {pending pending' : List Pending} {word : Fixed} {binding : Nat}
    {operand : Expr} (h : Waits pending ts) (he : Derives .term us operand)
    (hb : word.binding? = some binding) (ht : token.terminal = .fixed word)
    (hp : pendOperator? binding word.spelling operand pending = some pending') :
    Waits pending' (ts ++ us ++ [token]) := by
  have he' : level 6 us operand := .termIsUnary he
  have hle : binding ≤ 5 := by cases word <;> cases hb <;> decide
  by_cases h3 : binding = 3
  · subst h3
    obtain ⟨vs, ws, hs, hw, hl, hd⟩ :=
      h.settled (by decide : 4 ≤ 6) (Nat.le_refl 6) (ready_six h) he'
    simp only [pendOperator?, if_true] at hp
    split at hp
    · cases hp
    · next left rest hne hsettle =>
      cases hp
      rw [hsettle] at hw hl hd
      rw [hs]
      refine .binary hw hb ?_ hd ht
      -- what is left binds less than addition, and is no comparison
      match rest, hl, hne with
      | [], _, _ => trivial
      | .assign _ :: _, _, _ => exact Nat.succ_pos 2
      | .binary own _ _ :: _, hl, hne =>
        have hl : own < 4 := hl
        have : own ≠ 3 := by rintro rfl; exact hne _ _ _ rfl
        show own < 3
        omega
  · obtain ⟨vs, ws, hs, hw, hl, hd⟩ :=
      h.settled (by omega : binding ≤ 6) (Nat.le_refl 6) (ready_six h) he'
    simp only [pendOperator?, if_neg h3, Option.some.injEq] at hp
    subst hp
    rw [hs]
    exact .binary hw hb hl (by simpa [leftLevel, h3] using hd) ht

/-- The word that ends an expression. -/
theorem Hole.Follows.close {hole : Hole} {expr : Expr} (h : hole.Follows ts)
    (he : Derives .exp us expr) (hs : hole.Closes expr token place) :
    place.Follows (ts ++ us ++ [token]) := by
  cases h with
  | assigned hb ht ha =>
    cases hs with
    | assigned hw =>
      have hstmt := Derives.assignStmt (Derives.assignExp ht ha he) hw
      simpa using Place.Follows.inBlock (hb.addStmt hstmt)
  | written hb hc ha =>
    cases hs with
    | written hw => simpa using Place.Follows.inBlock (hb.addStmt (.writeStmt hc ha he hw))
  | returned hb hr =>
    cases hs with
    | returned hw => simpa using Place.Follows.inBlock (hb.addStmt (.returnValueStmt hr he hw))
  | ifCondition hb hi ho =>
    cases hs with
    | ifCondition hw => simpa using Place.Follows.opened hb (.ifThen hi ho he hw)
  | loopCondition hb hi ho =>
    cases hs with
    | loopCondition hw => simpa using Place.Follows.opened hb (.loop hi ho he hw)
  | argumentOfCall hb hn ho hargs =>
    have hargs' := hargs.actual he
    rw [← List.reverse_cons] at hargs'
    cases hs with
    | lastOfCall hw => simpa using Place.Follows.called hb (.fnCall hn ho hargs' hw)
    | nextOfCall hw =>
      simpa using Place.Follows.atOperand (.argumentOfCall hb hn ho (.next hargs' hw)) .nil
  | argument hout hp hn ho hargs =>
    have hargs' := hargs.actual he
    rw [← List.reverse_cons] at hargs'
    cases hs with
    | lastArgument hw =>
      simpa using Place.Follows.afterValue hout hp (.callIsTerm (.fnCall hn ho hargs' hw))
    | nextArgument hw =>
      simpa using Place.Follows.atOperand (.argument hout hp hn ho (.next hargs' hw)) .nil
  | group hout hp ho =>
    cases hs with
    | group hw => simpa using Place.Follows.afterValue hout hp (.group ho he hw)

/-- The word that ends what needs no expression. -/
theorem Hole.Follows.closeEmpty {hole : Hole} (h : hole.Follows ts)
    (hs : hole.ClosesEmpty token place) : place.Follows (ts ++ [token]) := by
  cases hs with
  | returned hw =>
    cases h with
    | returned hb hr => simpa using Place.Follows.inBlock (hb.addStmt (.returnStmt hr hw))
  | argumentOfCall hw =>
    cases h with
    | argumentOfCall hb hn ho hargs =>
      cases hargs.nil_of_no_actuals
      simpa using Place.Follows.called hb (.fnCallNoActuals hn ho hw)
  | argument hw =>
    cases h with
    | argument hout hp hn ho hargs =>
      cases hargs.nil_of_no_actuals
      simpa using Place.Follows.afterValue hout hp (.callIsTerm (.fnCallNoActuals hn ho hw))

/-- A word after an operand. -/
theorem Hole.Follows.valueStep {hole : Hole} {pending : List Pending} {operand : Expr}
    (h : hole.Follows ts) (hp : Waits pending us) (he : Derives .term vs operand)
    (hs : ValueSteps pending hole operand token place) :
    place.Follows (ts ++ us ++ vs ++ [token]) := by
  cases hs with
  | operator hb ht hpend => simpa using Place.Follows.atOperand h (hp.pendOperator he hb ht hpend)
  | close hc => simpa using h.close (hp.settledAll he) hc

/-- A word where an operand starts. -/
theorem Hole.Follows.operandStep {hole : Hole} {pending : List Pending} (h : hole.Follows ts)
    (hp : Waits pending us) (hs : OperandSteps pending hole token place) :
    place.Follows (ts ++ us ++ [token]) := by
  cases hs with
  | name ht => exact .afterTarget (.operand h hp) (.idRef ht)
  | number ht => exact .afterValue h hp (.intLit ht)
  | text ht => exact .afterValue h hp (.strLit ht)
  | trueWord ht => exact .afterValue h hp (.trueLit ht)
  | falseWord ht => exact .afterValue h hp (.falseLit ht)
  | group ht => simpa using Place.Follows.atOperand (.group h hp ht) .nil
  | sign hm ht => simpa using Place.Follows.atOperand h (.unary hp hm ht)
  | close hn hc =>
    subst hn
    cases hp
    simpa using h.closeEmpty hc

/-- A word after a name or a chain of names and dots, where it is no dot. -/
theorem Seat.Follows.step {seat : Seat} {target : Expr} (h : seat.Follows ts)
    (ht : Derives .loc us target) (hs : seat.Steps target token place) :
    place.Follows (ts ++ us ++ [token]) := by
  cases h with
  | read hb hc ha =>
    cases hs with
    | read hw => simpa using Place.Follows.inBlock (hb.addStmt (.readStmt hc ha ht hw))
  | head hb =>
    cases hs with
    | assignment hw => simpa using Place.Follows.atOperand (.assigned hb ht hw) .nil
    | increment hw =>
      simpa using Place.Follows.counted hb fun semicolon => by
        simpa using Derives.postIncStmt ht hw
    | decrement hw =>
      simpa using Place.Follows.counted hb fun semicolon => by
        simpa using Derives.postDecStmt ht hw
    | callStmt he hw =>
      subst he
      cases ht with
      | idRef hn => simpa using Place.Follows.atOperand (.argumentOfCall hb hn hw .first) .nil
  | operand hh hp =>
    cases hs with
    | assign ho hw => simpa using Place.Follows.atOperand hh (.assign hp ho ht hw)
    | call he hw =>
      subst he
      cases ht with
      | idRef hn => simpa using Place.Follows.atOperand (.argument hh hp hn hw .first) .nil
    | value hv => exact hh.valueStep hp (.locIsTerm ht) hv

/-! ## Places -/

namespace Place

theorem Follows.step (h : place.Follows ts) {place' : Place} (hs : place.Steps token place') :
    place'.Follows (ts ++ [token]) := by
  cases hs with
  | between ht =>
    cases h with
    | between hds => exact Slot.Follows.typeStep (.top hds) ht
  | tag ht =>
    cases h with
    | structWord hslot hw =>
      cases hslot with
      | top hds => simpa using Place.Follows.tagged hds hw ht
  | structType _ ht =>
    cases h with
    | structWord hslot hw => simpa using Place.Follows.typed hslot (.structType hw ht)
  | openStruct ho =>
    cases h with
    | tagged hds hw ht => simpa using Place.Follows.inStruct ⟨hds, hw, ht, ho, .none⟩
  | taggedName hn =>
    cases h with
    | tagged hds hw ht => simpa using Place.Follows.named (.top hds) (.structType hw ht) hn
  | name hn =>
    cases h with
    | typed hslot ht => exact .named hslot ht hn
  | named hs =>
    cases h with
    | named hslot ht hn => exact hslot.step ht hn hs
  | closeStruct hn hc =>
    cases h with
    | inStruct hfs => exact .structEnd hfs hn hc
  | field ht =>
    cases h with
    | inStruct hfs => exact Slot.Follows.typeStep (.field hfs) ht
  | endStruct hw =>
    cases h with
    | structEnd hfs hn hc => exact .between (hfs.close hn hc hw)
  | noFormals hn hc =>
    cases h with
    | inFormals hh =>
      obtain ⟨hb, hfs⟩ := hh
      rw [hn] at hfs
      cases hfs.nil_of_no_formals
      exact .headed ⟨hb, by rw [hn]; exact .none, hc⟩
  | formal ht =>
    cases h with
    | inFormals hh => exact Slot.Follows.typeStep (.formal hh) ht
  | body ho =>
    cases h with
    | headed hh => exact .inBlock (hh.enter ho)
  | inBlock hs =>
    cases h with
    | inBlock hb => exact hb.step hs
  | ifCondition ho =>
    cases h with
    | ifWord hb hw => simpa using Place.Follows.atOperand (.ifCondition hb hw ho) .nil
  | loopCondition ho =>
    cases h with
    | whileWord hb hw => simpa using Place.Follows.atOperand (.loopCondition hb hw ho) .nil
  | enter ho =>
    cases h with
    | opened hb hop => simpa using Place.Follows.inBlock (hb.enter hop ho)
  | readArrow ha =>
    cases h with
    | cinWord hb hw => simpa using Place.Follows.readArrow hb hw ha
  | readName hn =>
    cases h with
    | readArrow hb hw ha => exact .afterTarget (.read hb hw ha) (.idRef hn)
  | writeArrow ha =>
    cases h with
    | coutWord hb hw => simpa using Place.Follows.atOperand (.written hb hw ha) .nil
  | operand hs =>
    cases h with
    | atOperand hh hp => exact hh.operandStep hp hs
  | dot hd =>
    cases h with
    | afterTarget hseat ht => exact .afterDot hseat ht hd
  | target hs =>
    cases h with
    | afterTarget hseat ht => exact hseat.step ht hs
  | member hn =>
    cases h with
    | afterDot hseat ho hd => simpa using Place.Follows.afterTarget hseat (.dotAccess ho hd hn)
  | value hv =>
    cases h with
    | afterValue hh hp he => exact hh.valueStep hp he hv
  | counted hw =>
    cases h with
    | counted hb hstmt => simpa using Place.Follows.inBlock (hb.addStmt (hstmt token hw))
  | called hw =>
    cases h with
    | called hb hc => simpa using Place.Follows.inBlock (hb.addStmt (.callStmt hc hw))

theorem Follows.program {program : Program} (h : place.Follows ts)
    (hp : place.program? = some program) : Derives .start ts program := by
  cases h with
  | between hds => cases hp; exact .start hds
  | _ => cases hp

end Place

end Moo
