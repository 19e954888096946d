import Moo.Proofs.Grammar

/-!
# What a place knows of the words read so far

`Place.Follows place tokens`: the words `tokens` are the front of a program
that stops at `place`, and every finished part that the place holds is the
value of a derivation over its words. The parts of a place have predicates
of their own, over the words from the start of the program (`Header`,
`Slot`, `Block`, `Hole`, `Seat`) or over their own words only (`Opener`,
`Waits` for pending work).

* `Waits.settled`: combining an operand with pending work derives the
  combined expression, and leaves no work that binds as tightly.
* `Place.Follows.step`: one more word keeps `Follows`.
* `Place.Follows.program`: where a program may end, all words are derived
  from `start`.
-/
namespace Moo

/-! ## Lists in the making -/

/-- Things without a word, or things of a list that is not empty. -/
inductive Gathered {α : Type} (rule : List Token → List α → Prop) : List Token → List α → Prop
  | none : Gathered rule [] []
  | some {ts xs} : rule ts xs → Gathered rule ts xs

/-- Where a thing between commas starts: it is the first, or it comes after some and a comma. -/
inductive Awaited {α : Type} (rule : List Token → List α → Prop) : List Token → List α → Prop
  | first : Awaited rule [] []
  | next {ts xs comma} : rule ts xs → comma.terminal = .fixed .comma →
    Awaited rule (ts ++ [comma]) xs

namespace Derives

variable {ts us : List Token} {ds : List Decl} {d : Decl}

theorem consDecl (h : Derives .decls ts ds.reverse) (hd : Derives .decl us d) :
    Derives .decls (ts ++ us) (d :: ds).reverse := by
  rw [List.reverse_cons]
  exact .moreDecls h hd

theorem consLocal (h : Derives .declList ts ds.reverse) (hd : Derives .varDecl us d) :
    Derives .declList (ts ++ us) (d :: ds).reverse := by
  rw [List.reverse_cons]
  exact .moreLocals h hd

theorem consStmt {ss : List Stmt} {s : Stmt} (h : Derives .stmtList ts ss.reverse)
    (hs : Derives .stmt us s) : Derives .stmtList (ts ++ us) (s :: ss).reverse := by
  rw [List.reverse_cons]
  exact .moreStmts h hs

end Derives

theorem Gathered.field {ts us : List Token} {ds : List Decl} {d : Decl}
    (h : Gathered (Derives .fields) ts ds) (hd : Derives .varDecl us d) :
    Derives .fields (ts ++ us) (ds ++ [d]) := by
  cases h with
  | none => exact .oneField hd
  | some hds => exact .moreFields hds hd

theorem Derives.formals_ne_nil {ts : List Token} : ¬ Derives .formals ts [] := by
  generalize hs : ([] : List Decl) = ds
  intro h
  cases h with
  | oneFormal => cases hs
  | moreFormals => simp at hs

theorem Derives.actuals_ne_nil {ts : List Token} : ¬ Derives .actuals ts [] := by
  generalize hs : ([] : List Expr) = es
  intro h
  cases h with
  | oneActual => cases hs
  | moreActuals => simp at hs

namespace Awaited

theorem formal {ts us : List Token} {ds : List Decl} {d : Decl}
    (h : Awaited (Derives .formals) ts ds) (hd : Derives .formalDecl us d) :
    Derives .formals (ts ++ us) (ds ++ [d]) := by
  cases h with
  | first => exact .oneFormal hd
  | next hds hc => exact (Derives.moreFormals hds hc hd).of_eq (by simp)

theorem actual {ts us : List Token} {es : List Expr} {e : Expr}
    (h : Awaited (Derives .actuals) ts es) (he : Derives .exp us e) :
    Derives .actuals (ts ++ us) (es ++ [e]) := by
  cases h with
  | first => exact .oneActual he
  | next hes hc => exact (Derives.moreActuals hes hc he).of_eq (by simp)

theorem nil_of_no_formals {ts : List Token} (h : Awaited (Derives .formals) ts []) : ts = [] := by
  cases h with
  | first => rfl
  | next hds _ => exact (Derives.formals_ne_nil hds).elim

theorem nil_of_no_actuals {ts : List Token} (h : Awaited (Derives .actuals) ts []) : ts = [] := by
  cases h with
  | first => rfl
  | next hes _ => exact (Derives.actuals_ne_nil hes).elim

end Awaited

/-! ## Heads of declarations, and blocks -/

/-- The words up to the parenthesis that opens the formals, whichever formals there are. -/
inductive Header.Begins : Header → List Token → Prop
  | intro {before returns name openParen formals ts us} : Derives .decls ts before.reverse →
    Derives .type us returns → name.terminal = .ident → openParen.terminal = .fixed .openParen →
    Header.Begins ⟨before, returns, name.ident, formals⟩ (ts ++ us ++ [name, openParen])

/-- The words up to where a formal starts. -/
inductive Header.Follows : Header → List Token → Prop
  | intro {header ts us} : header.Begins ts →
    Awaited (Derives .formals) us header.formals.reverse → Header.Follows header (ts ++ us)

/-- The words up to the parenthesis that closes the formals. -/
inductive Header.Ends : Header → List Token → Prop
  | intro {header ts us closeParen} : header.Begins ts →
    Gathered (Derives .formals) us header.formals.reverse →
    closeParen.terminal = .fixed .closeParen → Header.Ends header (ts ++ us ++ [closeParen])

/-- The words of an opener, up to the brace of its block. -/
inductive Opener.Heads : Opener → List Token → Prop
  | loop {word openParen ts e closeParen} : word.terminal = .fixed .whileWord →
    openParen.terminal = .fixed .openParen → Derives .exp ts e →
    closeParen.terminal = .fixed .closeParen →
    Opener.Heads (.loop e) (word :: openParen :: ts ++ [closeParen])
  | ifThen {word openParen ts e closeParen} : word.terminal = .fixed .ifWord →
    openParen.terminal = .fixed .openParen → Derives .exp ts e →
    closeParen.terminal = .fixed .closeParen →
    Opener.Heads (.ifThen e) (word :: openParen :: ts ++ [closeParen])
  | ifElse {word openParen ts e closeParen us decls stmts elseWord} :
    word.terminal = .fixed .ifWord → openParen.terminal = .fixed .openParen →
    Derives .exp ts e → closeParen.terminal = .fixed .closeParen →
    Derives .block us (decls, stmts) → elseWord.terminal = .fixed .elseWord →
    Opener.Heads (.ifElse e decls stmts) (word :: openParen :: ts ++ closeParen :: us ++ [elseWord])

/-- The words up to where a declaration or a statement of the block starts. -/
inductive Block.Follows : Block → List Token → Prop
  | function {header ts openBrace us decls vs stmts} : header.Ends ts →
    openBrace.terminal = .fixed .openBrace → Derives .declList us decls.reverse →
    Derives .stmtList vs stmts.reverse →
    Block.Follows (.function header decls stmts) (ts ++ openBrace :: us ++ vs)
  | nested {outer opener ts us openBrace vs decls ws stmts} : Block.Follows outer ts →
    opener.Heads us → openBrace.terminal = .fixed .openBrace →
    Derives .declList vs decls.reverse → Derives .stmtList ws stmts.reverse →
    Block.Follows (.nested opener outer decls stmts) (ts ++ us ++ openBrace :: vs ++ ws)

/-- The words up to where a field of a struct starts. -/
inductive FollowsFields : List Decl → Ident → List Decl → List Token → Prop
  | intro {before word tag openBrace fields ts us} : Derives .decls ts before.reverse →
    word.terminal = .fixed .struct → tag.terminal = .ident →
    openBrace.terminal = .fixed .openBrace → Gathered (Derives .fields) us fields.reverse →
    FollowsFields before tag.ident fields (ts ++ word :: tag :: openBrace :: us)

/-- The words up to where the type starts. -/
inductive Slot.Follows : Slot → List Token → Prop
  | top {decls ts} : Derives .decls ts decls.reverse → Slot.Follows (.top decls) ts
  | field {before tag fields ts} : FollowsFields before tag fields ts →
    Slot.Follows (.field before tag fields) ts
  | formal {header ts} : header.Follows ts → Slot.Follows (.formal header) ts
  | inner {block ts} : block.Follows ts → block.stmts = [] → Slot.Follows (.inner block) ts

theorem Derives.nil_of_no_stmts {ts : List Token} (h : Derives .stmtList ts []) : ts = [] := by
  generalize hs : ([] : List Stmt) = ss at h
  cases h with
  | noStmts => rfl
  | moreStmts => simp at hs

theorem Derives.unsnoc_stmt {ts : List Token} {ss : List Stmt} {s : Stmt}
    (h : Derives .stmtList ts (ss ++ [s])) :
    ∃ us vs, ts = us ++ vs ∧ Derives .stmtList us ss ∧ Derives .stmt vs s := by
  generalize hs : ss ++ [s] = ss' at h
  cases h with
  | noStmts => simp at hs
  | moreStmts hss hs' =>
    obtain ⟨rfl, hl⟩ := List.append_inj' hs rfl
    cases hl
    exact ⟨_, _, rfl, hss, hs'⟩

namespace Block.Follows

variable {block : Block} {ts us : List Token}

theorem addDecl {decl : Decl} (h : block.Follows ts) (hn : block.stmts = [])
    (hd : Derives .varDecl us decl) : (block.addDecl decl).Follows (ts ++ us) := by
  cases h with
  | function hh hb hds hss =>
    cases hn
    cases hss.nil_of_no_stmts
    simpa [Block.addDecl] using Block.Follows.function hh hb (hds.consLocal hd) hss
  | nested ho hh hb hds hss =>
    cases hn
    cases hss.nil_of_no_stmts
    simpa [Block.addDecl] using Block.Follows.nested ho hh hb (hds.consLocal hd) hss

theorem addStmt {stmt : Stmt} (h : block.Follows ts) (hs : Derives .stmt us stmt) :
    (block.addStmt stmt).Follows (ts ++ us) := by
  cases h with
  | function hh hb hds hss =>
    simpa [Block.addStmt, Block.withStmts, Block.stmts] using
      Block.Follows.function hh hb hds (hss.consStmt hs)
  | nested ho hh hb hds hss =>
    simpa [Block.addStmt, Block.withStmts, Block.stmts] using
      Block.Follows.nested ho hh hb hds (hss.consStmt hs)

/-- The last statement of a block can be taken back. -/
theorem dropStmt {stmt : Stmt} {before : List Stmt} (h : block.Follows ts)
    (hs : block.stmts = stmt :: before) :
    ∃ us vs, ts = us ++ vs ∧ (block.withStmts before).Follows us ∧ Derives .stmt vs stmt := by
  cases h with
  | function hh hb hds hss =>
    cases hs
    rw [List.reverse_cons] at hss
    obtain ⟨us, vs, rfl, hus, hvs⟩ := hss.unsnoc_stmt
    exact ⟨_, vs, (List.append_assoc ..).symm, .function hh hb hds hus, hvs⟩
  | nested ho hh hb hds hss =>
    cases hs
    rw [List.reverse_cons] at hss
    obtain ⟨us, vs, rfl, hus, hvs⟩ := hss.unsnoc_stmt
    exact ⟨_, vs, (List.append_assoc ..).symm, .nested ho hh hb hds hus, hvs⟩

end Block.Follows

/-- A block after its opener is a statement. -/
theorem Opener.Heads.close {opener : Opener} {ts us : List Token} {decls : List Decl}
    {stmts : List Stmt} (h : opener.Heads ts)
    (hb : Derives .block us (decls.reverse, stmts.reverse)) :
    Derives .stmt (ts ++ us) (opener.close decls stmts) := by
  cases h with
  | loop hw ho he hc => exact (Derives.whileStmt hw ho he hc hb).of_eq (by simp)
  | ifThen hw ho he hc => exact (Derives.ifStmt hw ho he hc hb).of_eq (by simp)
  | ifElse hw ho he hc ht hel => exact (Derives.ifElseStmt hw ho he hc ht hel hb).of_eq (by simp)

/-- The formals read so far, with one more, as they stand in front of a comma or parenthesis. -/
theorem Header.Follows.addFormal {header : Header} {ts us : List Token} {d : Decl}
    (h : header.Follows ts) (hd : Derives .formalDecl us d) :
    ∃ vs ws, ts ++ us = vs ++ ws ∧
      { header with formals := d :: header.formals }.Begins vs ∧
      Derives .formals ws (d :: header.formals).reverse := by
  obtain ⟨⟨hds, ht, hn, ho⟩, hfs⟩ := h
  refine ⟨_, _, List.append_assoc .., ⟨hds, ht, hn, ho⟩, ?_⟩
  rw [List.reverse_cons]
  exact hfs.formal hd

/-! ## Expressions -/

/-- What is left of pending work may wait while operators of a binding are combined: it binds less
tightly, and it is no sign in front of an operand. -/
def Looser (binding : Nat) : List Pending → Prop
  | [] => True
  | .assign _ :: _ => 0 < binding
  | .binary own _ _ :: _ => own < binding
  | .unary _ :: _ => False

/-- What may be combined with the innermost pending work: an operand of a sign needs no operator of
its own, one of an operator binds more tightly. -/
def Ready (k : Nat) : List Pending → Prop
  | [] | .assign _ :: _ => True
  | .binary own _ _ :: _ => own < k
  | .unary _ :: _ => 6 ≤ k

/-- The words of pending work, from where the expression starts. -/
inductive Waits : List Pending → List Token → Prop
  | nil : Waits [] []
  | assign {pending ts us target becomes} : Waits pending ts → onlyAssigns pending = true →
    Derives .loc us target → becomes.terminal = .fixed .becomes →
    Waits (.assign target :: pending) (ts ++ us ++ [becomes])
  | binary {pending ts word binding us left token} : Waits pending ts →
    word.binding? = some binding → Looser binding pending → level (leftLevel binding) us left →
    token.terminal = .fixed word →
    Waits (.binary binding word.spelling left :: pending) (ts ++ us ++ [token])
  | unary {pending ts op token} : Waits pending ts → op ∈ [Fixed.minus, .not] →
    token.terminal = .fixed op → Waits (.unary op.spelling :: pending) (ts ++ [token])

/-- The words up to where the expression starts. -/
inductive Hole.Follows : Hole → List Token → Prop
  | assigned {block ts us target becomes} : block.Follows ts → Derives .loc us target →
    becomes.terminal = .fixed .becomes → Hole.Follows (.assigned block target) (ts ++ us ++ [becomes])
  | written {block ts word arrow} : block.Follows ts → word.terminal = .fixed .cout →
    arrow.terminal = .fixed .writeArrow → Hole.Follows (.written block) (ts ++ [word, arrow])
  | returned {block ts word} : block.Follows ts → word.terminal = .fixed .returnWord →
    Hole.Follows (.returned block) (ts ++ [word])
  | ifCondition {block ts word openParen} : block.Follows ts → word.terminal = .fixed .ifWord →
    openParen.terminal = .fixed .openParen → Hole.Follows (.ifCondition block) (ts ++ [word, openParen])
  | loopCondition {block ts word openParen} : block.Follows ts →
    word.terminal = .fixed .whileWord → openParen.terminal = .fixed .openParen →
    Hole.Follows (.loopCondition block) (ts ++ [word, openParen])
  | argumentOfCall {block ts name openParen us args} : block.Follows ts → name.terminal = .ident →
    openParen.terminal = .fixed .openParen → Awaited (Derives .actuals) us args.reverse →
    Hole.Follows (.argumentOfCall block name.ident args) (ts ++ name :: openParen :: us)
  | argument {outer ts pending us name openParen vs args} : Hole.Follows outer ts →
    Waits pending us → name.terminal = .ident → openParen.terminal = .fixed .openParen →
    Awaited (Derives .actuals) vs args.reverse →
    Hole.Follows (.argument name.ident args pending outer) (ts ++ us ++ name :: openParen :: vs)
  | group {outer ts pending us openParen} : Hole.Follows outer ts → Waits pending us →
    openParen.terminal = .fixed .openParen →
    Hole.Follows (.group pending outer) (ts ++ us ++ [openParen])

/-- The words up to where the name, or the chain of names and dots, starts. -/
inductive Seat.Follows : Seat → List Token → Prop
  | read {block ts word arrow} : block.Follows ts → word.terminal = .fixed .cin →
    arrow.terminal = .fixed .readArrow → Seat.Follows (.read block) (ts ++ [word, arrow])
  | head {block ts} : block.Follows ts → Seat.Follows (.head block) ts
  | operand {pending us hole ts} : hole.Follows ts → Waits pending us →
    Seat.Follows (.operand pending hole) (ts ++ us)

inductive Place.Follows : Place → List Token → Prop
  | between {decls ts} : Derives .decls ts decls.reverse → Place.Follows (.between decls) ts
  | structWord {slot ts word} : slot.Follows ts → word.terminal = .fixed .struct →
    Place.Follows (.structWord slot) (ts ++ [word])
  | tagged {decls ts word tag} : Derives .decls ts decls.reverse →
    word.terminal = .fixed .struct → tag.terminal = .ident →
    Place.Follows (.tagged decls tag.ident) (ts ++ [word, tag])
  | typed {slot ts us type} : slot.Follows ts → Derives .type us type →
    Place.Follows (.typed slot type) (ts ++ us)
  | named {slot ts us type name} : slot.Follows ts → Derives .type us type →
    name.terminal = .ident → Place.Follows (.named slot type name.ident) (ts ++ us ++ [name])
  | inStruct {before tag fields ts} : FollowsFields before tag fields ts →
    Place.Follows (.inStruct before tag fields) ts
  | structEnd {before tag fields ts closeBrace} : FollowsFields before tag fields ts →
    fields ≠ [] → closeBrace.terminal = .fixed .closeBrace →
    Place.Follows (.structEnd before tag fields) (ts ++ [closeBrace])
  | inFormals {header ts} : header.Follows ts → Place.Follows (.inFormals header) ts
  | headed {header ts} : header.Ends ts → Place.Follows (.headed header) ts
  | inBlock {block ts} : block.Follows ts → Place.Follows (.inBlock block) ts
  | ifWord {block ts word} : block.Follows ts → word.terminal = .fixed .ifWord →
    Place.Follows (.ifWord block) (ts ++ [word])
  | whileWord {block ts word} : block.Follows ts → word.terminal = .fixed .whileWord →
    Place.Follows (.whileWord block) (ts ++ [word])
  | opened {block ts opener us} : block.Follows ts → opener.Heads us →
    Place.Follows (.opened block opener) (ts ++ us)
  | cinWord {block ts word} : block.Follows ts → word.terminal = .fixed .cin →
    Place.Follows (.cinWord block) (ts ++ [word])
  | readArrow {block ts word arrow} : block.Follows ts → word.terminal = .fixed .cin →
    arrow.terminal = .fixed .readArrow → Place.Follows (.readArrow block) (ts ++ [word, arrow])
  | coutWord {block ts word} : block.Follows ts → word.terminal = .fixed .cout →
    Place.Follows (.coutWord block) (ts ++ [word])
  | atOperand {pending us hole ts} : hole.Follows ts → Waits pending us →
    Place.Follows (.atOperand pending hole) (ts ++ us)
  | afterTarget {seat ts us target} : seat.Follows ts → Derives .loc us target →
    Place.Follows (.afterTarget seat target) (ts ++ us)
  | afterDot {seat ts us object dot} : seat.Follows ts → Derives .loc us object →
    dot.terminal = .fixed .dot → Place.Follows (.afterDot seat object) (ts ++ us ++ [dot])
  | afterValue {pending us hole ts operand vs} : hole.Follows ts → Waits pending us →
    Derives .term vs operand → Place.Follows (.afterValue pending hole operand) (ts ++ us ++ vs)
  | counted {block ts stmt us} : block.Follows ts →
    (∀ semicolon : Token, semicolon.terminal = .fixed .semicolon →
      Derives .stmt (us ++ [semicolon]) stmt) →
    Place.Follows (.counted block stmt) (ts ++ us)
  | called {block ts call us} : block.Follows ts → Derives .fnCall us call →
    Place.Follows (.called block call) (ts ++ us)

/-! ## Combining operands -/

theorem Looser.ready {binding : Nat} {pending : List Pending} (h : Looser binding pending) :
    Ready binding pending := by
  match pending, h with
  | [], _ => trivial
  | .assign _ :: _, _ => trivial
  | .binary _ _ _ :: _, h => exact h

theorem ready_of_onlyAssigns {k : Nat} {pending : List Pending} (h : onlyAssigns pending = true) :
    Ready k pending := by
  match pending, h with
  | [], _ => trivial
  | .assign _ :: _, _ => trivial

theorem ready_six {pending : List Pending} {ts : List Token} (h : Waits pending ts) :
    Ready 6 pending := by
  cases h with
  | nil => trivial
  | assign => trivial
  | @binary _ _ word binding _ _ _ _ hw =>
    show binding < 6
    cases word <;> cases hw <;> decide
  | unary => exact Nat.le_refl 6

theorem nil_of_looser_zero {pending : List Pending} (h : Looser 0 pending) : pending = [] := by
  match pending, h with
  | [], _ => rfl
  | .assign _ :: _, h => exact (Nat.lt_irrefl 0 h).elim
  | .binary _ _ _ :: _, h => exact (Nat.not_lt_zero _ h).elim

/-- Settling at a binding turns an operand that the pending work is ready for into an expression of
that level, and what is still pending binds less tightly. -/
theorem Waits.settled {binding : Nat} {pending : List Pending} {ts : List Token}
    (h : Waits pending ts) : ∀ {k : Nat} {us : List Token} {e : Expr}, binding ≤ k → k ≤ 6 →
    Ready k pending → level k us e →
    ∃ vs ws, ts ++ us = vs ++ ws ∧ Waits (settle binding e pending).2 vs ∧
      Looser binding (settle binding e pending).2 ∧ level binding ws (settle binding e pending).1 := by
  induction h with
  | nil =>
    intro k us e hb _ _ he
    exact ⟨[], us, rfl, .nil, trivial, Derives.loosen hb he⟩
  | @assign pending ts vs target becomes hp ho ht ha ih =>
    intro k us e hb _ _ he
    by_cases h0 : binding = 0
    · subst h0
      have he' : level 0 (vs ++ becomes :: us) (.assign target e) :=
        Derives.assignIsExp (.assignExp ht ha (Derives.loosen (Nat.zero_le k) he))
      obtain ⟨as, bs, hs, hw⟩ := ih (Nat.le_refl 0) (Nat.zero_le 6) (ready_of_onlyAssigns ho) he'
      exact ⟨as, bs, by simpa using hs, by simpa [settle] using hw⟩
    · simp only [settle, if_neg h0]
      exact ⟨_, us, rfl, .assign hp ho ht ha, Nat.pos_of_ne_zero h0, Derives.loosen hb he⟩
  | @binary pending ts word own vs left token hp hw hl hleft ht ih =>
    intro k us e hb h6 hr he
    have hr : own < k := hr
    by_cases hown : binding ≤ own
    · have he' := Derives.operator hw hleft ht (Derives.loosen hr he)
      obtain ⟨as, bs, hs, hw'⟩ := ih hown (by omega) hl.ready he'
      exact ⟨as, bs, by simpa using hs, by simpa [settle, hown] using hw'⟩
    · simp only [settle, if_neg hown]
      exact ⟨_, us, rfl, .binary hp hw hl hleft ht, Nat.lt_of_not_le hown, Derives.loosen hb he⟩
  | @unary pending ts op token hp ho ht ih =>
    intro k us e hb h6 hr he
    obtain rfl : k = 6 := Nat.le_antisymm h6 hr
    have he' : level 6 (token :: us) (.unary op.spelling e) := Derives.unaryOp ho ht he
    obtain ⟨as, bs, hs, hw'⟩ := ih hb (Nat.le_refl 6) (ready_six hp) he'
    exact ⟨as, bs, by simpa using hs, by simpa [settle] using hw'⟩

/-- All pending work together with an operand is one expression. -/
theorem Waits.settledAll {pending : List Pending} {ts us : List Token} {e : Expr}
    (h : Waits pending ts) (he : Derives .term us e) :
    Derives .exp (ts ++ us) (settleAll e pending) := by
  have he' : level 6 us e := Derives.termIsUnary he
  obtain ⟨vs, ws, hs, hw, hl, hd⟩ :=
    h.settled (Nat.zero_le 6) (Nat.le_refl 6) (ready_six h) he'
  rw [nil_of_looser_zero hl] at hw
  cases hw
  rw [hs]
  exact hd

end Moo
