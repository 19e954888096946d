import Moo.Proofs.Reading.Soundness
import Moo.Proofs.Tree.WellFormed

/-!
# Where the parts of a tree stand

Every identifier of a tree that was read is a word of the text, and the
identifiers stand in the tree in the order of these words. As each word of a
text starts behind the one before it, no two identifiers share a location.

* `Loc.Before`: the order of lines and columns; `Loc.before_past`: going on
  in a text goes on in this order.
* `Cut.ordered`: the words of a text stand one behind the other.
* `Derives.written`: the occurrences in a tree are made of its words, in
  their order, and none has a symbol.
* `parse_written`, `parse_placed`: both for whole texts.
-/
namespace Moo

/-! ## The order of locations -/

namespace Loc

/-- On an earlier line, or further left on the same. -/
def Before (a b : Loc) : Prop :=
  a.line < b.line ∨ a.line = b.line ∧ a.column < b.column

theorem Before.trans {a b c : Loc} (h : a.Before b) (h' : b.Before c) : a.Before c := by
  unfold Before at *
  omega

theorem Before.ne {a b : Loc} (h : a.Before b) : a ≠ b := by
  rintro rfl
  unfold Before at h
  omega

theorem before_next (loc : Loc) (c : Char) : loc.Before (loc.next c) := by
  unfold next
  split
  · exact .inl (Int.lt_succ _)
  · exact .inr ⟨rfl, Int.lt_succ _⟩

/-- Behind a text that is not empty. -/
theorem before_past (loc : Loc) {text : List Char} (h : text ≠ []) :
    loc.Before (loc.past text) := by
  induction text generalizing loc with
  | nil => exact absurd rfl h
  | cons c text ih =>
    rw [past_cons]
    by_cases ht : text = []
    · simpa [ht] using loc.before_next c
    · exact (loc.before_next c).trans (ih (loc.next c) ht)

/-- A location that is not behind the other. -/
theorem past_eq_or_before (loc : Loc) (text : List Char) :
    loc = loc.past text ∨ loc.Before (loc.past text) := by
  by_cases h : text = []
  · exact .inl (by simp [h])
  · exact .inr (loc.before_past h)

end Loc

/-- The words of a text stand one behind the other, none in front of the text. -/
theorem Cut.ordered {loc : Loc} {text : List Char} {tokens : List Token} (h : Cut loc text tokens) :
    (∀ t ∈ tokens, loc = t.loc ∨ loc.Before t.loc) ∧
      tokens.Pairwise fun a b => a.loc.Before b.loc := by
  induction h with
  | last => simp
  | @word loc gap rest tokens token _ hlex hl _ ih =>
    obtain ⟨hall, hpair⟩ := ih
    have hgap := loc.past_eq_or_before gap
    rw [← hl] at hgap
    have hword : token.loc.Before (loc.past (gap ++ token.text.toList)) := by
      rw [Loc.past_append, ← hl]
      exact token.loc.before_past hlex.ne_nil
    have hlater : ∀ t ∈ tokens, token.loc.Before t.loc := by
      intro t ht
      rcases hall t ht with heq | hbefore
      · exact heq ▸ hword
      · exact hword.trans hbefore
    refine ⟨?_, List.pairwise_cons.2 ⟨hlater, hpair⟩⟩
    intro t ht
    rcases List.mem_cons.1 ht with rfl | ht
    · exact hgap
    · rcases hgap with heq | hbefore
      · exact .inr (heq ▸ hlater t ht)
      · exact .inr (hbefore.trans (hlater t ht))

/-! ## Occurrences and words -/

/-- The locations of the identifiers among some occurrences. -/
def locsOf (occurrences : List Occurrence) : List (Option Loc) :=
  occurrences.filterMap fun
    | .ident id => some id.loc
    | .dot .. | .stray _ => none

@[simp]
theorem locsOf_nil : locsOf [] = [] := rfl

@[simp]
theorem locsOf_ident (id : Ident) (rest : List Occurrence) :
    locsOf (.ident id :: rest) = id.loc :: locsOf rest := rfl

@[simp]
theorem locsOf_dot (field : Ident) (symbol : Option Symbol) (rest : List Occurrence) :
    locsOf (.dot field symbol :: rest) = locsOf rest := rfl

@[simp]
theorem locsOf_stray (symbol : Option Symbol) (rest : List Occurrence) :
    locsOf (.stray symbol :: rest) = locsOf rest := rfl

@[simp]
theorem locsOf_append (a b : List Occurrence) : locsOf (a ++ b) = locsOf a ++ locsOf b :=
  List.filterMap_append

theorem mem_locsOf {id : Ident} {occurrences : List Occurrence} (h : .ident id ∈ occurrences) :
    id.loc ∈ locsOf occurrences :=
  List.mem_filterMap.2 ⟨.ident id, h, rfl⟩

/-- If no two identifiers share a location, then the location tells which identifier it is. -/
theorem ident_eq_of_loc {occurrences : List Occurrence} (h : (locsOf occurrences).Nodup)
    {a b : Ident} (ha : .ident a ∈ occurrences) (hb : .ident b ∈ occurrences)
    (hl : a.loc = b.loc) : a = b := by
  induction occurrences with
  | nil => cases ha
  | cons o rest ih =>
    cases o with
    | dot _ _ | stray _ => exact ih h (by simpa using ha) (by simpa using hb)
    | ident id =>
      obtain ⟨hn, hrest⟩ := List.nodup_cons.1 h
      simp only [List.mem_cons, Occurrence.ident.injEq] at ha hb
      rcases ha with rfl | ha <;> rcases hb with rfl | hb
      · rfl
      · exact absurd (hl ▸ mem_locsOf hb) hn
      · exact absurd (hl ▸ mem_locsOf ha) hn
      · exact ih hrest ha hb

/-- The occurrences are as they were read from the words: none has a symbol, and the identifiers are
some of the words, in their order. -/
structure Written (tokens : List Token) (occurrences : List Occurrence) : Prop where
  unresolved : Unresolved occurrences
  placed : List.Sublist (locsOf occurrences) (tokens.map fun t => some t.loc)

namespace Written

variable {ts us : List Token} {os ps : List Occurrence} {token : Token}

theorem nil : Written ts [] :=
  ⟨unresolved_nil, List.nil_sublist _⟩

theorem append (h : Written ts os) (h' : Written us ps) : Written (ts ++ us) (os ++ ps) := by
  refine ⟨unresolved_append _ _ |>.2 ⟨h.unresolved, h'.unresolved⟩, ?_⟩
  rw [locsOf_append, List.map_append]
  exact h.placed.append h'.placed

/-- A word that is no identifier. -/
theorem word (h : Written ts os) : Written (token :: ts) os :=
  ⟨h.unresolved, h.placed.cons _⟩

/-- Words behind the last identifier. -/
theorem before (h : Written ts os) : Written (ts ++ us) os := by
  simpa using h.append (nil : Written us [])

theorem ident (h : Written ts os) : Written (token :: ts) (.ident token.ident :: os) :=
  ⟨(unresolved_cons _ _).2 ⟨rfl, h.unresolved⟩, h.placed.cons_cons _⟩

theorem dot (h : Written ts os) : Written ts (.dot token.ident none :: os) :=
  ⟨(unresolved_cons _ _).2 ⟨rfl, h.unresolved⟩, h.placed⟩

end Written

/-- The occurrences in what the words of a nonterminal stand for. -/
def Nonterminal.occurrences : (n : Nonterminal) → n.Value → List Occurrence
  | .start, program => program.occurrences
  | .decls, ds | .fields, ds | .formals, ds | .declList, ds => Decl.occurrencesAll ds
  | .decl, d | .varDecl, d | .structDecl, d | .fnDecl, d | .formalDecl, d => d.occurrences
  | .fnBody, body | .block, body => Decl.occurrencesAll body.1 ++ Stmt.occurrencesAll body.2
  | .stmtList, ss => Stmt.occurrencesAll ss
  | .type, t => t.occurrences
  | .stmt, s => s.occurrences
  | .actuals, es => Expr.occurrencesAll es
  | .exp, e | .assignExp, e | .orExp, e | .andExp, e | .relExp, e | .addExp, e | .mulExp, e
  | .unaryExp, e | .term, e | .fnCall, e | .loc, e => e.occurrences

namespace Written

variable {ts us vs : List Token} {decls : List Decl} {stmts : List Stmt}

theorem snocDecl {decl : Decl} (h : Written ts (Decl.occurrencesAll decls))
    (hd : Written us decl.occurrences) :
    Written (ts ++ us) (Decl.occurrencesAll (decls ++ [decl])) := by
  rw [Decl.occurrencesAll_append]
  simpa [Decl.occurrencesAll] using h.append hd

theorem snocStmt {stmt : Stmt} (h : Written ts (Stmt.occurrencesAll stmts))
    (hs : Written us stmt.occurrences) :
    Written (ts ++ us) (Stmt.occurrencesAll (stmts ++ [stmt])) := by
  rw [Stmt.occurrencesAll_append]
  simpa [Stmt.occurrencesAll] using h.append hs

theorem snocExpr {exprs : List Expr} {expr : Expr} (h : Written ts (Expr.occurrencesAll exprs))
    (he : Written us expr.occurrences) :
    Written (ts ++ us) (Expr.occurrencesAll (exprs ++ [expr])) := by
  rw [Expr.occurrencesAll_append]
  simpa [Expr.occurrencesAll] using h.append he

theorem decl {decl : Decl} (h : Written ts decl.occurrences) :
    Written ts (Decl.occurrencesAll [decl]) := by
  simpa [Decl.occurrencesAll] using h

theorem expr {expr : Expr} (h : Written ts expr.occurrences) :
    Written ts (Expr.occurrencesAll [expr]) := by
  simpa [Expr.occurrencesAll] using h

/-- Declarations and statements in braces. -/
theorem braces {openBrace closeBrace : Token} (hd : Written ts (Decl.occurrencesAll decls))
    (hs : Written us (Stmt.occurrencesAll stmts)) :
    Written (openBrace :: ts ++ us ++ [closeBrace])
      (Decl.occurrencesAll decls ++ Stmt.occurrencesAll stmts) :=
  (hd.word.append hs).before

/-- A body, and what is in front of it. -/
theorem followed (h : Written ts os)
    (hb : Written us (Decl.occurrencesAll decls ++ Stmt.occurrencesAll stmts)) :
    Written (ts ++ us) (os ++ Decl.occurrencesAll decls ++ Stmt.occurrencesAll stmts) := by
  rw [List.append_assoc]
  exact h.append hb

end Written

/-- What words stand for holds their identifiers, in their order. -/
theorem Derives.written {n : Nonterminal} {tokens : List Token} {value : n.Value}
    (h : Derives n tokens value) : Written tokens (n.occurrences value) := by
  induction h with
  | start _ ih => exact ih
  | noDecls => exact .nil
  | noLocals => exact .nil
  | noStmts => exact .nil
  | moreDecls _ _ ihds ihd => exact ihds.snocDecl ihd
  | moreFields _ _ ihds ihd => exact ihds.snocDecl ihd
  | moreLocals _ _ ihds ihd => exact ihds.snocDecl ihd
  | moreFormals _ _ _ ihds ihd => exact ihds.snocDecl ihd.word
  | moreStmts _ _ ihss ihs => exact ihss.snocStmt ihs
  | moreActuals _ _ _ ihes ihe => exact ihes.snocExpr ihe.word
  | oneField _ ih => exact ih.decl
  | oneFormal _ ih => exact ih.decl
  | oneActual _ ih => exact ih.expr
  | varDeclIsDecl _ ih => exact ih
  | fnDeclIsDecl _ ih => exact ih
  | structDeclIsDecl _ ih => exact ih
  -- declarations and types
  | varDecl _ _ _ iht => exact iht.append (.ident .nil)
  | formalDecl _ _ iht => exact iht.append (.ident .nil)
  | structDecl _ _ _ _ _ _ ih => exact ih.word.ident.word.before
  | fnDecl _ _ _ _ _ _ iht ihfs ihb => exact (iht.append ihfs.word.ident).followed ihb.word
  | @fnDeclNoFormals _ _ name openParen _ _ _ _ _ _ _ _ iht ihb =>
    have hname : Written [name, openParen] [.ident name.ident] := .ident .nil
    simpa [Nonterminal.occurrences, Decl.occurrences, Decl.occurrencesAll] using
      (iht.append hname).followed ihb.word
  | fnBody _ _ _ _ ihds ihss => exact ihds.braces ihss
  | block _ _ _ _ ihds ihss => exact ihds.braces ihss
  | primitiveType _ _ => exact .nil
  | structType _ _ => exact .word (.ident .nil)
  -- statements
  | assignStmt _ _ ih => exact ih.before
  | postIncStmt _ _ _ ih => exact ih.before
  | postDecStmt _ _ _ ih => exact ih.before
  | callStmt _ _ ih => exact ih.before
  | readStmt _ _ _ _ ih => exact ih.word.word.before
  | writeStmt _ _ _ _ ih => exact ih.word.word.before
  | returnStmt _ _ => exact .nil
  | returnValueStmt _ _ _ ih => exact ih.word.before
  | ifStmt _ _ _ _ _ ihe ihb => exact ihe.word.word.followed ihb.word
  | whileStmt _ _ _ _ _ ihe ihb => exact ihe.word.word.followed ihb.word
  | ifElseStmt _ _ _ _ _ _ _ ihe iht ihf =>
    exact (ihe.word.word.followed iht.word).followed ihf.word
  -- expressions
  | assignIsExp _ ih => exact ih
  | orIsExp _ ih => exact ih
  | andIsOr _ ih => exact ih
  | relIsAnd _ ih => exact ih
  | addIsRel _ ih => exact ih
  | mulIsAdd _ ih => exact ih
  | unaryIsMul _ ih => exact ih
  | termIsUnary _ ih => exact ih
  | locIsTerm _ ih => exact ih
  | callIsTerm _ ih => exact ih
  | assignExp _ _ _ iht ihv => exact iht.append ihv.word
  | orOp _ _ _ ihl ihr => exact ihl.append ihr.word
  | andOp _ _ _ ihl ihr => exact ihl.append ihr.word
  | relOp _ _ _ _ ihl ihr => exact ihl.append ihr.word
  | addOp _ _ _ _ ihl ihr => exact ihl.append ihr.word
  | mulOp _ _ _ _ ihl ihr => exact ihl.append ihr.word
  | unaryOp _ _ _ ih => exact ih.word
  | intLit _ => exact .nil
  | strLit _ => exact .nil
  | trueLit _ => exact .nil
  | falseLit _ => exact .nil
  | group _ _ _ ih => exact ih.word.before
  | fnCall _ _ _ _ ih => exact ih.word.ident.before
  | fnCallNoActuals _ _ _ => exact .ident .nil
  | idRef _ => exact .ident .nil
  | dotAccess _ _ _ ih => exact .dot (ih.append (.word (.ident .nil)))

/-- A tree that was read has no symbols yet, all its identifiers have locations, and no two stand at
the same place. -/
theorem parse_written {source : String} {program : Program} (h : parse source = .ok program) :
    Unresolved program.occurrences ∧ (locsOf program.occurrences).Nodup ∧
      ∀ loc ∈ locsOf program.occurrences, loc.isSome := by
  obtain ⟨tokens, last, hcut, _, hleads, hlast⟩ := parse_ok h
  have hstart : Place.Follows (.between []) [] := .between .noDecls
  have hwritten := ((hleads.follows hstart).program hlast).written
  have hbefore := hcut.ordered.2
  refine ⟨hwritten.unresolved, hwritten.placed.nodup ?_, fun loc hloc => ?_⟩
  · exact List.pairwise_map.2 (hbefore.imp fun hab heq => hab.ne (Option.some.inj heq))
  · obtain ⟨token, -, rfl⟩ := List.mem_map.1 (hwritten.placed.subset hloc)
    rfl

/-- The identifiers of a program that was read stand one behind the other. -/
theorem parse_placed {source : String} {program : Program} (h : parse source = .ok program) :
    ∃ locs : List Loc, locsOf program.occurrences = locs.map some ∧ locs.Pairwise Loc.Before ∧
      ∀ loc ∈ locs, loc ≠ ⟨0, 0⟩ := by
  obtain ⟨tokens, last, hcut, _, hleads, hlast⟩ := parse_ok h
  have hstart : Place.Follows (.between []) [] := .between .noDecls
  have hplaced : List.Sublist (locsOf program.occurrences) (tokens.map fun t => some t.loc) :=
    ((hleads.follows hstart).program hlast).written.placed
  have hmap : tokens.map (fun t => some t.loc) = (tokens.map Token.loc).map some := by simp
  rw [hmap, List.sublist_map_iff] at hplaced
  obtain ⟨locs, hsub, hlocs⟩ := hplaced
  refine ⟨locs, hlocs, (List.pairwise_map.2 hcut.ordered.2).sublist hsub, fun loc hloc => ?_⟩
  obtain ⟨token, htoken, rfl⟩ := List.mem_map.1 (hsub.subset hloc)
  rintro heq
  rcases hcut.ordered.1 token htoken with hfirst | hbefore
  · rw [heq] at hfirst
    cases hfirst
  · rw [heq] at hbefore
    rcases hbefore with hline | ⟨hline, -⟩
    · exact absurd hline (by decide)
    · exact absurd hline (by decide)

end Moo
