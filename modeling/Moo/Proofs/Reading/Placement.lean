import Moo.Proofs.Reading.Continuations
import Moo.Proofs.Reading.Locations
import Moo.Proofs.Tree.Leaf
import Moo.Proofs.Tree.Shape

/-!
# Leaves and their words

Each identifier and literal of a tree that was read is one word of the text,
whole, and stands at the line and column where this word starts. Lines are
counted by line feeds and columns by characters, both from the text in front
of the word alone: how the reader keeps count of them plays no part.

* `Loc.isBehind_past`: the location that the reader keeps is the one that the
  text in front says.
* `Token.StandsIn`, `readOn_stands`: where a word of a text starts and ends,
  for every word that is read.
* `Derives.leaves`: the leaves of a tree are its words, in their order, less
  those that stand for kinds of nodes.
* `read_leaves`, `parse_leaves`, `parse_located`: both for whole texts.
-/
namespace Moo

/-! ## Lines and columns -/

/-- The line and the column that start behind the text `front`. -/
structure Loc.IsBehind (loc : Loc) (front : List Char) : Prop where
  line : loc.line = front.count '\n' + 1
  column : loc.column = (front.reverse.takeWhile (· ≠ '\n')).length + 1

theorem Loc.isBehind_past (front : List Char) : (Loc.start.past front).IsBehind front := by
  induction front using List.reverseRecOn with
  | nil => exact ⟨rfl, rfl⟩
  | append_singleton front c ih =>
    obtain ⟨hline, hcolumn⟩ := ih
    have hpast : Loc.start.past (front ++ [c]) = (Loc.start.past front).next c := past_append ..
    rw [hpast, next]
    by_cases hc : c = '\n'
    · subst hc
      rw [if_pos rfl]
      exact ⟨by simp [hline], by simp⟩
    · rw [if_neg hc]
      exact ⟨by simp [hline, hc], by simp [hcolumn, hc]⟩

/-! ## Where words start and end -/

section Word

variable {offered : Terminal → Bool} {c : Char} {more rest : List Char} {t : Terminal}

/-- Where identifiers are offered, what starts like one is read up to the last letter or digit. -/
theorem lexeme?_word_stops (h : lexeme? offered c (more ++ rest) = some (t, more))
    (ho : offered .ident = true) (hs : isWordStart c = true) :
    ∀ d ∈ rest.head?, isWordPart d = false := by
  have hq : c ≠ '"' := ne_of_kind hs (by decide)
  simp only [lexeme?, hq, decide_false, Bool.and_false, Bool.false_eq_true, if_false, ho, hs,
    Bool.and_self, if_true, Option.some.injEq, Prod.mk.injEq] at h
  exact takeWhile_stops h.2

/-- A number is read up to the last digit. -/
theorem lexeme?_number_stops (h : lexeme? offered c (more ++ rest) = some (.number, more)) :
    ∀ d ∈ rest.head?, d.isDigit = false := by
  unfold lexeme? at h
  generalize (if offered .text && c = '"' then stringTail? (more ++ rest) else none) = string at h
  cases string with
  | some tail => cases h
  | none =>
    simp only at h
    split at h
    · next hw =>
      obtain ⟨-, hword⟩ := wordTerminal_sound (c :: (more ++ rest).takeWhile isWordPart)
        (Bool.and_eq_true_iff.1 hw).1
      rw [(Prod.mk.inj (Option.some.inj h)).1] at hword
      rcases hword with ⟨_, hf, _⟩ | ⟨hi, _⟩
      · cases hf
      · cases hi
    · split at h
      · exact takeWhile_stops (Prod.mk.inj (Option.some.inj h)).2
      · obtain ⟨_, hf, _⟩ := fixed?_sound h
        cases hf

end Word

/-- What is skipped behind the first character, which is blank unless a comment is open there. -/
theorem gapFrom_tail {inComment : Bool} {d : Char} {text front : List Char}
    (h : gapFrom inComment (d :: text) = d :: front) :
    ∃ inside, gapFrom inside text = front ∧ (inside = false → isBlank d = true) := by
  cases inComment with
  | true =>
    simp only [gapFrom] at h
    split at h
    · next hd =>
      refine ⟨false, (List.cons.inj h).2, fun _ => ?_⟩
      subst hd
      decide
    · exact ⟨true, (List.cons.inj h).2, by simp⟩
  | false =>
    simp only [gapFrom] at h
    split at h
    · next hb => exact ⟨false, (List.cons.inj h).2, fun _ => hb⟩
    · split at h
      · exact ⟨true, (List.cons.inj h).2, by simp⟩
      · cases h

/-- In front of a word, a gap ends with a blank: a comment there ends with its line. -/
theorem gapFrom_last {inComment : Bool} {front rest : List Char} {c : Char}
    (h : gapFrom inComment (front ++ c :: rest) = front) :
    ∀ e ∈ front.getLast?, isBlank e = true := by
  induction front generalizing inComment with
  | nil => simp
  | cons d front ih =>
    obtain ⟨inside, htail, hblank⟩ := gapFrom_tail h
    by_cases hfront : front = []
    · subst hfront
      have hclosed : inside = false := by
        by_contra hopen
        rw [Bool.not_eq_false] at hopen
        subst hopen
        cases eq_nil_of_gapFrom_true htail
      intro e he
      obtain rfl : d = e := Option.some.inj he
      exact hblank hclosed
    · rw [List.getLast?_cons_of_ne_nil hfront]
      exact ih htail

/-- No run of digits goes on from one text into the next. -/
def Apart (front rest : List Char) : Prop :=
  ∀ c ∈ front.getLast?, ∀ d ∈ rest.head?, c.isDigit = true → d.isDigit = false

theorem Fixed.last_not_digit {f : Fixed} : ∀ d ∈ f.spelling.toList.getLast?, d.isDigit = false := by
  have key : ∀ f ∈ all, (f.spelling.toList.getLast?.all fun d => !d.isDigit) = true := by
    decide +kernel
  intro d hd
  have hf := key f f.mem_all
  rw [hd, Option.all_some, Bool.not_eq_true'] at hf
  exact hf

/-- Behind a word no run of digits goes on. -/
theorem lexeme?_apart {offered : Terminal → Bool} {c : Char} {more rest : List Char} {t : Terminal}
    (h : lexeme? offered c (more ++ rest) = some (t, more)) (front : List Char) :
    Apart (front ++ c :: more) rest := by
  intro e he d hd hdigit
  obtain ⟨ho, -, hlex, -⟩ := lexeme?_sound h
  have hlast : e ∈ (c :: more).getLast? := by simpa using he
  match t, hlex with
  | .text, ⟨inside, _, hw⟩ =>
    rw [hw, ← List.cons_append, List.getLast?_concat] at hlast
    obtain rfl : '"' = e := Option.some.inj hlast
    exact absurd hdigit (by decide)
  | .ident, ⟨_, _, hw, hs, _⟩ =>
    cases hw
    exact isDigit_isWordPart (lexeme?_word_stops h ho hs d hd)
  | .number, _ => exact lexeme?_number_stops h d hd
  | .fixed f, hf =>
    rw [show c :: more = _ from hf] at hlast
    rw [Fixed.last_not_digit e hlast] at hdigit
    cases hdigit

/-- A gap in front of a word keeps runs of digits apart. -/
theorem Apart.gap {front lead rest : List Char} {c : Char} (h : Apart front (lead ++ c :: rest))
    (hgap : Moo.gap (lead ++ c :: rest) = lead) : Apart (front ++ lead) (c :: rest) := by
  by_cases hlead : lead = []
  · simpa [hlead] using h
  · intro e he d _ hdigit
    rw [List.getLast?_append_of_ne_nil _ hlead] at he
    have hno : e.isDigit = false := Terminal.number.joins_blank (gapFrom_last hgap e he)
    rw [hno] at hdigit
    cases hdigit

/-! ## The words that are leaves -/

/-- What a word is in a tree, if it is more than a kind of node. -/
def Token.leaf? (token : Token) : Option Leaf :=
  match token.terminal with
  | .ident => some (.ident token.ident)
  | .number => some (.int token.number token.loc)
  | .text => some (.str token.text token.loc)
  | .fixed .trueWord => some (.bool true token.loc)
  | .fixed .falseWord => some (.bool false token.loc)
  | .fixed _ => none

theorem Token.loc_leaf? {token : Token} {leaf : Leaf} (h : token.leaf? = some leaf) :
    leaf.loc = some token.loc := by
  unfold leaf? at h
  split at h <;> cases h <;> rfl

theorem Token.leaf?_int {token : Token} {value : Int} {loc : Option Loc}
    (h : token.leaf? = some (.int value loc)) :
    token.terminal = .number ∧ value = token.number := by
  unfold leaf? at h
  split at h <;> cases h
  next ht => exact ⟨ht, rfl⟩

/-- The leaves stand where their words do. -/
theorem exists_locs (tokens : List Token) : ∃ locs : List Loc,
    (tokens.filterMap Token.leaf?).map Leaf.loc = locs.map some ∧
      List.Sublist locs (tokens.map Token.loc) := by
  induction tokens with
  | nil => exact ⟨[], rfl, .slnil⟩
  | cons token tokens ih =>
    obtain ⟨locs, hlocs, hsub⟩ := ih
    rw [List.map_cons]
    cases hleaf : token.leaf? with
    | none =>
      rw [List.filterMap_cons_none hleaf]
      exact ⟨locs, hlocs, hsub.cons _⟩
    | some leaf =>
      rw [List.filterMap_cons_some hleaf, List.map_cons, hlocs, Token.loc_leaf? hleaf]
      exact ⟨token.loc :: locs, rfl, hsub.cons_cons _⟩

/-- An operator or a type that a word alone names is no leaf. -/
theorem Token.leaf?_fixed {token : Token} {word : Fixed} {words : List Fixed}
    (h : token.terminal = .fixed word) (hm : word ∈ words)
    (hwords : ∀ w ∈ words, w ∉ [Fixed.trueWord, .falseWord]) : token.leaf? = none := by
  have hword := hwords word hm
  unfold leaf?
  rw [h]
  split <;> simp_all

/-- Where a value is written, a name may be. -/
theorem Spot.offers_ident {spot : Spot}
    (h : spot.offers (.fixed .trueWord) = true ∨ spot.offers (.fixed .falseWord) = true) :
    spot.offers .ident = true := by
  cases spot <;> revert h <;> decide

/-- A word that becomes a leaf is a whole word. -/
theorem lexeme?_leaf_stops {spot : Spot} {c : Char} {more rest : List Char} {token : Token}
    {leaf : Leaf} (h : lexeme? spot.offers c (more ++ rest) = some (token.terminal, more))
    (hleaf : token.leaf? = some leaf) : ∀ d ∈ rest.head?, token.terminal.joins d = false := by
  obtain ⟨ho, -, hlex, -⟩ := lexeme?_sound h
  obtain ⟨terminal, text, loc⟩ := token
  simp only at h ho hlex ⊢
  match terminal, hlex with
  | .text, _ => exact fun _ _ => rfl
  | .number, _ => exact lexeme?_number_stops h
  | .ident, ⟨_, _, hw, hs, _⟩ =>
    cases hw
    exact lexeme?_word_stops h ho hs
  | .fixed .trueWord, hf =>
    cases hf
    exact lexeme?_word_stops h (Spot.offers_ident (.inl ho)) (by decide)
  | .fixed .falseWord, hf =>
    cases hf
    exact lexeme?_word_stops h (Spot.offers_ident (.inr ho)) (by decide)

/-- Where a word starts and ends in the text. One that becomes a leaf is whole, and no digit stands
in front of a number. -/
structure Token.StandsIn (token : Token) (source front back : List Char) : Prop where
  text : source = front ++ token.text.toList ++ back
  loc : token.loc = Loc.start.past front
  spelled : IsLexeme token.terminal token.text.toList
  ends : ∀ leaf, token.leaf? = some leaf → ∀ d ∈ back.head?, token.terminal.joins d = false
  starts : token.terminal = .number → ∀ c ∈ front.getLast?, c.isDigit = false

/-- Every word that is read stands in the text. What is left to read starts behind `front`, where
its location says, and with no digit that belongs to a number in front. -/
theorem readOn_stands {source : List Char} {place : Place} {read : List Token} {loc : Loc}
    {rest : List Char} {reading : Reading} (h : readOn place read loc rest = .ok reading) :
    ∀ front, source = front ++ rest → loc = Loc.start.past front → Apart front rest →
      (∀ t ∈ read, ∃ front back, t.StandsIn source front back) →
      ∀ t ∈ reading.tokens, ∃ front back, t.StandsIn source front back := by
  fun_induction readOn place read loc rest with
  | case1 =>
    cases h
    intro _ _ _ _ hread t ht
    exact hread t (List.mem_reverse.1 ht)
  | case2 => cases h
  | case3 place read loc text skipped loc' c rest hd terminal more hl token next hs ih =>
    intro front hsource hloc hapart hread
    obtain ⟨lead, rfl, hgap⟩ := exists_gap hd
    obtain ⟨-, ⟨back, rfl⟩, hlex, -⟩ := lexeme?_sound hl
    have hloc' : loc' = Loc.start.past (front ++ lead) := by
      rw [Loc.past_append, ← hloc]
      exact congrArg loc.past hgap
    have hparts : source = front ++ lead ++ (c :: more) ++ back := by
      rw [hsource]
      simp
    have htext : token.text.toList = c :: more := String.toList_ofList
    have hstands : token.StandsIn source (front ++ lead) back := by
      refine ⟨htext ▸ hparts, hloc', htext ▸ hlex, fun _ hleaf => lexeme?_leaf_stops hl hleaf, ?_⟩
      intro hnumber e he
      have hterminal : terminal = .number := hnumber
      subst hterminal
      by_contra hdigit
      have hnext := hapart.gap hgap e he c rfl (by simpa using hdigit)
      rw [hlex.2 c List.mem_cons_self] at hnext
      cases hnext
    rw [List.drop_left] at h ih
    refine ih h (front ++ lead ++ (c :: more)) hparts ?_ (lexeme?_apart hl _) ?_
    · rw [Loc.past_append, ← hloc']
    · intro t ht
      rcases List.mem_cons.1 ht with rfl | ht
      · exact ⟨_, _, hstands⟩
      · exact hread t ht
  | case4 => cases h
  | case5 => cases h
  | case6 => cases h

/-- The leaves of what the words of a nonterminal stand for. -/
def Nonterminal.leaves : (n : Nonterminal) → n.Value → List Leaf
  | .start, program => program.leaves
  | .decls, ds | .fields, ds | .formals, ds | .declList, ds => Decl.leavesAll ds
  | .decl, d | .varDecl, d | .structDecl, d | .fnDecl, d | .formalDecl, d => d.leaves
  | .fnBody, body | .block, body => Decl.leavesAll body.1 ++ Stmt.leavesAll body.2
  | .stmtList, ss => Stmt.leavesAll ss
  | .type, t => t.leaves
  | .stmt, s => s.leaves
  | .actuals, es => Expr.leavesAll es
  | .exp, e | .assignExp, e | .orExp, e | .andExp, e | .relExp, e | .addExp, e | .mulExp, e
  | .unaryExp, e | .term, e | .fnCall, e | .loc, e => e.leaves

/-- The leaves are the words, in their order, less those that stand for kinds of nodes. -/
theorem Derives.leaves {n : Nonterminal} {tokens : List Token} {value : n.Value}
    (h : Derives n tokens value) : tokens.filterMap Token.leaf? = n.leaves value := by
  induction h with
  | noDecls | noLocals | noStmts => rfl
  -- one of several words of one spelling
  | primitiveType hm ht =>
    have hnone := Token.leaf?_fixed ht hm (by decide)
    simp [hnone, Nonterminal.leaves, TypeExpr.leaves]
  | relOp hm _ ht _ ihl ihr | addOp hm _ ht _ ihl ihr | mulOp hm _ ht _ ihl ihr =>
    have hnone := Token.leaf?_fixed ht hm (by decide)
    rw [List.filterMap_append, List.filterMap_cons_none hnone, ihl, ihr]
    rfl
  | unaryOp hm ht _ ih =>
    have hnone := Token.leaf?_fixed ht hm (by decide)
    rw [List.filterMap_cons_none hnone, ih]
    rfl
  | _ =>
    simp_all [Token.leaf?, Nonterminal.leaves, Program.leaves, Decl.leaves, Decl.leavesAll,
      Stmt.leaves, Stmt.leavesAll, Expr.leaves, Expr.leavesAll, TypeExpr.leaves]

/-! ## Leaves in the text -/

/-- The word between `front` and `back` is the whole word that the leaf was read from. -/
def Leaf.IsWord : Leaf → (front word back : List Char) → Prop
  | .ident id, _, word, back =>
    IsLexeme .ident word ∧ id.name.toList = word ∧ ∀ d ∈ back.head?, isWordPart d = false
  | .int value _, front, word, back =>
    IsLexeme .number word ∧ value = Nat.ofDigitChars 10 word 0 ∧
      (∀ d ∈ front.getLast?, d.isDigit = false) ∧ ∀ d ∈ back.head?, d.isDigit = false
  | .str text _, _, word, _ => IsLexeme .text word ∧ text.toList = word
  | .bool value _, _, word, back =>
    word = (if value then "true" else "false").toList ∧ ∀ d ∈ back.head?, isWordPart d = false

theorem Token.StandsIn.leaf {token : Token} {source front back : List Char} {leaf : Leaf}
    (h : token.StandsIn source front back) (hleaf : token.leaf? = some leaf) :
    leaf.IsWord front token.text.toList back := by
  obtain ⟨-, -, hspelled, hends, hstarts⟩ := h
  obtain ⟨terminal, text, loc⟩ := token
  have hends := hends leaf hleaf
  simp only at hspelled hends hstarts ⊢
  match terminal, hleaf with
  | .ident, hleaf =>
    cases hleaf
    exact ⟨hspelled, rfl, hends⟩
  | .number, hleaf =>
    cases hleaf
    exact ⟨hspelled, rfl, hstarts rfl, hends⟩
  | .text, hleaf =>
    cases hleaf
    exact ⟨hspelled, rfl⟩
  | .fixed .trueWord, hleaf =>
    cases hleaf
    exact ⟨hspelled, hends⟩
  | .fixed .falseWord, hleaf =>
    cases hleaf
    exact ⟨hspelled, hends⟩

/-- What is read stands in the text, and its leaves are the words of the text. -/
theorem read_leaves {source : String} {reading : Reading} (h : read source = .ok reading) :
    Cut .start source.toList reading.tokens ∧
      reading.tokens.filterMap Token.leaf? = reading.program.leaves ∧
      ∀ t ∈ reading.tokens, ∃ front back, t.StandsIn source.toList front back := by
  obtain ⟨tokens, last, htokens, hcut, hleads, hlast⟩ := readOn_ok h
  obtain rfl : reading.tokens = tokens := htokens
  have hstart : Place.Follows (.between []) [] := .between .noDecls
  exact ⟨hcut, ((hleads.follows hstart).program hlast).leaves,
    readOn_stands h [] rfl rfl (by simp [Apart]) (by simp)⟩

/-- The leaves of a program that was read are words of its text. -/
theorem parse_leaves {source : String} {program : Program} (h : parse source = .ok program) :
    ∃ tokens : List Token, tokens.filterMap Token.leaf? = program.leaves ∧
      (tokens.Pairwise fun a b => a.loc.Before b.loc) ∧ (∀ t ∈ tokens, t.overlong? = none) ∧
      ∀ t ∈ tokens, ∃ front back, t.StandsIn source.toList front back := by
  obtain ⟨reading, hread, rfl, hshort⟩ := parse_reads h
  obtain ⟨hcut, hleaves, hstands⟩ := read_leaves hread
  exact ⟨reading.tokens, hleaves, hcut.ordered.2, hshort, hstands⟩

/-- The identifiers and literals of a program stand in its text where their locations say, each as
one whole word and each behind the one before it. -/
theorem parse_located {source : String} {program : Program} (h : parse source = .ok program) :
    (∃ locs : List Loc, program.leaves.map Leaf.loc = locs.map some ∧ locs.Pairwise Loc.Before) ∧
      (∀ leaf ∈ program.leaves, ∃ loc front word back, leaf.loc = some loc ∧
        source.toList = front ++ word ++ back ∧ loc.IsBehind front ∧
        leaf.IsWord front word back) ∧
      ∀ o ∈ program.occurrences, .ident o.id ∈ program.leaves ∧ o.loc = o.id.loc := by
  obtain ⟨tokens, hleaves, hordered, -, hstands⟩ := parse_leaves h
  rw [← hleaves]
  refine ⟨?_, ?_, ?_⟩
  · obtain ⟨locs, hlocs, hsub⟩ := exists_locs tokens
    exact ⟨locs, hlocs, (List.pairwise_map.2 hordered).sublist hsub⟩
  · intro leaf hleaf
    obtain ⟨token, htoken, hleaf⟩ := List.mem_filterMap.1 hleaf
    obtain ⟨front, back, hstands⟩ := hstands token htoken
    have hbehind : token.loc.IsBehind front := hstands.loc ▸ Loc.isBehind_past front
    exact ⟨token.loc, front, token.text.toList, back, Token.loc_leaf? hleaf, hstands.text, hbehind,
      hstands.leaf hleaf⟩
  · intro o ho
    rw [hleaves]
    exact ⟨(parse_shaped h).wellFormed.leaf ho, by cases o <;> rfl⟩

/-- No blanks between the words, and carriage returns in a comment and in a string. -/
theorem parse_located_glued :
    let source := "#\r\nintx1;void g()\x7bcout<<\"\r\";return!true*07+s.y;\x7d"
    ∃ program, parse source = .ok program ∧
      program.leaves =
        [.ident ⟨"x1", some ⟨2, 4⟩, none⟩, .ident ⟨"g", some ⟨2, 12⟩, none⟩,
          .str "\"\r\"" (some ⟨2, 22⟩), .bool true (some ⟨2, 33⟩), .int 7 (some ⟨2, 38⟩),
          .ident ⟨"s", some ⟨2, 41⟩, none⟩, .ident ⟨"y", some ⟨2, 43⟩, none⟩] ∧
      (∃ locs : List Loc, program.leaves.map Leaf.loc = locs.map some ∧
        locs.Pairwise Loc.Before) ∧
      (∀ leaf ∈ program.leaves, ∃ loc front word back, leaf.loc = some loc ∧
        source.toList = front ++ word ++ back ∧ loc.IsBehind front ∧
        leaf.IsWord front word back) ∧
      ∀ o ∈ program.occurrences, .ident o.id ∈ program.leaves ∧ o.loc = o.id.loc := by
  intro source
  have h : parse source =
      .ok ⟨[.var (.primitive "int") ⟨"x1", some ⟨2, 4⟩, none⟩,
        .function (.primitive "void") ⟨"g", some ⟨2, 12⟩, none⟩ [] []
          [.write (.str "\"\r\"" (some ⟨2, 22⟩)),
            .returnValue (.binary "+"
              (.binary "*" (.unary "!" (.bool true (some ⟨2, 33⟩))) (.int 7 (some ⟨2, 38⟩)))
              (.dot (.name ⟨"s", some ⟨2, 41⟩, none⟩) ⟨"y", some ⟨2, 43⟩, none⟩ none))]]⟩ := by
    cbv
  exact ⟨_, h, rfl, parse_located h⟩

end Moo
