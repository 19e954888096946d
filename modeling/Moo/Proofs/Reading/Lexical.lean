import Moo.Reading.Lexeme
import Mathlib.Data.List.TakeWhile

/-!
# What words and gaps are

`IsLexeme terminal word` says that `word` is spelled like the terminal, and
`IsGap text` that `text` is made of blanks and comments, in terms of their
letters alone: how they are found, and what is offered, plays no part.

* `gap_isGap`, `gap_prefixOf`: what is skipped is a gap at the front.
* `lexeme?_sound`: the word that is found is one of an offered terminal,
  stands at the front, and is no offered keyword if it is an identifier.
* `lexeme?_complete`: a word of an offered terminal is found, unless what
  follows it `joins` it to a longer word.
-/
namespace Moo

/-- Any number of pieces in a row. -/
inductive Star (Piece : List Char → Prop) : List Char → Prop
  | nil : Star Piece []
  | cons {a b} : Piece a → Star Piece b → Star Piece (a ++ b)

/-- One letter of a string literal, or a backslash and the character that it stands in front of. -/
inductive IsStringPiece : List Char → Prop
  | plain {c} : c ≠ '"' → c ≠ '\\' → c ≠ '\n' → IsStringPiece [c]
  | escape {c} : c ∈ ['n', 't', '\'', '"', '\\'] → IsStringPiece ['\\', c]

/-- The word is spelled like the terminal. -/
def IsLexeme : Terminal → List Char → Prop
  | .text, word => ∃ inside, Star IsStringPiece inside ∧ word = '"' :: (inside ++ ['"'])
  | .ident, word => ∃ c more, word = c :: more ∧ isWordStart c = true ∧ ∀ d ∈ more, isWordPart d = true
  | .number, word => word ≠ [] ∧ ∀ d ∈ word, d.isDigit = true
  | .fixed f, word => word = f.spelling.toList

inductive IsGapPiece : List Char → Prop
  | blanks {text} : text ≠ [] → (∀ c ∈ text, isBlank c = true) → IsGapPiece text
  | comment {mark text} : mark = ['/', '/'] ∨ mark = ['#'] → '\n' ∉ text →
    IsGapPiece (mark ++ text)

abbrev IsGap : List Char → Prop :=
  Star IsGapPiece

/-! ## Gaps -/

theorem gapFrom_prefixOf (inComment : Bool) (text : List Char) :
    gapFrom inComment text <+: text := by
  fun_induction gapFrom inComment text with
  | case1 => exact List.nil_prefix
  | case2 _ ih => exact (List.prefix_cons_inj _).2 ih
  | case3 _ _ _ ih => exact (List.prefix_cons_inj _).2 ih
  | case4 _ _ _ ih => exact (List.prefix_cons_inj _).2 ih
  | case5 _ _ _ _ ih => exact (List.prefix_cons_inj _).2 ih
  | case6 => exact List.nil_prefix

theorem gap_prefixOf (text : List Char) : gap text <+: text :=
  gapFrom_prefixOf false text

/-- One more blank in front of a gap. -/
theorem IsGap.blank {c : Char} {text : List Char} (hc : isBlank c = true) (h : IsGap text) :
    IsGap (c :: text) :=
  .cons (a := [c]) (.blanks (List.cons_ne_nil _ _) (by simpa using hc)) h

/-- What is skipped inside a comment: the rest of its line, and then a gap. -/
def IsCommentRest (text : List Char) : Prop :=
  ∃ inside after, text = inside ++ after ∧ '\n' ∉ inside ∧ (∀ c ∈ after.head?, c = '\n') ∧
    IsGap after

/-- What starts a comment makes a gap of it. -/
theorem IsCommentRest.gap {c : Char} {rest skipped : List Char} (hs : startsComment c rest = true)
    (hp : rest.head? = some '/' → skipped.head? = some '/') (h : IsCommentRest skipped) :
    IsGap (c :: skipped) := by
  obtain ⟨inside, after, rfl, hi, hn, ha⟩ := h
  by_cases hc : c = '#'
  · subst hc
    exact .cons (.comment (.inr rfl) hi) ha
  · have hcs : c = '/' ∧ rest.head? = some '/' := by simpa [startsComment, hc] using hs
    obtain ⟨rfl, hr⟩ := hcs
    have hp := hp hr
    match inside with
    | [] =>
      have := hn '/' hp
      contradiction
    | d :: inside =>
      obtain rfl : d = '/' := by simpa using hp
      have hi : '\n' ∉ inside := fun h => hi (List.mem_cons_of_mem _ h)
      exact .cons (.comment (.inl rfl) hi) ha

theorem gapFrom_spec (inComment : Bool) (text : List Char) :
    if inComment then IsCommentRest (gapFrom true text) else IsGap (gapFrom false text) := by
  induction text generalizing inComment with
  | nil =>
    cases inComment with
    | false => exact .nil
    | true => exact ⟨[], [], rfl, List.not_mem_nil, by simp, .nil⟩
  | cons c rest ih =>
    have hgap : IsGap (gapFrom false rest) := ih false
    have hcomment : IsCommentRest (gapFrom true rest) := ih true
    cases inComment with
    | true =>
      by_cases hc : c = '\n'
      · subst hc
        have hb : IsGap ('\n' :: gapFrom false rest) := hgap.blank (by decide)
        simp only [gapFrom, if_true]
        exact ⟨[], _, rfl, List.not_mem_nil, by simp, hb⟩
      · obtain ⟨inside, after, he, hi, hn, ha⟩ := hcomment
        have hi' : '\n' ∉ c :: inside := by simp [hi, Ne.symm hc]
        simp only [gapFrom, if_neg hc, if_true, he]
        exact ⟨c :: inside, after, rfl, hi', hn, ha⟩
    | false =>
      by_cases hb : isBlank c = true
      · simpa [gapFrom, hb] using hgap.blank hb
      · by_cases hs : startsComment c rest = true
        · have hp : rest.head? = some '/' → (gapFrom true rest).head? = some '/' := by
            cases rest <;> simp +contextual [gapFrom]
          simpa [gapFrom, hb, hs] using hcomment.gap hs hp
        · simpa [gapFrom, hb, hs] using Star.nil

theorem gap_isGap (text : List Char) : IsGap (gap text) :=
  gapFrom_spec false text

theorem isGap_of_eq {text front : List Char} (h : gap text = front) : IsGap front := by
  rw [← h]
  exact gap_isGap text

theorem drop_gap {front rest : List Char} (h : gap (front ++ rest) = front) :
    (front ++ rest).drop (gap (front ++ rest)).length = rest := by
  rw [h, List.drop_left]

/-- The gap at the front of a text, and what follows it. -/
theorem exists_gap {text rest : List Char} (h : text.drop (gap text).length = rest) :
    ∃ front, text = front ++ rest ∧ gap (front ++ rest) = front := by
  have htext : gap text ++ rest = text := by
    rw [← h]
    exact List.prefix_iff_eq_append.1 (gap_prefixOf text)
  exact ⟨gap text, htext.symm, congrArg gap htext⟩

/-- Blanks in front of something that is neither blank nor comment. -/
theorem gap_blanks {blanks : List Char} {c : Char} {rest : List Char}
    (hb : ∀ b ∈ blanks, isBlank b = true) (hc : isBlank c = false)
    (hs : startsComment c rest = false) : gap (blanks ++ c :: rest) = blanks := by
  unfold gap
  induction blanks with
  | nil => simp [gapFrom, hc, hs]
  | cons b blanks ih =>
    have hb' : isBlank b = true := hb b List.mem_cons_self
    simp [gapFrom, hb', ih fun d hd => hb d (List.mem_cons_of_mem _ hd)]

theorem gap_only_blanks {blanks : List Char} (hb : ∀ b ∈ blanks, isBlank b = true) :
    gap blanks = blanks := by
  unfold gap
  induction blanks with
  | nil => rfl
  | cons b blanks ih =>
    have hb' : isBlank b = true := hb b List.mem_cons_self
    simp [gapFrom, hb', ih fun d hd => hb d (List.mem_cons_of_mem _ hd)]

/-! ## String literals -/

theorem stringTail?_sound {text more : List Char} (h : stringTail? text = some more) :
    more <+: text ∧ ∃ inside, Star IsStringPiece inside ∧ more = inside ++ ['"'] := by
  fun_induction stringTail? text generalizing more with
  | case1 =>
    cases h
    exact ⟨by simp, [], .nil, rfl⟩
  | case2 c rest hc ih =>
    obtain ⟨tail, ht, rfl⟩ := Option.map_eq_some_iff.1 h
    obtain ⟨hp, inside, hi, rfl⟩ := ih ht
    have hpiece : IsStringPiece ['\\', c] := .escape (by simpa [or_assoc] using hc)
    exact ⟨by simpa using hp, ['\\', c] ++ inside, .cons hpiece hi, rfl⟩
  | case3 => cases h
  | case4 => cases h
  | case5 c rest hq _ hc ih =>
    obtain ⟨tail, ht, rfl⟩ := Option.map_eq_some_iff.1 h
    obtain ⟨hp, inside, hi, rfl⟩ := ih ht
    have hc : c ≠ '\\' ∧ c ≠ '\n' := by simpa using hc
    exact ⟨by simpa using hp, [c] ++ inside, .cons (.plain hq hc.1 hc.2) hi, rfl⟩
  | case6 => cases h

theorem stringTail?_complete {inside : List Char} (rest : List Char)
    (h : Star IsStringPiece inside) :
    stringTail? (inside ++ '"' :: rest) = some (inside ++ ['"']) := by
  induction h with
  | nil => rfl
  | cons hp _ ih =>
    cases hp with
    | plain hq hb hn => simp [stringTail?, hb, hn, ih]
    | @escape c hc =>
      have hc : (c = 'n' || c = 't' || c = '\'' || c = '"' || c = '\\') = true := by
        simpa [or_assoc] using hc
      simp only [List.cons_append, List.nil_append, stringTail?, hc, if_true, ih, Option.map_some]

/-! ## Letters -/

theorem isWordStart_not_digit {c : Char} (h : isWordStart c = true) : c.isDigit = false := by
  rw [isWordStart, Bool.or_eq_true, decide_eq_true_eq] at h
  rcases h with h | rfl
  · -- letters come after all digits
    have hcode : 'A'.toNat ≤ c.toNat := by
      rcases Bool.or_eq_true_iff.1 h with hu | hl
      · exact UInt32.le_iff_toNat_le.1 (of_decide_eq_true hu).1
      · have ha := of_decide_eq_true (Bool.and_eq_true_iff.1 hl).1
        exact Nat.le_trans (by decide) (UInt32.le_iff_toNat_le.1 ha)
    by_contra hd
    have hdigit := (Char.isDigit_iff_toNat.1 (eq_true_of_ne_false hd)).2
    exact absurd (Nat.le_trans hcode hdigit) (by decide)
  · rfl

theorem isDigit_isWordPart {c : Char} (h : isWordPart c = false) : c.isDigit = false := by
  by_contra hn
  simp_all [isWordPart, Char.isAlphanum]

/-- Whether a character is of a kind tells it from one that is not. -/
theorem ne_of_kind {kind : Char → Bool} {c d : Char} (hc : kind c = true) (hd : kind d = false) :
    c ≠ d :=
  ne_of_apply_ne kind (by simp [hc, hd])

/-- A character of a kind that has neither blanks nor the marks of comments. -/
theorem gap_stops {kind : Char → Bool} {c : Char} (hc : kind c = true)
    (hk : [' ', '\t', '\x0c', '\r', '\n', '#', '/'].any kind = false) (rest : List Char) :
    isBlank c = false ∧ startsComment c rest = false := by
  have hne : ∀ d ∈ [' ', '\t', '\x0c', '\r', '\n', '#', '/'], c ≠ d :=
    fun d hd => ne_of_kind hc (Bool.eq_false_iff.2 (List.any_eq_false.1 hk d hd))
  simp only [List.mem_cons, List.not_mem_nil, or_false, forall_eq_or_imp, forall_eq] at hne
  simp [isBlank, startsComment, hne]

namespace Fixed

/-- The words that are spelled like identifiers. -/
def isKeyword (f : Fixed) : Bool :=
  f.spelling.toList.all isWordPart

theorem eq_of_spelling {f g : Fixed} (h : f.spelling.toList = g.spelling.toList) : f = g := by
  have key : ∀ f ∈ all, ∀ g ∈ all, f.spelling.toList = g.spelling.toList → f = g := by
    decide +kernel
  exact key f (mem_all f) g (mem_all g) h

/-- A word that starts another is a sign, and lacks only the other's last character. -/
theorem extends_of_prefix {f g : Fixed} (h : f.spelling.toList <+: g.spelling.toList)
    (hne : f ≠ g) : f.isKeyword = false ∧ ∃ d, g.spelling.toList = f.spelling.toList ++ [d] := by
  have key : ∀ f ∈ all, ∀ g ∈ all, f.spelling.toList <+: g.spelling.toList → f ≠ g →
      f.isKeyword = false ∧ g.spelling.toList.length = f.spelling.toList.length + 1 := by
    decide +kernel
  obtain ⟨hk, hl⟩ := key f (mem_all f) g (mem_all g) h hne
  obtain ⟨more, hm⟩ := h
  rw [← hm, List.length_append, Nat.add_left_cancel_iff, List.length_eq_one_iff] at hl
  obtain ⟨d, rfl⟩ := hl
  exact ⟨hk, d, hm.symm⟩

/-- In the order in which they are tried, no word starts a later one. -/
theorem all_longest_first :
    all.Pairwise fun earlier later => ¬ earlier.spelling.toList <+: later.spelling.toList := by
  decide +kernel

/-- What a word of one spelling starts with. -/
theorem first_letter {f : Fixed} {c : Char} {more : List Char} (h : f.spelling.toList = c :: more) :
    c ≠ '"' ∧ c.isDigit = false ∧ isBlank c = false ∧ c ≠ '#' ∧ (c = '/' → f = divide) ∧
      (isWordStart c = true → f.isKeyword = true) := by
  have key : ∀ f ∈ all, (f.spelling.toList.head?.all fun c => c ≠ '"' ∧ c.isDigit = false ∧
      isBlank c = false ∧ c ≠ '#' ∧ (c = '/' → f = divide) ∧
      (isWordStart c = true → f.isKeyword = true)) = true := by
    decide +kernel
  have hc := key f (mem_all f)
  rw [h] at hc
  exact of_decide_eq_true hc

end Fixed

namespace Terminal

/-- Whether a character that follows a word of the terminal makes it another word, or a comment. -/
def joins : Terminal → Char → Bool
  | .text, _ => false
  | .ident, d => isWordPart d
  | .number, d => d.isDigit
  | .fixed f, d =>
    if f.isKeyword then isWordPart d
    else Fixed.all.any (fun g => g.spelling.toList = f.spelling.toList ++ [d])
      || f = .divide && d = '/'

/-- No word goes on over a blank. -/
theorem joins_blank {d : Char} (hd : isBlank d = true) (t : Terminal) : t.joins d = false := by
  have hcases : d ∈ [' ', '\t', '\x0c', '\r', '\n'] := by simpa [isBlank, or_assoc] using hd
  match t with
  | .text => rfl
  | .ident =>
    have key : [' ', '\t', '\x0c', '\r', '\n'].any isWordPart = false := by decide
    exact Bool.eq_false_iff.2 (List.any_eq_false.1 key d hcases)
  | .number =>
    have key : [' ', '\t', '\x0c', '\r', '\n'].any Char.isDigit = false := by decide
    exact Bool.eq_false_iff.2 (List.any_eq_false.1 key d hcases)
  | .fixed f =>
    have key : ∀ f ∈ Fixed.all,
        [' ', '\t', '\x0c', '\r', '\n'].any (Terminal.fixed f).joins = false := by
      decide +kernel
    exact Bool.eq_false_iff.2 (List.any_eq_false.1 (key f f.mem_all) d hcases)

end Terminal

/-! ## Words of one spelling -/

/-- The offered words of one spelling at the front of `c :: rest`. -/
theorem fixed?_branch {offered : Terminal → Bool} {c : Char} {rest more : List Char}
    {word : Fixed} {t : Terminal}
    (h : (match word.spelling.toList with
      | [] => none
      | first :: more =>
        if offered (.fixed word) && first = c && more.isPrefixOf rest then
          some (Terminal.fixed word, more)
        else none) = some (t, more)) :
    t = .fixed word ∧ offered t = true ∧ word.spelling.toList = c :: more ∧ more <+: rest := by
  split at h
  · cases h
  · next first tail hs =>
    split at h
    · next hc =>
      cases h
      simp only [Bool.and_eq_true, decide_eq_true_eq, List.isPrefixOf_iff_prefix] at hc
      obtain ⟨⟨ho, rfl⟩, hp⟩ := hc
      exact ⟨rfl, ho, hs, hp⟩
    · cases h

theorem fixed?_sound {offered : Terminal → Bool} {c : Char} {rest more : List Char} {t : Terminal}
    (h : fixed? offered c rest = some (t, more)) :
    ∃ word, t = .fixed word ∧ offered t = true ∧ word.spelling.toList = c :: more ∧
      more <+: rest := by
  obtain ⟨word, _, hw⟩ := List.exists_of_findSome?_eq_some h
  exact ⟨word, fixed?_branch hw⟩

/-- An offered word is found at the front, unless what follows it makes it a longer one. -/
theorem fixed?_complete {offered : Terminal → Bool} {f : Fixed} {c : Char} {more rest : List Char}
    (ho : offered (.fixed f) = true) (hf : f.spelling.toList = c :: more)
    (hr : ∀ d ∈ rest.head?, (Terminal.fixed f).joins d = false) :
    fixed? offered c (more ++ rest) = some (.fixed f, more) := by
  have hsome : (fixed? offered c (more ++ rest)).isSome := by
    rw [fixed?, List.findSome?_isSome_iff]
    refine ⟨f, f.mem_all, ?_⟩
    simp [hf, ho]
  obtain ⟨⟨t, tail⟩, hfound⟩ := Option.isSome_iff_exists.1 hsome
  rw [hfound]
  -- the word found is `g`; all words tried before it, and so all longer ones, are not there
  obtain ⟨before, g, after, hall, hg, hbefore⟩ := List.findSome?_eq_some_iff.1 hfound
  obtain ⟨rfl, hog, hgs, hgp⟩ := fixed?_branch hg
  suffices hfg : f = g by
    subst hfg
    rw [hf] at hgs
    cases hgs
    rfl
  by_contra hne
  have hfpre : f.spelling.toList <+: c :: (more ++ rest) := by
    rw [hf]
    exact ⟨rest, rfl⟩
  have hgpre : g.spelling.toList <+: c :: (more ++ rest) := by
    rw [hgs]
    exact (List.prefix_cons_inj c).2 hgp
  rcases List.prefix_or_prefix_of_prefix hfpre hgpre with hp | hp
  · -- `g` is longer: then the next character joins `f`
    obtain ⟨hk, d, hd⟩ := Fixed.extends_of_prefix hp hne
    have hd' : d ∈ rest.head? := by
      rw [hf] at hd
      rw [hd] at hgpre
      obtain ⟨tail, ht⟩ := hgpre
      rw [List.append_assoc, ← List.cons_append, List.append_cancel_left_eq] at ht
      rw [← ht]
      rfl
    have hj := hr d hd'
    have hany : Fixed.all.any (fun g => g.spelling.toList = f.spelling.toList ++ [d]) = true := by
      rw [List.any_eq_true]
      exact ⟨g, g.mem_all, by simpa using hd⟩
    simp [Terminal.joins, hk, hany] at hj
  · -- `g` is shorter: then `f` is tried before it
    have hmem : f ∈ before ++ g :: after := by
      rw [← hall]
      exact f.mem_all
    have hpair := Fixed.all_longest_first
    rw [hall] at hpair
    rcases List.mem_append.1 hmem with hb | ha
    · have := hbefore f hb
      simp [hf, ho] at this
    · rcases List.mem_cons.1 ha with rfl | ha
      · exact hne rfl
      · have hlater := (List.pairwise_append.1 hpair).2.1
        exact List.rel_of_pairwise_cons hlater ha hp

/-! ## Words -/

theorem wordTerminal_sound {offered : Terminal → Bool} (word : List Char)
    (ho : offered .ident = true) :
    offered (wordTerminal offered word) = true ∧
      ((∃ f : Fixed, wordTerminal offered word = .fixed f ∧ f.spelling.toList = word) ∨
        wordTerminal offered word = .ident ∧
          ∀ f : Fixed, offered (.fixed f) = true → f.spelling.toList ≠ word) := by
  unfold wordTerminal
  split
  · next f hf =>
    have := List.find?_some hf
    simp only [Bool.and_eq_true, decide_eq_true_eq] at this
    exact ⟨this.1, .inl ⟨f, rfl, this.2⟩⟩
  · next hn =>
    refine ⟨ho, .inr ⟨rfl, fun f hf hw => ?_⟩⟩
    have := List.find?_eq_none.1 hn f f.mem_all
    simp [hf, hw] at this

theorem wordTerminal_ident {offered : Terminal → Bool} {word : List Char}
    (h : ∀ f : Fixed, offered (.fixed f) = true → f.spelling.toList ≠ word) :
    wordTerminal offered word = .ident := by
  have hn : Fixed.all.find? (fun f => offered (.fixed f) && f.spelling.toList = word) = none := by
    rw [List.find?_eq_none]
    intro f _
    simpa using h f
  simp [wordTerminal, hn]

theorem wordTerminal_keyword {offered : Terminal → Bool} {f : Fixed}
    (ho : offered (.fixed f) = true) : wordTerminal offered f.spelling.toList = .fixed f := by
  unfold wordTerminal
  split
  · next g hg =>
    have := List.find?_some hg
    simp only [Bool.and_eq_true, decide_eq_true_eq] at this
    rw [Fixed.eq_of_spelling this.2]
  · next hn =>
    have := List.find?_eq_none.1 hn f f.mem_all
    simp [ho] at this

/-- The word that is found is one of an offered terminal. -/
theorem lexeme?_sound {offered : Terminal → Bool} {c : Char} {rest more : List Char} {t : Terminal}
    (h : lexeme? offered c rest = some (t, more)) :
    offered t = true ∧ more <+: rest ∧ IsLexeme t (c :: more) ∧
      (t = .ident → ∀ f : Fixed, offered (.fixed f) = true → f.spelling.toList ≠ c :: more) := by
  unfold lexeme? at h
  generalize hs : (if offered .text && c = '"' then stringTail? rest else none) = string at h
  cases string with
  | some tail =>
    cases h
    split at hs
    · next hc =>
      simp only [Bool.and_eq_true, decide_eq_true_eq] at hc
      obtain ⟨ho, rfl⟩ := hc
      obtain ⟨hp, inside, hi, rfl⟩ := stringTail?_sound hs
      exact ⟨ho, hp, ⟨inside, hi, rfl⟩, by simp⟩
    · cases hs
  | none =>
    simp only at h
    split at h
    · next hc =>
      cases h
      rw [Bool.and_eq_true] at hc
      have hp : rest.takeWhile isWordPart <+: rest := List.takeWhile_prefix _
      obtain ⟨ho, hcase⟩ := wordTerminal_sound (c :: rest.takeWhile isWordPart) hc.1
      refine ⟨ho, hp, ?_⟩
      rcases hcase with ⟨f, hf, hs⟩ | ⟨hf, hn⟩
      · rw [hf]
        exact ⟨hs.symm, by simp⟩
      · rw [hf]
        exact ⟨⟨c, _, rfl, hc.2, fun d => List.mem_takeWhile_imp⟩, fun _ => hn⟩
    · split at h
      · next hc =>
        cases h
        rw [Bool.and_eq_true] at hc
        refine ⟨hc.1, List.takeWhile_prefix _, ⟨by simp, ?_⟩, by simp⟩
        intro d hd
        rcases List.mem_cons.1 hd with rfl | hd
        · exact hc.2
        · exact List.mem_takeWhile_imp hd
      · obtain ⟨f, rfl, ho, hs, hp⟩ := fixed?_sound h
        exact ⟨ho, hp, hs.symm, by simp⟩

theorem IsLexeme.ne_nil {t : Terminal} {word : List Char} (h : IsLexeme t word) : word ≠ [] := by
  match t, h with
  | .text, ⟨_, _, hw⟩ => simp [hw]
  | .ident, ⟨_, _, hw, _⟩ => simp [hw]
  | .number, h => exact h.1
  | .fixed f, hf =>
    have key : ∀ f ∈ Fixed.all, f.spelling.toList ≠ [] := by decide +kernel
    rw [show word = _ from hf]
    exact key f f.mem_all

/-- The digits of a number are spelled like one. -/
theorem isLexeme_repr (n : Nat) : IsLexeme .number n.repr.toList := by
  rw [Nat.toList_repr]
  exact ⟨Nat.toDigits_ne_nil, fun d => Nat.isDigit_of_mem_toDigits (by decide) (by decide)⟩

/-- What is skipped in front of a word stops at the word. -/
theorem IsLexeme.stops {t : Terminal} {c : Char} {more rest : List Char}
    (h : IsLexeme t (c :: more)) (hr : ∀ d ∈ rest.head?, t.joins d = false) :
    isBlank c = false ∧ startsComment c (more ++ rest) = false := by
  match t, h with
  | .text, ⟨_, _, hw⟩ =>
    cases hw
    exact ⟨by decide, by simp [startsComment]⟩
  | .ident, ⟨_, _, hw, hs, _⟩ =>
    cases hw
    exact gap_stops hs (by decide) _
  | .number, ⟨_, hd⟩ => exact gap_stops (hd c List.mem_cons_self) (by decide) _
  | .fixed f, hf =>
    obtain ⟨_, _, hb, hh, hd, _⟩ := Fixed.first_letter (Eq.symm hf)
    refine ⟨hb, Bool.eq_false_iff.2 fun hc => ?_⟩
    obtain ⟨rfl, hrest⟩ : c = '/' ∧ (more ++ rest).head? = some '/' := by
      simpa [startsComment, hh] using hc
    obtain rfl := hd rfl
    obtain rfl : more = [] := by simpa using (List.cons.inj hf).2
    have := hr '/' hrest
    contradiction

/-- A run of one kind of characters ends where the kind ends. -/
theorem takeWhile_exact {kind : Char → Bool} {more rest : List Char}
    (hm : ∀ d ∈ more, kind d = true) (hr : ∀ d ∈ rest.head?, kind d = false) :
    (more ++ rest).takeWhile kind = more := by
  rw [List.takeWhile_append_of_pos hm]
  cases rest with
  | nil => simp
  | cons d rest => simp [hr d rfl]

/-- A run of one kind of characters goes as far as the kind does. -/
theorem takeWhile_stops {kind : Char → Bool} {more rest : List Char}
    (h : (more ++ rest).takeWhile kind = more) : ∀ d ∈ rest.head?, kind d = false := by
  have hmore : ∀ d ∈ more, kind d = true := by
    intro d hd
    rw [← h] at hd
    exact List.mem_takeWhile_imp hd
  rw [List.takeWhile_append_of_pos hmore] at h
  have hrest : rest.takeWhile kind = [] := List.append_right_eq_self.1 h
  intro d hd
  obtain ⟨tail, rfl⟩ := List.head?_eq_some_iff.1 hd
  by_contra hkind
  simp [hkind] at hrest

theorem lexeme?_complete {offered : Terminal → Bool} {t : Terminal} {c : Char}
    {more rest : List Char} (ho : offered t = true) (h : IsLexeme t (c :: more))
    (hk : t = .ident → ∀ f : Fixed, offered (.fixed f) = true → f.spelling.toList ≠ c :: more)
    (hr : ∀ d ∈ rest.head?, t.joins d = false) :
    lexeme? offered c (more ++ rest) = some (t, more) := by
  unfold lexeme?
  match t, h with
  | .text, ⟨inside, hi, hw⟩ =>
    cases hw
    have := stringTail?_complete rest hi
    simp [ho, this]
  | .ident, ⟨_, _, hw, hs, hm⟩ =>
    cases hw
    have hq : c ≠ '"' := ne_of_kind hs (by decide)
    simp [ho, hq, hs, takeWhile_exact hm hr, wordTerminal_ident (hk rfl)]
  | .number, ⟨_, hd⟩ =>
    have hc : c.isDigit = true := hd c List.mem_cons_self
    have hq : c ≠ '"' := ne_of_kind hc (by decide)
    have hs : isWordStart c = false := by
      by_contra hn
      rw [isWordStart_not_digit (by simpa using hn)] at hc
      cases hc
    have hm : ∀ d ∈ more, d.isDigit = true := fun d h => hd d (List.mem_cons_of_mem _ h)
    simp [ho, hq, hs, hc, takeWhile_exact hm hr]
  | .fixed f, hf =>
    have hf : f.spelling.toList = c :: more := Eq.symm hf
    obtain ⟨hq, hdigit, _, _, _, hkey⟩ := Fixed.first_letter hf
    simp only [hq, hdigit, decide_false, Bool.and_false, Bool.false_eq_true, if_false]
    by_cases hw : (offered .ident && isWordStart c) = true
    · have hkey : f.isKeyword = true := hkey (Bool.and_eq_true_iff.1 hw).2
      have hm : ∀ d ∈ more, isWordPart d = true := by
        simp only [Fixed.isKeyword, hf, List.all_cons, Bool.and_eq_true, List.all_eq_true] at hkey
        exact hkey.2
      have hr' : ∀ d ∈ rest.head?, isWordPart d = false := by simpa [Terminal.joins, hkey] using hr
      simp only [hw, if_true, takeWhile_exact hm hr', ← hf, wordTerminal_keyword ho]
    · rw [if_neg hw]
      exact fixed?_complete ho hf hr

end Moo
