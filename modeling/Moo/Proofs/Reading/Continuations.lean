import Moo.Proofs.Reading.Words

/-!
# How far the reader looks ahead

To find a word or the end of a gap, the reader looks at one character behind
it at most. So a text that is already read stays read as it was when another
text follows it, if that starts with the same character, and also if it
starts with a blank, since no word goes on over a blank.

* `Continues`: which texts may follow instead.
* `gap_closed`, `gap_newline`: a gap goes on in front of another text as it
  would alone.
* `gap_eq_of_continues`, `lexeme?_continues`: the gap and the word in front
  stay the same.
* `lexeme?_blank_none`: where no offered word is in front, none is when a
  blank follows the word that stands there.
-/
namespace Moo

/-- The other text starts with the same character, or with a blank, or is empty. -/
def Continues (rest other : List Char) : Prop :=
  ∀ d ∈ other.head?, isBlank d = true ∨ rest.head? = some d

namespace Continues

variable {rest other : List Char}

theorem append (h : Continues rest other) (front : List Char) :
    Continues (front ++ rest) (front ++ other) := by
  cases front with
  | nil => exact h
  | cons c front => exact fun d hd => .inr hd

theorem blank {c : Char} (hc : isBlank c = true) (rest tail : List Char) :
    Continues rest (c :: tail) := by
  intro d hd
  obtain rfl : c = d := Option.some.inj hd
  exact .inl hc

/-- A kind of characters that has no blanks ends where it ended. -/
theorem stops (h : Continues rest other) {kind : Char → Bool}
    (hk : ∀ d, isBlank d = true → kind d = false) (hr : ∀ d ∈ rest.head?, kind d = false) :
    ∀ d ∈ other.head?, kind d = false := by
  intro d hd
  rcases h d hd with hb | hs
  · exact hk d hb
  · exact hr d hs

end Continues

/-! ## Gaps -/

/-- Inside a comment, only the end of the text is skipped as nothing. -/
theorem eq_nil_of_gapFrom_true {text : List Char} (h : gapFrom true text = []) : text = [] := by
  cases text with
  | nil => rfl
  | cons c rest =>
    simp only [gapFrom] at h
    split at h <;> cases h

/-- Where a gap ends, the reader is inside a comment or not, and only the end of the text can be
inside one. How it goes on depends on nothing else. -/
theorem gapFrom_append {inComment : Bool} {front rest : List Char}
    (h : gapFrom inComment (front ++ rest) = front) :
    ∃ open', (open' = true → rest = []) ∧
      ∀ other, gapFrom inComment (front ++ other) = front ++ gapFrom open' other := by
  induction front generalizing inComment with
  | nil =>
    refine ⟨inComment, ?_, fun other => rfl⟩
    rintro rfl
    exact eq_nil_of_gapFrom_true h
  | cons d front ih =>
    cases inComment with
    | true =>
      simp only [List.cons_append, gapFrom] at h ⊢
      split at h
      · next hd =>
        obtain ⟨open', hopen, hgo⟩ := ih (List.cons.inj h).2
        refine ⟨open', hopen, fun other => ?_⟩
        rw [if_pos hd, hgo]
      · next hd =>
        obtain ⟨open', hopen, hgo⟩ := ih (List.cons.inj h).2
        refine ⟨open', hopen, fun other => ?_⟩
        rw [if_neg hd, hgo]
    | false =>
      simp only [List.cons_append, gapFrom] at h ⊢
      split at h
      · next hb =>
        obtain ⟨open', hopen, hgo⟩ := ih (List.cons.inj h).2
        refine ⟨open', hopen, fun other => ?_⟩
        rw [if_pos hb, hgo]
      · next hb =>
        split at h
        · next hs =>
          have hinside := (List.cons.inj h).2
          obtain ⟨open', hopen, hgo⟩ := ih hinside
          refine ⟨open', hopen, fun other => ?_⟩
          -- both slashes belong to the gap
          have hs' : startsComment d (front ++ other) = true := by
            cases front with
            | nil =>
              obtain rfl : rest = [] := eq_nil_of_gapFrom_true hinside
              have hmark : d = '#' := by simpa [startsComment] using hs
              simp [startsComment, hmark]
            | cons e front => exact hs
          rw [if_neg hb, if_pos hs', hgo]
        · cases h

/-- A gap that ends in front of a character is the gap in front of whatever follows. -/
theorem gap_closed {front rest : List Char} {c : Char} (h : gap (front ++ c :: rest) = front)
    (other : List Char) : gap (front ++ other) = front ++ gap other := by
  obtain ⟨open', hopen, hgo⟩ := gapFrom_append h
  cases open' with
  | false => exact hgo other
  | true => cases hopen rfl

/-- A gap goes on with a new line, whatever follows there. -/
theorem gap_newline {front rest : List Char} (h : gap (front ++ rest) = front)
    (other : List Char) : gap (front ++ '\n' :: other) = front ++ '\n' :: gap other := by
  obtain ⟨open', -, hgo⟩ := gapFrom_append h
  have hnewline : gapFrom open' ('\n' :: other) = '\n' :: gap other := by
    cases open' <;> rfl
  rw [← hnewline]
  exact hgo _

theorem gap_cons_eq_nil_iff {c : Char} {rest : List Char} :
    gap (c :: rest) = [] ↔ isBlank c = false ∧ startsComment c rest = false := by
  unfold gap gapFrom
  split
  · next hb => simp [hb]
  · next hb =>
    split
    · next hs => simp [hs]
    · next hs => simp [hb, hs]

/-- The gap in front of a word stays the same. -/
theorem gap_eq_of_continues {front rest other : List Char} {c : Char}
    (h : gap (front ++ c :: rest) = front) (hc : Continues rest other) :
    gap (front ++ c :: other) = front := by
  have hnone : gap (c :: rest) = [] := by
    have hgap := gap_closed h (c :: rest)
    rw [h] at hgap
    exact List.append_right_eq_self.1 hgap.symm
  obtain ⟨hblank, hmark⟩ := gap_cons_eq_nil_iff.1 hnone
  have hslash : other.head? = some '/' → rest.head? = some '/' := by
    intro hd
    exact (hc '/' hd).resolve_left (by decide)
  have hmark' : startsComment c other = false := by
    simp only [startsComment, Bool.or_eq_false_iff, Bool.and_eq_false_imp, decide_eq_false_iff_not,
      decide_eq_true_eq] at hmark ⊢
    exact ⟨hmark.1, fun hd ho => hmark.2 hd (hslash ho)⟩
  rw [gap_closed h, gap_cons_eq_nil_iff.2 ⟨hblank, hmark'⟩, List.append_nil]

/-! ## Words -/

/-- No word of one spelling has a blank in it. -/
theorem Fixed.isBlank_of_mem {f : Fixed} {d : Char} (h : d ∈ f.spelling.toList) :
    isBlank d = false := by
  have key : ∀ f ∈ all, f.spelling.toList.any isBlank = false := by decide +kernel
  exact Bool.eq_false_iff.2 (List.any_eq_false.1 (key f f.mem_all) d h)

/-- Where the offered words of one spelling are not in front, none is found. -/
theorem fixed?_branch_none {offered : Terminal → Bool} {word : Fixed} {c : Char}
    {rest : List Char} :
    (match word.spelling.toList with
      | [] => none
      | first :: more =>
        if offered (.fixed word) && first = c && more.isPrefixOf rest then
          some (Terminal.fixed word, more)
        else none) = none ↔
      (offered (.fixed word) = true → ¬ word.spelling.toList <+: c :: rest) := by
  have hne : word.spelling.toList ≠ [] := IsLexeme.ne_nil (t := .fixed word) rfl
  obtain ⟨first, more, hs⟩ := List.exists_cons_of_ne_nil hne
  simp only [hs, List.cons_prefix_cons, ite_eq_right_iff, reduceCtorEq, imp_false,
    Bool.and_eq_true, decide_eq_true_eq, List.isPrefixOf_iff_prefix, and_assoc]
  exact not_and

theorem fixed?_eq_none_iff {offered : Terminal → Bool} {c : Char} {rest : List Char} :
    fixed? offered c rest = none ↔
      ∀ f : Fixed, offered (.fixed f) = true → ¬ f.spelling.toList <+: c :: rest := by
  rw [fixed?, List.findSome?_eq_none_iff]
  constructor
  · intro h f
    exact fixed?_branch_none.1 (h f f.mem_all)
  · intro h f _
    exact fixed?_branch_none.2 (h f)

/-- In front of a blank, no word goes on over it. -/
theorem Fixed.prefix_of_blank {f : Fixed} {word tail : List Char} {b : Char}
    (hb : isBlank b = true) (hf : f.spelling.toList <+: word ++ b :: tail) :
    f.spelling.toList <+: word := by
  have hnot : b ∉ f.spelling.toList := by
    intro hmem
    rw [Fixed.isBlank_of_mem hmem] at hb
    cases hb
  have hword : word ++ [b] <+: word ++ b :: tail := ⟨tail, by simp⟩
  rcases List.prefix_or_prefix_of_prefix hf hword with hp | hp
  · rcases List.prefix_concat_iff.1 hp with heq | hp
    · exact absurd (by simp [heq]) hnot
    · exact hp
  · exact absurd (hp.subset (by simp)) hnot

/-- Behind a word with one spelling, another that is there now was there before. -/
theorem Fixed.prefix_of_continues {f g : Fixed} {word rest other : List Char}
    (hg : g.spelling.toList = word) (hc : Continues rest other)
    (hf : f.spelling.toList <+: word ++ other) : f.spelling.toList <+: word ++ rest := by
  subst hg
  rcases List.prefix_or_prefix_of_prefix hf (List.prefix_append _ other) with hp | hp
  · exact hp.trans (List.prefix_append _ rest)
  · by_cases hne : g = f
    · subst hne
      exact List.prefix_append _ rest
    · -- `f` goes on over the next character, which is no blank
      obtain ⟨-, d, hd⟩ := Fixed.extends_of_prefix hp hne
      rw [hd, List.prefix_append_right_inj] at hf
      have hhead : other.head? = some d := List.singleton_prefix_iff_head?_eq_some.1 hf
      rcases hc d hhead with hb | hs
      · have hmem : d ∈ f.spelling.toList := by simp [hd]
        rw [Fixed.isBlank_of_mem hmem] at hb
        cases hb
      · rw [hd, List.prefix_append_right_inj]
        exact List.singleton_prefix_iff_head?_eq_some.2 hs

theorem takeWhile_continues {kind : Char → Bool} {more rest other : List Char}
    (hk : ∀ d, isBlank d = true → kind d = false) (h : (more ++ rest).takeWhile kind = more)
    (hc : Continues rest other) : (more ++ other).takeWhile kind = more := by
  have hmore : ∀ d ∈ more, kind d = true := by
    intro d hd
    rw [← h] at hd
    exact List.mem_takeWhile_imp hd
  exact takeWhile_exact hmore (hc.stops hk (takeWhile_stops h))

theorem fixed?_continues {offered : Terminal → Bool} {c : Char} {more rest other : List Char}
    {t : Terminal} (h : fixed? offered c (more ++ rest) = some (t, more))
    (hc : Continues rest other) : fixed? offered c (more ++ other) = some (t, more) := by
  obtain ⟨before, g, after, hall, hg, hbefore⟩ := List.findSome?_eq_some_iff.1 h
  obtain ⟨rfl, ho, hs, -⟩ := fixed?_branch hg
  refine List.findSome?_eq_some_iff.2 ⟨before, g, after, hall, ?_, fun f hf => ?_⟩
  · simp [hs, ho]
  · have hnone := fixed?_branch_none.1 (hbefore f hf)
    refine fixed?_branch_none.2 fun hoffered hprefix => hnone hoffered ?_
    exact Fixed.prefix_of_continues hs hc hprefix

/-- Only a string literal starts with a quote. -/
theorem IsLexeme.text_of_quote {t : Terminal} {more : List Char} (h : IsLexeme t ('"' :: more)) :
    t = .text := by
  match t, h with
  | .text, _ => rfl
  | .ident, ⟨_, _, hw, hs, _⟩ =>
    obtain ⟨rfl, -⟩ := List.cons.inj hw
    exact absurd hs (by decide)
  | .number, ⟨_, hd⟩ => exact absurd (hd '"' List.mem_cons_self) (by decide)
  | .fixed f, hf => exact absurd rfl (Fixed.first_letter (Eq.symm hf)).1

/-- The word in front stays the same. -/
theorem lexeme?_continues {offered : Terminal → Bool} {c : Char} {more rest other : List Char}
    {t : Terminal} (h : lexeme? offered c (more ++ rest) = some (t, more))
    (hc : Continues rest other) : lexeme? offered c (more ++ other) = some (t, more) := by
  by_cases hq : c = '"'
  · subst hq
    obtain ⟨ho, -, hlex, -⟩ := lexeme?_sound h
    obtain rfl := hlex.text_of_quote
    exact lexeme?_complete ho hlex (fun h => nomatch h) (fun _ _ => rfl)
  · have hpart : ∀ d, isBlank d = true → isWordPart d = false :=
      fun d hd => Terminal.ident.joins_blank hd
    have hdigits : ∀ d, isBlank d = true → d.isDigit = false :=
      fun d hd => Terminal.number.joins_blank hd
    unfold lexeme? at h ⊢
    simp only [hq, decide_false, Bool.and_false, Bool.false_eq_true, if_false] at h ⊢
    split at h
    · next hword =>
      obtain ⟨ht, hmore⟩ := Prod.mk.inj (Option.some.inj h)
      rw [hmore] at ht
      rw [if_pos hword, takeWhile_continues hpart hmore hc, ht]
    · next hword =>
      rw [if_neg hword]
      split at h
      · next hdigit =>
        obtain ⟨ht, hmore⟩ := Prod.mk.inj (Option.some.inj h)
        rw [if_pos hdigit, takeWhile_continues hdigits hmore hc, ht]
      · next hdigit =>
        rw [if_neg hdigit]
        exact fixed?_continues h hc

/-- Where no offered word is in front, none is when a blank follows the word that is there. -/
theorem lexeme?_blank_none {offered : Terminal → Bool} {c b : Char} {more rest : List Char}
    {t : Terminal} (h : lexeme? offered c (more ++ rest) = none)
    (hword : lexeme? (fun _ => true) c (more ++ rest) = some (t, more)) (hb : isBlank b = true)
    (tail : List Char) : lexeme? offered c (more ++ b :: tail) = none := by
  have hquote : (offered .text && decide (c = '"')) = false := by
    by_contra hq
    simp only [Bool.not_eq_false, Bool.and_eq_true, decide_eq_true_eq] at hq
    obtain ⟨ho, rfl⟩ := hq
    obtain ⟨-, -, hlex, -⟩ := lexeme?_sound hword
    obtain rfl := hlex.text_of_quote
    rw [lexeme?_complete ho hlex (fun h => nomatch h) (fun _ _ => rfl)] at h
    cases h
  unfold lexeme? at h ⊢
  simp only [hquote, Bool.false_eq_true, if_false] at h ⊢
  split at h
  · cases h
  · next hw =>
    split at h
    · cases h
    · next hd =>
      rw [if_neg hw, if_neg hd, fixed?_eq_none_iff]
      rw [fixed?_eq_none_iff] at h
      intro f ho hp
      have hfront : f.spelling.toList <+: c :: more := Fixed.prefix_of_blank hb hp
      exact h f ho (hfront.trans (List.prefix_append _ rest))

end Moo
