import Moo.Proofs.Reading.Continuations
import Moo.Proofs.Reading.Endings
import Moo.Proofs.Reading.Locations

/-!
# What a syntax error says

A syntax error stands where the text can no longer be the start of a program
and not before. What is in front of it can be completed, since every place
that the reader gets to leads to the end of a program. The word that is
refused is refused whatever comes behind it, if a blank sets it off.

* `Place.Passes`: reading over a text from one place to another, whatever
  follows; `Place.Stuck`: refusing what follows.
* `readOn_stuck`: a text that is refused is passed over up to a place that is
  stuck.
* `Place.Passes.viable`: what is passed over can be completed.
* `Place.Stuck.word_refused`: a refused word stays refused in front of a blank.
* `parse_malformed`: the statement for whole texts.
-/
namespace Moo

namespace Place

/-- Over `front`, where `rest` follows or another text that continues it, the words lead from the
place to the last one. -/
def Passes (place : Place) (loc : Loc) (front rest : List Char) (tokens : List Token)
    (last : Place) : Prop :=
  ∀ other, Continues rest other → ∀ read,
    readOn place read loc (front ++ other) =
      readOn last (tokens.reverse ++ read) (loc.past front) other

/-- The text is refused at the place, behind the gap at its front, for its next word, character or
end. -/
inductive Stuck (place : Place) (read : List Token) (loc : Loc) :
    List Char → SyntaxError → Prop
  | word {lead c more tail terminal} : gap (lead ++ c :: (more ++ tail)) = lead →
    lexeme? place.spot.offers c (more ++ tail) = some (terminal, more) →
    place.step? ⟨terminal, String.ofList (c :: more), loc.past lead⟩ = none →
    Stuck place read loc (lead ++ c :: (more ++ tail))
      (.unexpectedWord (loc.past lead) (String.ofList (c :: more)))
  | unoffered {lead c more tail terminal} : gap (lead ++ c :: (more ++ tail)) = lead →
    lexeme? place.spot.offers c (more ++ tail) = none →
    lexeme? (fun _ => true) c (more ++ tail) = some (terminal, more) →
    Stuck place read loc (lead ++ c :: (more ++ tail))
      (.unexpectedWord (loc.past lead) (String.ofList (c :: more)))
  | character {lead c tail} : gap (lead ++ c :: tail) = lead →
    lexeme? place.spot.offers c tail = none → lexeme? (fun _ => true) c tail = none →
    Stuck place read loc (lead ++ c :: tail) (.unexpectedCharacter (loc.past lead) c)
  | ending {lead} : gap lead = lead → place.program? = none →
    Stuck place read loc lead
      (.unexpectedEnd ((read.head?.map Token.loc).getD (loc.past lead)))

namespace Passes

variable {place next last : Place} {loc : Loc} {front rest : List Char} {tokens : List Token}

theorem nil : place.Passes loc [] rest [] place :=
  fun _ _ _ => rfl

/-- One more word in front. -/
theorem word {lead more : List Char} {c : Char} {terminal : Terminal}
    (hgap : gap (lead ++ c :: (more ++ (front ++ rest))) = lead)
    (hl : lexeme? place.spot.offers c (more ++ (front ++ rest)) = some (terminal, more))
    (hs : place.step? ⟨terminal, String.ofList (c :: more), loc.past lead⟩ = some next)
    (h : next.Passes (loc.past (lead ++ c :: more)) front rest tokens last) :
    place.Passes loc (lead ++ c :: more ++ front) rest
      (⟨terminal, String.ofList (c :: more), loc.past lead⟩ :: tokens) last := by
  intro other hc read
  have hgap' : gap (lead ++ c :: (more ++ (front ++ other))) = lead :=
    gap_eq_of_continues hgap ((hc.append front).append more)
  have hl' := lexeme?_continues hl (hc.append front)
  have hread := h other hc (⟨terminal, String.ofList (c :: more), loc.past lead⟩ :: read)
  have htext : lead ++ c :: more ++ front ++ other =
      lead ++ c :: (more ++ (front ++ other)) := by
    simp
  rw [htext, readOn_cons (drop_gap hgap')]
  simp only [hgap', hl', hs, List.drop_left]
  rw [← Loc.past_append, hread]
  simp [Loc.past_append]

end Passes

end Place

/-- Each word of a text stands behind some front of it. -/
theorem Cut.loc_of_mem {loc : Loc} {text : List Char} {tokens : List Token}
    (h : Cut loc text tokens) {token : Token} (ht : token ∈ tokens) :
    ∃ front rest, text = front ++ rest ∧ token.loc = loc.past front := by
  induction h with
  | last => cases ht
  | @word loc gap rest tokens first _ _ hl _ ih =>
    rcases List.mem_cons.1 ht with rfl | ht
    · exact ⟨gap, token.text.toList ++ rest, by simp, hl⟩
    · obtain ⟨front, rest', rfl, hloc⟩ := ih ht
      refine ⟨gap ++ first.text.toList ++ front, rest', by simp, ?_⟩
      rw [hloc, Loc.past_append loc (gap ++ first.text.toList)]

/-- A text that is refused is passed over up to where the reader is stuck. -/
theorem readOn_stuck {place : Place} {read : List Token} {loc : Loc} {text : List Char}
    {error : SyntaxError} (h : readOn place read loc text = .error error) :
    ∃ front rest tokens last, text = front ++ rest ∧ Cut loc front tokens ∧
      place.Passes loc front rest tokens last ∧
      last.Stuck (tokens.reverse ++ read) (loc.past front) rest error := by
  fun_induction readOn place read loc text with
  | case1 => cases h
  | case2 place read loc text skipped loc' hd hp =>
    obtain ⟨front, rfl, hgap⟩ := exists_gap hd
    have hloc : loc' = loc.past front := congrArg loc.past hgap
    cases h
    rw [List.append_nil] at hgap
    rw [hloc, List.append_nil]
    exact ⟨[], front, [], place, rfl, .last .nil, .nil, .ending hgap hp⟩
  | case3 place read loc text skipped loc' c rest hd terminal more hl token next hs ih =>
    obtain ⟨-, ⟨tail, rfl⟩, hlex, -⟩ := lexeme?_sound hl
    obtain ⟨lead, rfl, hgap⟩ := exists_gap hd
    have hloc : loc' = loc.past lead := congrArg loc.past hgap
    have htoken : token = ⟨terminal, String.ofList (c :: more), loc.past lead⟩ :=
      congrArg (Token.mk terminal _) hloc
    obtain ⟨front, rest, tokens, last, hrest, hcut, hpasses, hstuck⟩ := ih h
    obtain rfl : tail = front ++ rest := by rwa [List.drop_left] at hrest
    have hpast : loc'.past (c :: more) = loc.past (lead ++ c :: more) := by
      rw [hloc, Loc.past_append]
    rw [hpast] at hcut hpasses hstuck
    rw [htoken] at hs hstuck
    refine ⟨lead ++ c :: more ++ front, rest, _, last, by simp, ?_, .word hgap hl hs hpasses, ?_⟩
    · exact hcut.cons (isGap_of_eq hgap) hlex
    · rw [Loc.past_append, List.reverse_cons, List.append_assoc]
      exact hstuck
  | case4 place read loc text skipped loc' c rest hd terminal more hl token hs =>
    obtain ⟨-, ⟨tail, rfl⟩, -, -⟩ := lexeme?_sound hl
    obtain ⟨front, rfl, hgap⟩ := exists_gap hd
    have hloc : loc' = loc.past front := congrArg loc.past hgap
    have htoken : token = ⟨terminal, String.ofList (c :: more), loc.past front⟩ :=
      congrArg (Token.mk terminal _) hloc
    cases h
    rw [hloc]
    rw [htoken] at hs
    exact ⟨[], _, [], place, rfl, .last .nil, .nil, .word hgap hl hs⟩
  | case5 place read loc text skipped loc' c rest hd hn terminal more hl =>
    obtain ⟨-, ⟨tail, rfl⟩, -, -⟩ := lexeme?_sound hl
    obtain ⟨front, rfl, hgap⟩ := exists_gap hd
    have hloc : loc' = loc.past front := congrArg loc.past hgap
    cases h
    rw [hloc]
    exact ⟨[], _, [], place, rfl, .last .nil, .nil, .unoffered hgap hn hl⟩
  | case6 place read loc text skipped loc' c rest hd hn hnone =>
    obtain ⟨front, rfl, hgap⟩ := exists_gap hd
    have hloc : loc' = loc.past front := congrArg loc.past hgap
    cases h
    rw [hloc]
    exact ⟨[], _, [], place, rfl, .last .nil, .nil, .character hgap hn hnone⟩

/-! ## What can still become a program -/

/-- The text has no syntax error; a number in it may still be too long. -/
def Clean (text : List Char) : Prop :=
  ∀ error, parse (String.ofList text) ≠ .error (.malformed error)

/-- Some text without a syntax error starts with this one. -/
def Viable (front : List Char) : Prop :=
  ∃ more, Clean (front ++ more)

theorem clean_iff {text : List Char} :
    Clean text ↔ ∃ reading, readOn (.between []) [] .start text = .ok reading := by
  unfold Clean parse read
  rw [String.toList_ofList]
  cases readOn (.between []) [] .start text with
  | error error => simp
  | ok reading =>
    simp only [Except.ok.injEq, exists_eq', iff_true]
    intro error
    split <;> exact nofun

namespace Place

variable {place last : Place} {loc : Loc} {front rest : List Char} {tokens : List Token}

/-- What has been passed over, with the gap behind it, can be completed. -/
theorem Passes.viable {lead tail : List Char}
    (h : Passes (.between []) .start front (lead ++ tail) tokens last)
    (hgap : gap (lead ++ tail) = lead) : Viable (front ++ lead) := by
  obtain ⟨text, reading, hread⟩ := readOn_finishes last (tokens.reverse ++ [])
    ((Loc.start.past front).past lead)
  refine ⟨'\n' :: text, clean_iff.2 ⟨reading, ?_⟩⟩
  have hblank : Continues tail ('\n' :: text) := .blank (by decide) tail text
  have hskipped : gap (lead ++ '\n' :: text) = lead ++ gap ('\n' :: text) :=
    gap_newline hgap text
  rw [List.append_assoc, h _ (hblank.append lead), readOn_skip lead hskipped, hread]

/-- A refused word stands behind a gap, and is refused as well where a blank sets it off. -/
theorem Stuck.word_refused {read : List Token} {text : List Char} {wordLoc : Loc} {word : String}
    (h : place.Stuck read loc text (.unexpectedWord wordLoc word)) :
    ∃ lead tail, text = lead ++ (word.toList ++ tail) ∧ gap text = lead ∧
      wordLoc = loc.past lead ∧ ∀ b more, isBlank b = true →
        readOn place read loc (lead ++ (word.toList ++ b :: more)) =
          .error (.unexpectedWord wordLoc word) := by
  cases h with
  | @word lead c word tail terminal hgap hl hs =>
    refine ⟨lead, tail, by simp, hgap, rfl, fun b more hb => ?_⟩
    have hc : Continues tail (b :: more) := .blank hb tail more
    have hgap' : gap (lead ++ c :: (word ++ b :: more)) = lead :=
      gap_eq_of_continues hgap (hc.append word)
    have hl' := lexeme?_continues hl hc
    rw [String.toList_ofList, List.cons_append, readOn_cons (drop_gap hgap')]
    simp only [hgap', hl', hs]
  | @unoffered lead c word tail terminal hgap hn hl =>
    refine ⟨lead, tail, by simp, hgap, rfl, fun b more hb => ?_⟩
    have hc : Continues tail (b :: more) := .blank hb tail more
    have hgap' : gap (lead ++ c :: (word ++ b :: more)) = lead :=
      gap_eq_of_continues hgap (hc.append word)
    have hl' := lexeme?_continues hl hc
    have hn' := lexeme?_blank_none hn hl hb more
    rw [String.toList_ofList, List.cons_append, readOn_cons (drop_gap hgap')]
    simp only [hgap', hl', hn']

end Place

/-- The error stands between the two parts of the text. -/
def SyntaxError.Splits (error : SyntaxError) (source : String) (front rest : List Char) : Prop :=
  source.toList = front ++ rest ∧ Loc.start.past front = error.loc

/-- What the error tells about a text that it splits. The word or the character that it names stands
behind it, and what is in front can go on to a text without syntax errors; but not with this word,
if a blank sets it off. At the end of a text, all of it can go on. -/
def SyntaxError.Tells (source : String) (front rest : List Char) : SyntaxError → Prop
  | unexpectedWord _ word => word.toList <+: rest ∧ Viable front ∧
    ∀ b more, isBlank b = true → ¬ Clean (front ++ word.toList ++ b :: more)
  | unexpectedCharacter _ c => rest.head? = some c ∧ Viable front
  | unexpectedEnd _ => Viable source.toList

/-- No two parts of a text end at the same location. -/
theorem Loc.front_unique {loc : Loc} {a b c d : List Char} (h : a ++ b = c ++ d)
    (hloc : loc.past a = loc.past c) : a = c := by
  have hgrow {x y : List Char} (hp : x <+: y) (hxy : loc.past x = loc.past y) : x = y := by
    obtain ⟨e, rfl⟩ := hp
    rw [Loc.past_append] at hxy
    by_contra hne
    exact (Loc.before_past _ (by simpa using hne)).ne hxy
  rcases List.prefix_or_prefix_of_prefix (List.prefix_append a b) (h ▸ List.prefix_append c d) with
    hp | hp
  · exact hgrow hp hloc
  · exact (hgrow hp hloc.symm).symm

theorem SyntaxError.Splits.unique {error : SyntaxError} {source : String}
    {a b c d : List Char} (h : error.Splits source a b) (h' : error.Splits source c d) :
    c = a ∧ d = b := by
  have htext : a ++ b = c ++ d := h.1.symm.trans h'.1
  obtain rfl := Loc.front_unique htext (h.2.trans h'.2.symm)
  exact ⟨rfl, (List.append_cancel_left htext).symm⟩

theorem read_of_malformed {source : String} {error : SyntaxError}
    (h : parse source = .error (.malformed error)) : read source = .error error := by
  unfold parse at h
  split at h
  · next hread =>
    cases h
    exact hread
  · split at h <;> cases h

/-- At the end of a text, the location of its last word is taken. -/
theorem splits_end {source : String} {front rest : List Char} {tokens : List Token}
    (hsource : source.toList = front ++ rest) (hcut : Cut .start front tokens) :
    ∃ a b, (SyntaxError.unexpectedEnd
      ((tokens.reverse.head?.map Token.loc).getD ((Loc.start.past front).past rest))).Splits
        source a b := by
  cases hlast : tokens.reverse.head? with
  | none =>
    refine ⟨source.toList, [], (List.append_nil _).symm, ?_⟩
    rw [hsource, Loc.past_append]
    rfl
  | some token =>
    have hmem : token ∈ tokens := List.mem_reverse.1 (List.mem_of_head? hlast)
    obtain ⟨a, b, rfl, hloc⟩ := hcut.loc_of_mem hmem
    exact ⟨a, b ++ rest, by rw [hsource, List.append_assoc], hloc.symm⟩

/-- A syntax error stands at one place of the text, and what it tells of that place is so. -/
theorem parse_malformed {source : String} {error : SyntaxError}
    (h : parse source = .error (.malformed error)) :
    ∃ front rest, error.Splits source front rest ∧
      (∀ front' rest', error.Splits source front' rest' → front' = front ∧ rest' = rest) ∧
      error.Tells source front rest := by
  obtain ⟨front, rest, tokens, last, hsource, hcut, hpasses, hstuck⟩ :=
    readOn_stuck (read_of_malformed h)
  rw [List.append_nil] at hstuck
  cases error with
  | unexpectedWord loc word =>
    obtain ⟨lead, tail, rfl, hgap, hloc, hrefused⟩ := hstuck.word_refused
    have hsplits : (SyntaxError.unexpectedWord loc word).Splits source (front ++ lead)
        (word.toList ++ tail) :=
      ⟨by rw [hsource, List.append_assoc], (Loc.past_append _ _ _).trans hloc.symm⟩
    refine ⟨_, _, hsplits, fun _ _ => hsplits.unique, List.prefix_append _ _,
      hpasses.viable hgap, fun b more hb => ?_⟩
    rw [clean_iff]
    rintro ⟨reading, hread⟩
    -- the words in front are read as before, and then this one is refused
    have hblank : Continues tail (b :: more) := .blank hb tail more
    have hagain := hpasses _ ((hblank.append word.toList).append lead) []
    rw [List.append_nil, hrefused b more hb] at hagain
    simp only [List.append_assoc] at hread
    rw [hread] at hagain
    cases hagain
  | unexpectedCharacter loc c =>
    cases hstuck with
    | @character lead c tail hgap =>
      have hsplits : (SyntaxError.unexpectedCharacter ((Loc.start.past front).past lead) c).Splits
          source (front ++ lead) (c :: tail) :=
        ⟨by rw [hsource, List.append_assoc], Loc.past_append _ _ _⟩
      exact ⟨_, _, hsplits, fun _ _ => hsplits.unique, rfl, hpasses.viable hgap⟩
  | unexpectedEnd loc =>
    cases hstuck with
    | ending hgap =>
      obtain ⟨a, b, hsplits⟩ := splits_end hsource hcut
      refine ⟨a, b, hsplits, fun _ _ => hsplits.unique, ?_⟩
      have hviable : Viable (front ++ rest) := by
        rw [← List.append_nil rest] at hpasses
        exact hpasses.viable (by rw [List.append_nil, hgap])
      rwa [← hsource] at hviable

/-- Behind a name, `--` is one word wherever the name stands, and it ends no operand. -/
theorem parse_malformed_decrement :
    parse "int f()\x7bx=a--1;\x7d" = .error (.malformed (.unexpectedWord ⟨1, 12⟩ "--")) ∧
      Viable "int f()\x7bx=a".toList ∧
      ∀ b more, isBlank b = true → ¬ Clean ("int f()\x7bx=a--".toList ++ b :: more) := by
  have h : parse "int f()\x7bx=a--1;\x7d" =
      .error (.malformed (.unexpectedWord ⟨1, 12⟩ "--")) := by
    cbv
  have hsplits : (SyntaxError.unexpectedWord ⟨1, 12⟩ "--").Splits "int f()\x7bx=a--1;\x7d"
      "int f()\x7bx=a".toList "--1;\x7d".toList :=
    ⟨by decide +kernel, by decide +kernel⟩
  obtain ⟨front, rest, -, hunique, -, hviable, hrefused⟩ := parse_malformed h
  obtain ⟨rfl, rfl⟩ := hunique _ _ hsplits
  exact ⟨h, hviable, hrefused⟩

end Moo
