import Moo.Reading
import Moo.Proofs.Reading.Lexical
import Moo.Proofs.Reading.Steps

/-!
# From a text to its words and back

`Cut loc text tokens` says that the text, which starts at `loc`, is made of
gaps and the words `tokens`, each where its location says. `Spot.Finds` is
what makes a word the one that is found at a spot, and `Place.Leads` goes
from a place over words that are found to another place.

* `readOn_ok`: when a text is read, it is cut into words that lead to a place
  where a program may end.
* `readOn_word`, `readOn_end`: blanks and a word that is found are read as
  that word, and blanks at the end as nothing.
* `Place.offers_of_step`: a place offers every word that it has a step for.
-/
namespace Moo

/-- The text is made of gaps and the given words. -/
inductive Cut : Loc → List Char → List Token → Prop
  | last {loc gap} : IsGap gap → Cut loc gap []
  | word {loc gap rest tokens} {token : Token} : IsGap gap →
    IsLexeme token.terminal token.text.toList → token.loc = loc.past gap →
    Cut (loc.past (gap ++ token.text.toList)) rest tokens →
    Cut loc (gap ++ token.text.toList ++ rest) (token :: tokens)

/-- One more word in front. -/
theorem Cut.cons {loc : Loc} {lead word rest : List Char} {tokens : List Token}
    {terminal : Terminal} (h : Cut (loc.past (lead ++ word)) rest tokens) (hb : IsGap lead)
    (hlex : IsLexeme terminal word) :
    Cut loc (lead ++ word ++ rest)
      (⟨terminal, String.ofList word, loc.past lead⟩ :: tokens) := by
  have htext : (String.ofList word).toList = word := String.toList_ofList
  rw [← htext] at h hlex
  have hcut := @Cut.word loc lead rest tokens ⟨terminal, String.ofList word, _⟩ hb hlex rfl h
  rwa [htext] at hcut

/-- The word is spelled like an offered terminal, and it is no offered keyword if it is an
identifier. -/
structure Spot.Finds (spot : Spot) (token : Token) : Prop where
  offered : spot.offers token.terminal = true
  spelled : IsLexeme token.terminal token.text.toList
  unlike : token.terminal = .ident →
    ∀ f : Fixed, spot.offers (.fixed f) = true → f.spelling ≠ token.text

/-- The words are found one after the other, each at the place where the ones before it lead. -/
inductive Place.Leads : Place → List Token → Place → Prop
  | stay {place} : Place.Leads place [] place
  | word {place token next tokens last} : place.spot.Finds token →
    place.step? token = some next → Place.Leads next tokens last →
    Place.Leads place (token :: tokens) last

/-! ## What was read -/

theorem readOn_ok {place : Place} {read : List Token} {loc : Loc} {rest : List Char}
    {reading : Reading} (h : readOn place read loc rest = .ok reading) :
    ∃ tokens last, reading.tokens = read.reverse ++ tokens ∧ Cut loc rest tokens ∧
      place.Leads tokens last ∧ last.program? = some reading.program := by
  fun_induction readOn place read loc rest with
  | case1 place read loc text skipped hd program hp =>
    obtain ⟨front, rfl, hgap⟩ := exists_gap hd
    cases h
    rw [List.append_nil] at hgap ⊢
    exact ⟨[], place, (List.append_nil _).symm, .last (isGap_of_eq hgap), .stay, hp⟩
  | case2 => cases h
  | case3 place read loc text skipped loc' c rest hd terminal more hl token next hs ih =>
    obtain ⟨ho, ⟨tail, rfl⟩, hlex, hid⟩ := lexeme?_sound hl
    obtain ⟨lead, rfl, hgap⟩ := exists_gap hd
    obtain ⟨tokens, last, ht, hc, hw, hp⟩ := ih h
    have hloc : loc' = loc.past lead := congrArg loc.past hgap
    have htoken : token = ⟨terminal, String.ofList (c :: more), loc.past lead⟩ :=
      congrArg (Token.mk terminal _) hloc
    have htext : token.text.toList = c :: more := String.toList_ofList
    have hfinds : place.spot.Finds token := by
      refine ⟨ho, htext ▸ hlex, fun hi f hf he => hid hi f hf ?_⟩
      rw [he, htext]
    rw [hloc, ← Loc.past_append, List.drop_left] at hc
    have hcut := hc.cons (isGap_of_eq hgap) hlex
    rw [← htoken, List.append_assoc] at hcut
    exact ⟨token :: tokens, last, by simpa using ht, hcut, .word hfinds hs hw, hp⟩
  | case4 => cases h
  | case5 => cases h
  | case6 => cases h

theorem parse_reads {source : String} {program : Program} (h : parse source = .ok program) :
    ∃ reading, read source = .ok reading ∧ reading.program = program ∧
      ∀ t ∈ reading.tokens, t.overlong? = none := by
  unfold parse at h
  split at h
  · cases h
  · next reading hr =>
    split at h
    · cases h
    · next ho =>
      cases h
      exact ⟨reading, hr, rfl, List.findSome?_eq_none_iff.1 ho⟩

theorem parse_ok {source : String} {program : Program} (h : parse source = .ok program) :
    ∃ tokens last, Cut .start source.toList tokens ∧ (∀ t ∈ tokens, t.overlong? = none) ∧
      Place.Leads (.between []) tokens last ∧ last.program? = some program := by
  obtain ⟨reading, hr, rfl, ho⟩ := parse_reads h
  obtain ⟨tokens, last, ht, hc, hw, hp⟩ := readOn_ok hr
  obtain rfl : reading.tokens = tokens := ht
  exact ⟨_, last, hc, ho, hw, hp⟩

/-! ## What will be read -/

section Turn

variable {place : Place} {read : List Token} {loc : Loc} {rest : List Char}

/-- The reader at the end of a text. -/
theorem readOn_nil (h : rest.drop (gap rest).length = []) :
    readOn place read loc rest =
      match place.program? with
      | some program => .ok ⟨read.reverse, program⟩
      | none =>
        .error (.unexpectedEnd ((read.head?.map Token.loc).getD (loc.past (gap rest)))) := by
  rw [readOn]
  split
  · rfl
  · next h' => rw [h] at h'; cases h'

/-- The reader in front of a word. -/
theorem readOn_cons {c : Char} {rest' : List Char}
    (h : rest.drop (gap rest).length = c :: rest') :
    readOn place read loc rest =
      match lexeme? place.spot.offers c rest' with
      | some (terminal, more) =>
        match place.step? ⟨terminal, String.ofList (c :: more), loc.past (gap rest)⟩ with
        | some next =>
          readOn next (⟨terminal, String.ofList (c :: more), loc.past (gap rest)⟩ :: read)
            ((loc.past (gap rest)).past (c :: more)) (rest'.drop more.length)
        | none => .error (.unexpectedWord (loc.past (gap rest)) (String.ofList (c :: more)))
      | none =>
        match lexeme? (fun _ => true) c rest' with
        | some (_, more) =>
          .error (.unexpectedWord (loc.past (gap rest)) (String.ofList (c :: more)))
        | none => .error (.unexpectedCharacter (loc.past (gap rest)) c) := by
  rw [readOn]
  split
  · next h' => rw [h] at h'; cases h'
  · next h' =>
    rw [h] at h'
    cases h'
    rfl

/-- What belongs to the gap at the front is skipped. -/
theorem readOn_skip (front : List Char) {text : List Char}
    (hgap : gap (front ++ text) = front ++ gap text) :
    readOn place read loc (front ++ text) = readOn place read (loc.past front) text := by
  have hdrop : (front ++ text).drop (gap (front ++ text)).length = text.drop (gap text).length := by
    rw [hgap, List.length_append, List.drop_length_add_append]
  have hloc : loc.past (gap (front ++ text)) = (loc.past front).past (gap text) := by
    rw [hgap, Loc.past_append]
  rcases hd : text.drop (gap text).length with _ | ⟨c, rest⟩
  · rw [readOn_nil (hdrop.trans hd), readOn_nil hd, hloc]
  · rw [readOn_cons (hdrop.trans hd), readOn_cons hd, hloc]

end Turn

theorem readOn_end {place : Place} {read : List Token} {loc : Loc} {blanks : List Char}
    {program : Program} (hb : ∀ c ∈ blanks, isBlank c = true) (hp : place.program? = some program) :
    readOn place read loc blanks = .ok ⟨read.reverse, program⟩ := by
  have hd : blanks.drop (gap blanks).length = [] := by rw [gap_only_blanks hb, List.drop_length]
  rw [readOn_nil hd]
  simp only [hp]

/-- A word that is found, with blanks in front of it and nothing behind it that joins it to another
word, is read. -/
theorem readOn_word {place next : Place} (read : List Token) {loc : Loc} {blanks rest : List Char}
    {token : Token} (hb : ∀ c ∈ blanks, isBlank c = true) (hl : token.loc = loc.past blanks)
    (hf : place.spot.Finds token) (hr : ∀ d ∈ rest.head?, token.terminal.joins d = false)
    (hs : place.step? token = some next) :
    readOn place read loc (blanks ++ token.text.toList ++ rest) =
      readOn next (token :: read) (token.loc.past token.text.toList) rest := by
  obtain ⟨ho, hlex, hid⟩ := hf
  obtain ⟨terminal, text, tokenLoc⟩ := token
  obtain rfl : tokenLoc = loc.past blanks := hl
  obtain ⟨c, more, htext⟩ := List.exists_cons_of_ne_nil hlex.ne_nil
  have hid' : terminal = .ident →
      ∀ f : Fixed, place.spot.offers (.fixed f) = true → f.spelling.toList ≠ c :: more :=
    fun hi f hf he => hid hi f hf (String.toList_injective (he.trans htext.symm))
  simp only [htext] at hlex ⊢
  obtain ⟨hblank, hcomment⟩ := hlex.stops hr
  have hgap : gap (blanks ++ c :: (more ++ rest)) = blanks := gap_blanks hb hblank hcomment
  have hlexeme := lexeme?_complete ho hlex hid' hr
  have hstring : String.ofList (c :: more) = text := by rw [← htext, String.ofList_toList]
  rw [List.append_assoc, List.cons_append, readOn_cons (drop_gap hgap)]
  simp only [hgap, hlexeme, hstring, hs, List.drop_left]

/-! ## What is offered -/

variable {token : Token} {next : Place}

/-- Where an operand starts, what starts one is offered, and what ends what needs none. -/
theorem OperandSteps.offered {pending : List Pending} {hole : Hole}
    (h : OperandSteps pending hole token next) :
    (Place.atOperand pending hole).spot.offers token.terminal = true := by
  have hsub : ∀ t ∈ Spot.operandWords, (Place.atOperand pending hole).spot.offers t = true := by
    intro t ht
    unfold Place.spot
    split <;> simp_all [Spot.offers, Spot.terminals]
  cases h with
  | sign hm ht =>
    rw [ht]
    simp only [List.mem_cons, List.not_mem_nil, or_false] at hm
    obtain rfl | rfl := hm <;> exact hsub _ (by decide)
  | close he hc =>
    subst he
    cases hc with
    | _ ht => rw [ht]; rfl
  | _ ht => rw [ht]; exact hsub _ (by decide)

theorem Seat.Steps.offered {seat : Seat} {target : Expr} (h : seat.Steps target token next) :
    (Place.afterTarget seat target).spot.offers token.terminal = true := by
  cases h with
  | read ht => rw [ht]; cases target <;> rfl
  | callStmt hn ht => rw [hn, ht]; rfl
  | call hn ht => rw [hn, ht]; rfl
  | assign _ ht => rw [ht]; cases target <;> rfl
  | value hv =>
    have hend := hv.operandEnd
    cases target <;> simp_all [Place.spot, Spot.offers, Spot.terminals]
  | _ ht => rw [ht]; cases target <;> rfl

theorem Block.Steps.offered {block : Block} (h : block.Steps token next) :
    block.spot.offers token.terminal = true := by
  have hstmt : ∀ t ∈ .fixed .closeBrace :: Spot.statementWords, block.spot.offers t = true := by
    intro t ht
    unfold Block.spot
    split <;> simp_all [Spot.offers, Spot.terminals] <;> grind
  cases h with
  | type he ht =>
    have htype := ht.typeWord
    unfold Block.spot
    rw [he]
    cases block.decls <;> simp_all [Spot.offers, Spot.terminals]
  | elseWord ht hs => simp [Block.spot, hs, ht, Spot.offers, Spot.terminals]
  | _ ht => rw [ht]; exact hstmt _ (by decide)

theorem Slot.Steps.offered {slot : Slot} {type : TypeExpr} {id : Ident}
    (h : slot.Steps type id token next) :
    (Place.named slot type id).spot.offers token.terminal = true := by
  cases h with
  | _ ht => rw [ht]; rfl

theorem Place.Steps.offered {place : Place} (h : place.Steps token next) :
    place.spot.offers token.terminal = true := by
  cases h with
  | between ht =>
    have htype := ht.typeWord
    unfold Place.spot
    split <;> simp_all [Spot.offers, Spot.terminals]
  | structType _ ht => rw [ht]; rfl
  | named hs => exact hs.offered
  | closeStruct hn ht =>
    obtain ⟨f, fields, rfl⟩ := List.exists_cons_of_ne_nil hn
    rw [ht]
    rfl
  | field ht =>
    next before tag fields =>
    have htype := ht.typeWord
    cases fields <;> simp_all [Place.spot, Spot.offers, Spot.terminals]
  | noFormals hn ht =>
    next header =>
    obtain ⟨before, returns, id, formals⟩ := header
    cases hn
    rw [ht]
    rfl
  | formal ht =>
    next header =>
    obtain ⟨before, returns, id, formals⟩ := header
    have htype := ht.typeWord
    cases formals <;> simp_all [Place.spot, Spot.offers, Spot.terminals]
  | inBlock hs => exact hs.offered
  | operand hs => exact hs.offered
  | dot ht =>
    next seat target =>
    rw [ht]
    cases seat <;> cases target <;> rfl
  | target hs => exact hs.offered
  | value hv =>
    have hend := hv.operandEnd
    simpa [Place.spot, Spot.offers, Spot.terminals] using hend
  | _ ht => rw [ht]; rfl

/-- A place offers every word that it has a step for. -/
theorem Place.offers_of_step {place : Place} (h : place.step? token = some next) :
    place.spot.offers token.terminal = true :=
  (Steps.of_step h).offered

end Moo
