import Moo.Proofs.Reading.Continuations
import Moo.Proofs.Reading.Judgments
import Moo.Proofs.Reading.Locations
import Moo.Proofs.Reading.Moves

/-!
# Layout does not matter

The words of a program may be laid out anew: with any blanks and comments
between them, as long as each gap inside starts with a blank and every
comment but the last ends with its line. What is read is the same program,
up to locations.

* `Layout`: the texts that consist of the given words and such gaps.
* `IsSpacing.skipped`: in front of whatever follows, the gap is skipped
  whole.
* `Layout.placed`: where the words stand in such a text, and that they are
  found there.
* `parse_layout`: the statement for whole texts.
-/
namespace Moo

/-! ## Gaps that can be put in front of any word -/

/-- A comment without the end of its line. -/
inductive IsComment : List Char → Prop
  | line {mark text} : mark = ['/', '/'] ∨ mark = ['#'] → '\n' ∉ text → IsComment (mark ++ text)

inductive IsSpacingPiece : List Char → Prop
  | blank {c} : isBlank c = true → IsSpacingPiece [c]
  | comment {text} : IsComment text → IsSpacingPiece (text ++ ['\n'])

/-- Blanks, and comments with the end of their line. -/
abbrev IsSpacing : List Char → Prop :=
  Star IsSpacingPiece

/-- What may stand behind the last word: the last comment needs no end of its line. -/
def IsLastSpacing (text : List Char) : Prop :=
  ∃ spacing comment, text = spacing ++ comment ∧ IsSpacing spacing ∧
    (comment = [] ∨ IsComment comment)

/-- Inside a comment that ends with the text. -/
theorem gapFrom_line {text : List Char} (h : '\n' ∉ text) : gapFrom true text = text := by
  induction text with
  | nil => rfl
  | cons c text ih =>
    obtain ⟨hc, ht⟩ := List.ne_and_not_mem_of_not_mem_cons h
    simp only [gapFrom, if_neg (Ne.symm hc), ih ht]

/-- What starts with the mark of a comment goes on inside the comment. -/
theorem gap_mark {mark : List Char} (h : mark = ['/', '/'] ∨ mark = ['#']) (rest : List Char) :
    gap (mark ++ rest) = mark ++ gapFrom true rest := by
  rcases h with rfl | rfl <;> simp [gap, gapFrom, isBlank, startsComment]

theorem IsComment.skipped {text : List Char} (h : IsComment text) : gap text = text := by
  obtain ⟨hmark, hline⟩ := h
  rw [gap_mark hmark, gapFrom_line hline]

theorem IsSpacingPiece.skipped {piece : List Char} (h : IsSpacingPiece piece) (rest : List Char) :
    gap (piece ++ rest) = piece ++ gap rest := by
  cases h with
  | blank hc => simp [gap, gapFrom, hc]
  | @comment text hcomment =>
    have hskipped : gap (text ++ []) = text := by rw [List.append_nil, hcomment.skipped]
    rw [List.append_assoc, List.append_assoc]
    exact gap_newline hskipped rest

/-- Such a gap is skipped whole, whatever follows. -/
theorem IsSpacing.skipped {spacing : List Char} (h : IsSpacing spacing) (rest : List Char) :
    gap (spacing ++ rest) = spacing ++ gap rest := by
  induction h with
  | nil => rfl
  | @cons a b hpiece _ ih => rw [List.append_assoc, hpiece.skipped, ih, List.append_assoc]

theorem IsLastSpacing.skipped {text : List Char} (h : IsLastSpacing text) : gap text = text := by
  obtain ⟨spacing, comment, rfl, hspacing, hcomment⟩ := h
  rw [hspacing.skipped]
  rcases hcomment with rfl | hcomment
  · rfl
  · rw [hcomment.skipped]

/-! ## Words with new gaps around them -/

/-- The text consists of the words and of gaps around them. The flag says that a word stands in
front: then the gap before the next word has to start with a blank. -/
inductive Layout : (inside : Bool) → (words : List String) → (text : List Char) → Prop
  | last {inside spacing} : IsLastSpacing spacing → Layout inside [] spacing
  | word {inside spacing word words rest} : IsSpacing spacing →
    (inside = true → ∃ c ∈ spacing.head?, isBlank c = true) → Layout true words rest →
    Layout inside (word :: words) (spacing ++ word.toList ++ rest)

/-- The same word, wherever it stands. -/
def Token.Like (a b : Token) : Prop :=
  a.terminal = b.terminal ∧ a.text = b.text

theorem Token.Like.texts {tokens others : List Token}
    (h : List.Forall₂ Token.Like tokens others) :
    others.map Token.text = tokens.map Token.text := by
  induction h with
  | nil => rfl
  | cons hlike _ ih => rw [List.map_cons, List.map_cons, ih, hlike.2]

/-- Words that stand at different locations can be moved to where like words stand. -/
theorem exists_move {tokens others : List Token}
    (hlike : List.Forall₂ Token.Like tokens others)
    (hdistinct : tokens.Pairwise fun a b => a.loc ≠ b.loc) :
    ∃ f, others = tokens.map (Token.move f) := by
  induction hlike with
  | nil => exact ⟨id, rfl⟩
  | @cons token other tokens others hlike _ ih =>
    obtain ⟨hne, hdistinct⟩ := List.pairwise_cons.1 hdistinct
    obtain ⟨f, rfl⟩ := ih hdistinct
    refine ⟨Function.update f token.loc other.loc, ?_⟩
    have hother : other = token.move (Function.update f token.loc other.loc) := by
      obtain ⟨hterminal, htext⟩ := hlike
      cases other
      simp only [Token.move, Function.update_self, hterminal, htext]
    have hothers : tokens.map (Token.move f) =
        tokens.map (Token.move (Function.update f token.loc other.loc)) := by
      refine List.map_congr_left fun t ht => ?_
      simp only [Token.move, Function.update_of_ne (hne t ht).symm]
    rw [List.map_cons, ← hothers, ← hother]

/-- Only a semicolon or a brace ends a program. -/
theorem Place.Steps.ends {place next : Place} {token : Token} {program : Program}
    (h : place.Steps token next) (hp : next.program? = some program) :
    token.terminal = .fixed .semicolon ∨ token.terminal = .fixed .closeBrace := by
  cases h with
  | endStruct ht => exact .inl ht
  | between ht => cases ht <;> cases hp
  | field ht => cases ht <;> cases hp
  | formal ht => cases ht <;> cases hp
  | named hs =>
    cases hs with
    | var ht => exact .inl ht
    | _ => cases hp
  | inBlock hs =>
    cases hs with
    | close ht => exact .inr ht
    | type _ ht => cases ht <;> cases hp
    | _ => cases hp
  | operand hs =>
    cases hs with
    | close _ hc => cases hc <;> cases hp
    | _ => cases hp
  | target hs =>
    cases hs with
    | value hv =>
      cases hv with
      | close hc => cases hc <;> cases hp
      | _ => cases hp
    | _ => cases hp
  | value hv =>
    cases hv with
    | close hc => cases hc <;> cases hp
    | _ => cases hp
  | _ => cases hp

namespace Layout

variable {inside : Bool} {words : List String} {text : List Char}

/-- A word that follows another does so behind a blank. -/
theorem apart (h : Layout true words text) (hne : words ≠ []) :
    ∃ c ∈ text.head?, isBlank c = true := by
  cases h with
  | last => exact absurd rfl hne
  | word _ hblank _ =>
    obtain ⟨c, hc, hb⟩ := hblank rfl
    refine ⟨c, ?_, hb⟩
    rw [Option.mem_def] at hc
    simp only [List.head?_append, hc, Option.some_or, Option.mem_some]

/-- Nothing behind a word joins it: a blank stands there, or the word ends the program. -/
theorem stops (h : Layout true words text) {others : List Token}
    (hwords : others.map Token.text = words) {place next last : Place} {token : Token}
    {program : Program} (hs : place.step? token = some next) (hleads : next.Leads others last)
    (hp : last.program? = some program) : ∀ d ∈ text.head?, token.terminal.joins d = false := by
  intro d hd
  cases hleads with
  | stay =>
    rcases (Place.Steps.of_step hs).ends hp with ht | ht
    · rw [ht]
      exact Fixed.joins_closed (by decide) d
    · rw [ht]
      exact Fixed.joins_closed (by decide) d
  | word =>
    obtain ⟨c, hc, hb⟩ := h.apart (by simp [← hwords])
    obtain rfl : d = c := Option.mem_unique hd hc
    exact token.terminal.joins_blank hb

/-- Where words like the given ones stand in the text, and that they are read there. -/
theorem placed (h : Layout inside words text) {tokens : List Token}
    (hwords : tokens.map Token.text = words) (loc : Loc) :
    ∃ others, List.Forall₂ Token.Like tokens others ∧
      ∀ {place last : Place} {program : Program} (read : List Token), place.Leads others last →
        last.program? = some program →
        readOn place read loc text = .ok ⟨read.reverse ++ others, program⟩ := by
  induction h generalizing tokens loc with
  | @last _ spacing hspacing =>
    obtain rfl := List.map_eq_nil_iff.1 hwords
    refine ⟨[], .nil, fun {place _ _} read hleads hp => ?_⟩
    cases hleads
    have hskipped : gap (spacing ++ []) = spacing ++ gap [] := by
      simpa [gap, gapFrom] using hspacing.skipped
    have hend : readOn place read loc (spacing ++ []) = readOn place read (loc.past spacing) [] :=
      readOn_skip spacing hskipped
    rw [List.append_nil] at hend
    rw [hend, readOn_end (List.forall_mem_nil _) hp, List.append_nil]
  | @word _ spacing word words rest hspacing _ hrest ih =>
    obtain ⟨token, tokens, rfl, rfl, htail⟩ := List.map_eq_cons_iff.1 hwords
    obtain ⟨others, hlike, hread⟩ := ih htail ((loc.past spacing).past token.text.toList)
    refine ⟨{ token with loc := loc.past spacing } :: others, .cons ⟨rfl, rfl⟩ hlike, ?_⟩
    intro place last program read hleads hp
    cases hleads with
    | word hf hs hleads =>
      have htexts : others.map Token.text = words := (Token.Like.texts hlike).trans htail
      have hr := hrest.stops htexts hs hleads hp
      have hword := readOn_word read (List.forall_mem_nil _) rfl hf hr hs
      rw [List.append_assoc, readOn_skip spacing (hspacing.skipped _)]
      refine hword.trans ?_
      rw [hread _ hleads hp, List.reverse_cons, List.append_assoc, List.singleton_append]

end Layout

/-- Whatever other gaps are put around the words of a program, it is read as the same tree, up to
locations. -/
theorem parse_layout {source : String} {program : Program} (h : parse source = .ok program) :
    ∃ reading, read source = .ok reading ∧ reading.program = program ∧
      Cut .start source.toList reading.tokens ∧
      ∀ text : String, Layout false (reading.tokens.map Token.text) text.toList →
        ∃ other, parse text = .ok other ∧ other.relabel .unplace = program.relabel .unplace := by
  obtain ⟨reading, hread, rfl, hshort⟩ := parse_reads h
  obtain ⟨tokens, last, htokens, hcut, hleads, hlast⟩ := readOn_ok hread
  obtain rfl : reading.tokens = tokens := htokens
  refine ⟨reading, hread, rfl, hcut, fun text hlayout => ?_⟩
  obtain ⟨others, hlike, hreads⟩ := hlayout.placed rfl .start
  -- the words now stand elsewhere, and the tree moves with them
  obtain ⟨f, rfl⟩ := exists_move hlike (hcut.ordered.2.imp Loc.Before.ne)
  have hother : read text =
      .ok ⟨reading.tokens.map (Token.move f), reading.program.relabel (.move f)⟩ :=
    hreads [] hleads.move (Place.program?_move hlast)
  have hlong : (reading.tokens.map (Token.move f)).findSome? Token.overlong? = none := by
    rw [List.findSome?_map, List.findSome?_eq_none_iff]
    exact hshort
  refine ⟨reading.program.relabel (.move f), ?_, Program.unplace_move f _⟩
  simp only [parse, hother, hlong]

/-- A text with no blanks between its words, and another with blanks and comments. -/
theorem parse_layout_spread :
    parse "intx;" = .ok ⟨[.var (.primitive "int") ⟨"x", some ⟨1, 4⟩, none⟩]⟩ ∧
      ∃ other, parse "//\nint\tx #;\n ;//" = .ok other ∧ other.relabel .unplace =
        ⟨[.var (.primitive "int") ⟨"x", none, none⟩]⟩ := by
  have h : parse "intx;" = .ok ⟨[.var (.primitive "int") ⟨"x", some ⟨1, 4⟩, none⟩]⟩ := by cbv
  refine ⟨h, ?_⟩
  obtain ⟨reading, hread, -, -, hlayout⟩ := parse_layout h
  have hwords : reading.tokens.map Token.text = ["int", "x", ";"] := by
    have hknown : (read "intx;").map (fun reading => reading.tokens.map Token.text) =
        .ok ["int", "x", ";"] := by
      cbv
    rw [hread] at hknown
    exact Except.ok.inj hknown
  have hspace : IsSpacingPiece [' '] := .blank (by decide)
  have htab : IsSpacingPiece ['\t'] := .blank (by decide)
  have hslashes : IsComment (['/', '/'] ++ []) := .line (.inl rfl) List.not_mem_nil
  have hmark : IsComment (['#'] ++ [';']) := .line (.inr rfl) (by decide)
  have hlast : Layout true [] ['/', '/'] := .last ⟨[], ['/', '/'], rfl, .nil, .inr hslashes⟩
  have hsemicolon := @Layout.word true _ ";" _ _
    (.cons hspace (.cons (.comment hmark) (.cons hspace .nil))) (fun _ => ⟨' ', rfl, by decide⟩)
    hlast
  have hname := @Layout.word true _ "x" _ _ (.cons htab .nil) (fun _ => ⟨'\t', rfl, by decide⟩)
    hsemicolon
  have hlaid := @Layout.word false _ "int" _ _ (.cons (.comment hslashes) .nil)
    (fun h => absurd h (by decide)) hname
  exact hlayout _ (hwords ▸ hlaid)

end Moo
