import Moo.Proofs.Names.Frame
import Moo.Proofs.Sourced
import Moo.Proofs.Tree.Dump
import Moo.Proofs.Tree.Rename
import Moo.Proofs.Tree.Shape

/-!
# Dumps lose next to nothing

The dump of an accepted program, printed before its analysis or after any
number of analyses, says which program it is, but for one thing: in a string
literal it does not tell a character beyond U+FFFF from the two halves that
UTF-16 writes for it. The text of a dump says which JSON value it is, that
value says which well-formed tree it is but for symbols, and analysis changes
nothing else. Where no first half stands directly in front of a second one,
the units of a literal say which literal it is.

* `Program.Analyzed`, `Sourced.Analyzed`: what becomes of a program by analyses.
* `Sourced.dump_ofString_inj`: programs that were read from strings.
* `dump_faithful`: programs of all texts; `dump_pair_joined`: two that have the
  same dump.
-/
namespace Moo

/-! ## Programs before and after analyses -/

/-- What a program is before, or after any number of analyses, each of them on any table. -/
inductive Program.Analyzed (program : Program) : Program → Prop
  | never : program.Analyzed program
  | again {now : Program} (table : Table) (clock : Nat) (h : program.Analyzed now) :
    program.Analyzed (now.analyzeWith table clock).program

namespace Program.Analyzed

variable {program now : Program}

theorem forget (h : program.Analyzed now) : now.relabel .forget = program.relabel .forget := by
  induction h with
  | never => rfl
  | again table clock _ ih => exact (analyzeWith_forget _ table clock).trans ih

theorem wellFormed (h : program.Analyzed now) (hw : program.WellFormed) : now.WellFormed := by
  rwa [← wellFormed_relabel .forget, h.forget, wellFormed_relabel .forget]

/-- Analysis makes no difference to what a program is the same as. -/
theorem sameBy {literal : LiteralSame} {other later : Program} (h : program.Analyzed now)
    (h' : other.Analyzed later) : now.sameBy literal later = program.sameBy literal other :=
  (sameBy_of_relabel Relabel.forget_inPlace h.forget later).1.trans
    (sameBy_of_relabel Relabel.forget_inPlace h'.forget program).2

/-- Analysis makes no difference to a dump. -/
theorem dumpBy {literal : Literals} (h : program.Analyzed now) (hw : program.WellFormed) :
    now.dumpBy literal = program.dumpBy literal := by
  have hself : program.sameBy (.dumped literal literal) program = true :=
    (dumpBy_inj literal literal hw hw).1 rfl
  exact (dumpBy_inj literal literal (h.wellFormed hw) hw).2 ((h.sameBy .never).trans hself)

end Program.Analyzed

/-- A program that was read has no symbols to forget. -/
theorem parse_forget {source : String} {program : Program} (h : parse source = .ok program) :
    program.relabel .forget = program :=
  Program.relabel_fixed (Relabel.fixes_of_unresolved (fun _ => rfl) rfl (parse_written h).1)

/-- Analyses change the tree only, not the text that it was read from. -/
structure Sourced.Analyzed (p now : Sourced) : Prop where
  text : now.text = p.text
  program : p.program.Analyzed now.program

/-! ## Programs that were read from strings -/

section Strings

variable {source source' : String} {p q p' q' : Program}

/-- Programs that were read from strings are the same if they were equal then, with all locations. -/
theorem Program.Analyzed.same_iff_eq (hp : parse source = .ok p) (hq : parse source' = .ok q)
    (hp' : p.Analyzed p') (hq' : q.Analyzed q') : p'.same q' = true ↔ p = q := by
  constructor
  · intro hsame
    calc p
      _ = p.relabel .forget := (parse_forget hp).symm
      _ = p'.relabel .forget := hp'.forget.symm
      _ = q'.relabel .forget := Program.relabel_of_same Relabel.forget_blind hsame
      _ = q.relabel .forget := hq'.forget
      _ = q := parse_forget hq
  · rintro rfl
    have hw : p.WellFormed := (parse_shaped hp).wellFormed
    exact (hp'.sameBy hq').trans ((Program.dump_inj hw hw).1 rfl)

/-- The program that a string is read as is dumped like its tree. -/
theorem Sourced.dump_ofString (hp : parse source = .ok p) (hp' : p.Analyzed p') :
    Sourced.dump ⟨.ofString source, p'⟩ = p'.dump := by
  have hw : p.WellFormed := (parse_shaped hp).wellFormed
  have hliterals : Literals.AgreeOn (fun word loc => utf16 ((Text.ofString source).wordAt word loc))
      .plain p.leaves :=
    fun _ _ hleaf => congrArg utf16 (Text.wordAt_ofString hp hleaf)
  calc Sourced.dump ⟨.ofString source, p'⟩
    _ = Sourced.dump ⟨.ofString source, p⟩ := hp'.dumpBy hw
    _ = p.dump := Program.dumpBy_congr hliterals
    _ = p'.dump := (hp'.dumpBy hw).symm

/-- So the dump of a string's program says which one it is. -/
theorem Sourced.dump_ofString_inj (hp : parse source = .ok p) (hq : parse source' = .ok q)
    (hp' : p.Analyzed p') (hq' : q.Analyzed q') :
    Sourced.dump ⟨.ofString source, p'⟩ = Sourced.dump ⟨.ofString source', q'⟩ ↔ p = q := by
  have hw : p'.WellFormed := hp'.wellFormed (parse_shaped hp).wellFormed
  have hw' : q'.WellFormed := hq'.wellFormed (parse_shaped hq).wellFormed
  rw [Sourced.dump_ofString hp hp', Sourced.dump_ofString hq hq', Program.dump_inj hw hw',
    Program.Analyzed.same_iff_eq hp hq hp' hq']

end Strings

/-! ## Whole texts -/

theorem Text.parse_wellFormed {text : Text} {p : Sourced} (h : text.parse = some p) :
    p.program.WellFormed :=
  (parse_shaped (parse_eq_some h).2).wellFormed

namespace Sourced

variable {p q p' q' : Sourced}

/-- What a dump says of literals are their units. -/
theorem dump_inj (hp : p.program.WellFormed) (hq : q.program.WellFormed) :
    p.dump = q.dump ↔ p.sameBy utf16 q = true :=
  Program.dumpBy_inj _ _ hp hq

/-- The units of literals say which ones they are, if no halves meet in the texts. -/
theorem sameBy_utf16 (hp : p.text.Unpaired) (hq : q.text.Unpaired) :
    p.sameBy utf16 q = p.same q := by
  have hword (word : String) (loc : Option Loc) (word' : String) (loc' : Option Loc) :
      (utf16 (p.text.wordAt word loc) == utf16 (q.text.wordAt word' loc')) =
        (p.text.wordAt word loc == q.text.wordAt word' loc') := by
    rw [Bool.eq_iff_iff, beq_iff_eq, beq_iff_eq, utf16_inj (hp.wordAt _ _) (hq.wordAt _ _)]
  simp only [same, sameBy, hword, id]

theorem Analyzed.sameBy {α : Type} [BEq α] (view : Text → α) (h : p.Analyzed p')
    (h' : q.Analyzed q') : p'.sameBy view q' = p.sameBy view q := by
  simp only [Sourced.sameBy, h.text, h'.text]
  exact h.program.sameBy h'.program

end Sourced

/-- Whether two accepted programs were analyzed or not: their dumps are the same text exactly if the
programs are the same, with all locations, where a string literal is the same as those with the same
units of UTF-16. If in neither text a first half of a pair stands directly in front of a second one,
these are the literals with the same code points. Analysis makes no difference to what programs are
the same, and for programs of strings it is that they were equal when they were read. -/
theorem dump_faithful {text text' : Text} {p q p' q' : Sourced} (hp : text.parse = some p)
    (hq : text'.parse = some q) (hp' : p.Analyzed p') (hq' : q.Analyzed q') :
    (p'.dump = q'.dump ↔ p'.sameBy utf16 q' = true) ∧
      (text.Unpaired → text'.Unpaired → (p'.dump = q'.dump ↔ p'.same q' = true)) ∧
      p'.same q' = p.same q ∧
      ∀ source source', text = .ofString source → text' = .ofString source' →
        (p'.dump = q'.dump ↔ p.program = q.program) := by
  have hw : p'.program.WellFormed := hp'.program.wellFormed (Text.parse_wellFormed hp)
  have hw' : q'.program.WellFormed := hq'.program.wellFormed (Text.parse_wellFormed hq)
  have hdump : p'.dump = q'.dump ↔ p'.sameBy utf16 q' = true := Sourced.dump_inj hw hw'
  obtain ⟨htext, hparse⟩ := Text.parse_eq_some hp
  obtain ⟨htext', hparse'⟩ := Text.parse_eq_some hq
  rw [← hp'.text] at htext
  rw [← hq'.text] at htext'
  refine ⟨hdump, fun hunpaired hunpaired' => ?_, hp'.sameBy id hq', ?_⟩
  · rw [hdump, Sourced.sameBy_utf16 (htext ▸ hunpaired) (htext' ▸ hunpaired')]
  · rintro source source' rfl rfl
    rw [Text.shown_ofString] at hparse hparse'
    have hstrings := Sourced.dump_ofString_inj hparse hparse' hp'.program hq'.program
    rwa [← htext, ← htext'] at hstrings

/-- A program that calls itself and writes a literal. -/
def writing (literal : Text) : Text :=
  .ofString "void f()\x7bf();cout<<\"" ++ literal ++ .ofString "\";\x7d"

/-- The tree of such a program that starts on a line, by how its literal is shown. -/
def writes (line : Int) (shown : String) : Program :=
  ⟨[.function (.primitive "void") ⟨"f", some ⟨line, 6⟩, none⟩ [] []
    [.call (.call ⟨"f", some ⟨line, 10⟩, none⟩ []), .write (.str shown (some ⟨line, 20⟩))]]⟩

/-- A quote, a character of two units and a second half that stands alone. -/
def quotedHalf : Text :=
  .ofString "\\\"😀" ++ ([.low ⟨0x200, by decide⟩] : Text)

/-- Such a program with a comment that holds a first half. -/
def remarked : Text :=
  writing quotedHalf ++ .ofString "//" ++ ([.high ⟨0x3D, by decide⟩] : Text)

/-- Such a program on the second line. -/
def lowered : Text :=
  .ofString "\n" ++ writing quotedHalf

/-- A comment at the end is not seen in the dump, a line in front is. -/
theorem dump_faithful_quoted :
    ∃ p q r : Sourced, (writing quotedHalf).parse = some p ∧ remarked.parse = some q ∧
      lowered.parse = some r ∧
      Sourced.dump ⟨p.text, p.program.analyze.program⟩ = q.dump ∧
      Sourced.dump ⟨p.text, p.program.analyze.program⟩ ≠ r.dump := by
  have hp : Moo.parse (writing quotedHalf).shown = .ok (writes 1 "\"\\\"😀\uFFFD\"") := by
    cbv
  have hq : Moo.parse remarked.shown = .ok (writes 1 "\"\\\"😀\uFFFD\"") := by
    cbv
  have hr : Moo.parse lowered.shown = .ok (writes 2 "\"\\\"😀\uFFFD\"") := by
    cbv
  have hanalyzed (p : Sourced) : p.Analyzed ⟨p.text, p.program.analyze.program⟩ :=
    ⟨rfl, .again .new 0 .never⟩
  have hnever (p : Sourced) : p.Analyzed p := ⟨rfl, .never⟩
  have hunpaired : (writing quotedHalf).Unpaired ∧ remarked.Unpaired ∧ lowered.Unpaired := by
    simp [Text.Unpaired, remarked, lowered, writing, quotedHalf, Text.ofString, CodePoint.meets]
  obtain ⟨-, hcomment⟩ :=
    dump_faithful (Text.parse_of hp) (Text.parse_of hq) (hanalyzed _) (hnever _)
  obtain ⟨-, hline⟩ :=
    dump_faithful (Text.parse_of hp) (Text.parse_of hr) (hanalyzed _) (hnever _)
  have hmoved : Sourced.same ⟨writing quotedHalf, writes 1 "\"\\\"😀\uFFFD\""⟩
      ⟨lowered, writes 2 "\"\\\"😀\uFFFD\""⟩ = false := by
    cbv
  refine ⟨_, _, _, Text.parse_of hp, Text.parse_of hq, Text.parse_of hr, ?_, fun hdump => ?_⟩
  · exact (hcomment.1 hunpaired.1 hunpaired.2.1).2 (hcomment.2.1.trans (by cbv))
  · have hsame := (hline.1 hunpaired.1 hunpaired.2.2).1 hdump
    exact Bool.false_ne_true (hmoved.symm.trans (hline.2.1.symm.trans hsame))

/-- A character beyond U+FFFF is dumped like its two halves, one after the other. -/
theorem dump_pair_joined :
    ∃ p q : Sourced, (writing [.high 0x3D, .low 0x200]).parse = some p ∧
      (writing [.char '😀']).parse = some q ∧ p.dump = q.dump ∧ p.same q = false := by
  have hp : Moo.parse (writing [.high 0x3D, .low 0x200]).shown =
      .ok (writes 1 "\"\uFFFD\uFFFD\"") := by
    cbv
  have hq : Moo.parse (writing [.char '😀']).shown = .ok (writes 1 "\"😀\"") := by
    cbv
  refine ⟨_, _, Text.parse_of hp, Text.parse_of hq, congrArg Json.text ?_, by cbv⟩
  rfl

end Moo
