import Moo.Proofs.Reading.Numbers
import Moo.Proofs.Text.Utf16
import Moo.Sourced

/-!
# Literals in the text of a program

At the location of a string literal stands the word that the tree shows for
it, whatever halves of pairs are in it. So the text says of each literal
which code points it has, and a text of characters says what the tree says.

* `Text.map_startingAt`: a text from a location on and its string from there on.
* `Text.Unpaired.wordAt`: no halves meet in a word if none do in the text.
* `Text.shown_wordAt`: the words at the locations of literals.
* `Text.wordAt_ofString`: the same in a text of characters.
-/
namespace Moo

theorem Token.leaf?_str {token : Token} {text : String} {loc : Option Loc}
    (h : token.leaf? = some (.str text loc)) : text = token.text := by
  unfold leaf? at h
  split at h <;> cases h
  rfl

namespace Text

/-! ## Parts of a text -/

theorem startingAt_suffix (target loc : Loc) (text : Text) :
    startingAt target loc text <:+ text := by
  induction text generalizing loc with
  | nil => exact List.suffix_refl []
  | cons c text ih =>
    rw [startingAt]
    split
    · exact List.suffix_refl _
    · exact (ih (loc.next c.shown)).trans (List.suffix_cons c text)

/-- If no halves meet in a text, then none do in its words. -/
theorem Unpaired.wordAt {text : Text} (h : text.Unpaired) (word : String) (loc : Option Loc) :
    (text.wordAt word loc).Unpaired := by
  cases loc with
  | none => exact unpaired_ofString word
  | some loc =>
    have hrest : (startingAt loc .start text).Unpaired :=
      List.IsChain.suffix h (startingAt_suffix loc .start text)
    exact List.IsChain.prefix hrest (List.take_prefix word.length _)

/-- A text from a location on is shown as its string is from there on. -/
theorem map_startingAt (target loc : Loc) (text : Text) :
    (startingAt target loc text).map CodePoint.shown =
      textFrom target loc (text.map CodePoint.shown) := by
  induction text generalizing loc with
  | nil => rfl
  | cons c text ih =>
    rw [startingAt, List.map_cons, textFrom]
    split
    · rfl
    · exact ih (loc.next c.shown)

/-! ## Texts that are read -/

variable {text : Text} {program : Program}

theorem parse_of (h : Moo.parse text.shown = .ok program) : text.parse = some ⟨text, program⟩ := by
  rw [parse, h]
  rfl

theorem parse_eq_some {p : Sourced} (h : text.parse = some p) :
    p.text = text ∧ Moo.parse text.shown = .ok p.program := by
  unfold parse at h
  cases hparse : Moo.parse text.shown with
  | error => simp [hparse, Except.toOption] at h
  | ok program =>
    obtain rfl : ⟨text, program⟩ = p := by simpa [hparse, Except.toOption] using h
    exact ⟨rfl, rfl⟩

/-- What stands at the location of a literal is shown as the literal. -/
theorem shown_wordAt (h : Moo.parse text.shown = .ok program) {word : String} {loc : Option Loc}
    (hleaf : .str word loc ∈ program.leaves) : (text.wordAt word loc).shown = word := by
  obtain ⟨tokens, hleaves, -, -, hstands⟩ := parse_leaves h
  rw [← hleaves] at hleaf
  obtain ⟨token, htoken, hleaf⟩ := List.mem_filterMap.1 hleaf
  obtain rfl : word = token.text := Token.leaf?_str hleaf
  obtain rfl : loc = some token.loc := Token.loc_leaf? hleaf
  obtain ⟨front, back, hstands⟩ := hstands token htoken
  have hrest : (startingAt token.loc .start text).map CodePoint.shown =
      token.text.toList ++ back := by
    have htext : text.map CodePoint.shown = front ++ (token.text.toList ++ back) := by
      simpa [shown] using hstands.text
    rw [map_startingAt, htext, hstands.loc, textFrom_past]
  rw [wordAt, shown, List.map_take, hrest, ← String.length_toList, List.take_left,
    String.ofList_toList]

/-! ## Texts of characters -/

@[simp]
theorem shown_ofString (text : String) : (ofString text).shown = text := by
  simp [shown, ofString, Function.comp_def, CodePoint.shown]

/-- A text without halves is the string that it is read as. -/
theorem ofString_shown (h : ∀ c ∈ text, ∃ d, c = .char d) : ofString text.shown = text := by
  have hchar : ∀ c ∈ text, CodePoint.char c.shown = c := by
    intro c hc
    obtain ⟨d, rfl⟩ := h c hc
    rfl
  rw [ofString, shown, String.toList_ofList, List.map_map]
  exact (List.map_congr_left hchar).trans (List.map_id text)

/-- In a text of characters stands at the location of a literal what the tree says. -/
theorem wordAt_ofString {source : String} (h : Moo.parse source = .ok program) {word : String}
    {loc : Option Loc} (hleaf : .str word loc ∈ program.leaves) :
    (ofString source).wordAt word loc = ofString word := by
  have hshown : ((ofString source).wordAt word loc).shown = word :=
    shown_wordAt (by rwa [shown_ofString]) hleaf
  cases loc with
  | none => rfl
  | some loc =>
    have hchars : ∀ c ∈ (ofString source).wordAt word (some loc), ∃ d, c = .char d := by
      intro c hc
      have hsource : c ∈ ofString source :=
        (startingAt_suffix loc .start _).subset (List.mem_of_mem_take hc)
      obtain ⟨d, -, rfl⟩ := List.mem_map.1 hsource
      exact ⟨d, rfl⟩
    rw [← ofString_shown hchars, hshown]

end Text

end Moo
