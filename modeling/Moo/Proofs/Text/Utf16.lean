import Mathlib.Data.List.Chain
import Moo.Text.CodePoint

/-!
# Code points and their units

A text is read back from its units of UTF-16, but for one thing: a first half
that stands directly in front of a second one is read as the character that
the two are written for. So two texts have the same units exactly if they are
equal, as long as no two halves meet in them in this order. In a string of
characters there are none to meet.

* `ofUnits_utf16`: the text of some units, if no halves meet.
* `utf16_inj`, `utf16_ofString_inj`: texts without such halves, and strings.
-/
namespace Moo

/-- The first half of a pair and its second half. -/
def CodePoint.meets : CodePoint → CodePoint → Bool
  | high _, low _ => true
  | _, _ => false

/-- No first half of a pair stands directly in front of a second one. -/
def Text.Unpaired (text : Text) : Prop :=
  text.IsChain fun a b => a.meets b = false

theorem Text.unpaired_ofString (text : String) : (Text.ofString text).Unpaired := by
  unfold Text.Unpaired Text.ofString
  generalize text.toList = chars
  induction chars with
  | nil => exact .nil
  | cons c chars ih =>
    cases chars with
    | nil => exact .singleton _
    | cons d chars => exact .cons_cons rfl ih

/-! ## Halves -/

def IsHigh (unit : UInt16) : Prop := 0xD800 ≤ unit.toNat ∧ unit.toNat < 0xDC00

def IsLow (unit : UInt16) : Prop := 0xDC00 ≤ unit.toNat ∧ unit.toNat < 0xE000

instance (unit : UInt16) : Decidable (IsHigh unit) := inferInstanceAs (Decidable (_ ∧ _))

instance (unit : UInt16) : Decidable (IsLow unit) := inferInstanceAs (Decidable (_ ∧ _))

theorem toNat_highUnit {offset : Nat} (h : offset < 0x400) :
    (highUnit offset).toNat = 0xD800 + offset := by
  rw [highUnit, UInt16.toNat_ofNat']
  omega

theorem toNat_lowUnit {offset : Nat} (h : offset < 0x400) :
    (lowUnit offset).toNat = 0xDC00 + offset := by
  rw [lowUnit, UInt16.toNat_ofNat']
  omega

theorem isHigh_highUnit {offset : Nat} (h : offset < 0x400) : IsHigh (highUnit offset) := by
  rw [IsHigh, toNat_highUnit h]
  omega

theorem isLow_lowUnit {offset : Nat} (h : offset < 0x400) : IsLow (lowUnit offset) := by
  rw [IsLow, toNat_lowUnit h]
  omega

theorem not_isLow_highUnit {offset : Nat} (h : offset < 0x400) : ¬ IsLow (highUnit offset) := by
  rw [IsLow, toNat_highUnit h]
  omega

theorem not_isHigh_lowUnit {offset : Nat} (h : offset < 0x400) : ¬ IsHigh (lowUnit offset) := by
  rw [IsHigh, toNat_lowUnit h]
  omega

/-! ## Reading units -/

/-- The code point of a unit that belongs to no pair. -/
def ofUnit (unit : UInt16) : CodePoint :=
  if IsHigh unit then .high (.ofNat _ (unit.toNat - 0xD800))
  else if IsLow unit then .low (.ofNat _ (unit.toNat - 0xDC00))
  else .char (.ofNat unit.toNat)

/-- The text of some units. -/
def ofUnits : List UInt16 → Text
  | [] => []
  | [unit] => [ofUnit unit]
  | first :: second :: units =>
    if IsHigh first ∧ IsLow second then
      .char (.ofNat (0x10000 + (first.toNat - 0xD800) * 0x400 + (second.toNat - 0xDC00)))
        :: ofUnits units
    else ofUnit first :: ofUnits (second :: units)

theorem ofUnits_alone {unit : UInt16} {units : List UInt16}
    (h : IsHigh unit → ∀ next ∈ units.head?, ¬ IsLow next) :
    ofUnits (unit :: units) = ofUnit unit :: ofUnits units := by
  cases units with
  | nil => rfl
  | cons next units =>
    have hpair : ¬ (IsHigh unit ∧ IsLow next) := fun ⟨hhigh, hlow⟩ => h hhigh next rfl hlow
    rw [ofUnits, if_neg hpair]

theorem ofUnits_pair {high low : Nat} (hh : high < 0x400) (hl : low < 0x400)
    (units : List UInt16) :
    ofUnits (highUnit high :: lowUnit low :: units) =
      .char (.ofNat (0x10000 + high * 0x400 + low)) :: ofUnits units := by
  rw [ofUnits, if_pos ⟨isHigh_highUnit hh, isLow_lowUnit hl⟩, toNat_highUnit hh, toNat_lowUnit hl,
    Nat.add_sub_cancel_left, Nat.add_sub_cancel_left]

theorem ofUnit_highUnit (offset : Fin 0x400) : ofUnit (highUnit offset) = .high offset := by
  rw [ofUnit, if_pos (isHigh_highUnit offset.isLt), toNat_highUnit offset.isLt,
    Nat.add_sub_cancel_left, Fin.ofNat_val_eq_self]

theorem ofUnit_lowUnit (offset : Fin 0x400) : ofUnit (lowUnit offset) = .low offset := by
  rw [ofUnit, if_neg (not_isHigh_lowUnit offset.isLt), if_pos (isLow_lowUnit offset.isLt),
    toNat_lowUnit offset.isLt, Nat.add_sub_cancel_left, Fin.ofNat_val_eq_self]

/-- A character of one unit is no half. -/
theorem not_half_of_char {c : Char} (h : c.toNat < 0x10000) :
    ¬ IsHigh (.ofNat c.toNat) ∧ ¬ IsLow (.ofNat c.toNat) := by
  have hvalid : c.toNat < 0xD800 ∨ 0xDFFF < c.toNat ∧ c.toNat < 0x110000 := c.valid
  have hnumber : (UInt16.ofNat c.toNat).toNat = c.toNat := UInt16.toNat_ofNat_of_lt' h
  rw [IsHigh, IsLow, hnumber]
  omega

theorem ofUnit_char {c : Char} (h : c.toNat < 0x10000) : ofUnit (.ofNat c.toNat) = .char c := by
  obtain ⟨hhigh, hlow⟩ := not_half_of_char h
  rw [ofUnit, if_neg hhigh, if_neg hlow, UInt16.toNat_ofNat_of_lt' h, Char.ofNat_toNat]

/-! ## Texts -/

/-- A character beyond U+FFFF is written as two halves. -/
theorem CodePoint.units_pair {c : Char} (h : ¬ c.toNat < 0x10000) :
    ∃ high < 0x400, ∃ low < 0x400, (char c).units = [highUnit high, lowUnit low] ∧
      c = .ofNat (0x10000 + high * 0x400 + low) := by
  have hvalid : c.toNat < 0xD800 ∨ 0xDFFF < c.toNat ∧ c.toNat < 0x110000 := c.valid
  obtain ⟨offset, hoffset⟩ : ∃ offset, c.toNat = 0x10000 + offset := ⟨c.toNat - 0x10000, by omega⟩
  refine ⟨offset / 0x400, by omega, offset % 0x400, by omega, ?_, ?_⟩
  · rw [units, if_neg h, hoffset, Nat.add_sub_cancel_left]
  · rw [Nat.add_assoc, Nat.div_add_mod', ← hoffset, Char.ofNat_toNat]

/-- The units of a code point start with a second half only if it is one. -/
theorem CodePoint.units_head (c : CodePoint) :
    ∃ unit units, c.units = unit :: units ∧ (IsLow unit → ∃ offset, c = .low offset) := by
  cases c with
  | char c =>
    by_cases h : c.toNat < 0x10000
    · exact ⟨_, _, if_pos h, fun hlow => absurd hlow (not_half_of_char h).2⟩
    · obtain ⟨high, hhigh, low, -, hunits, -⟩ := units_pair h
      exact ⟨_, _, hunits, fun hlow => absurd hlow (not_isLow_highUnit hhigh)⟩
  | high offset => exact ⟨_, _, rfl, fun hlow => absurd hlow (not_isLow_highUnit offset.isLt)⟩
  | low offset => exact ⟨_, _, rfl, fun _ => ⟨offset, rfl⟩⟩

/-- Behind a first half comes no second one, if no halves meet. -/
theorem Text.Unpaired.not_isLow {offset : Fin 0x400} {text : Text}
    (h : Text.Unpaired (.high offset :: text)) : ∀ unit ∈ (utf16 text).head?, ¬ IsLow unit := by
  cases text with
  | nil => exact nofun
  | cons c text =>
    have hmeets : (CodePoint.high offset).meets c = false := (List.isChain_cons_cons.1 h).1
    obtain ⟨first, units, hunits, hlow⟩ := c.units_head
    rintro unit hunit hhalf
    obtain rfl : first = unit := by simpa [utf16, hunits] using hunit
    obtain ⟨second, rfl⟩ := hlow hhalf
    exact absurd hmeets (by simp [CodePoint.meets])

/-- A text in which no halves meet is read back from its units. -/
theorem ofUnits_utf16 {text : Text} (h : text.Unpaired) : ofUnits (utf16 text) = text := by
  induction text with
  | nil => rfl
  | cons c text ih =>
    have hrest : ofUnits (utf16 text) = text := ih (List.isChain_of_isChain_cons h)
    rw [utf16, List.flatMap_cons]
    change ofUnits (c.units ++ utf16 text) = c :: text
    cases c with
    | char c =>
      by_cases hone : c.toNat < 0x10000
      · rw [CodePoint.units, if_pos hone, List.singleton_append,
          ofUnits_alone fun hhigh => absurd hhigh (not_half_of_char hone).1, ofUnit_char hone,
          hrest]
      · obtain ⟨high, hhigh, low, hlow, hunits, hc⟩ := CodePoint.units_pair hone
        rw [hunits, List.cons_append, List.singleton_append, ofUnits_pair hhigh hlow, ← hc, hrest]
    | high offset =>
      rw [CodePoint.units, List.singleton_append, ofUnits_alone fun _ => h.not_isLow,
        ofUnit_highUnit, hrest]
    | low offset =>
      rw [CodePoint.units, List.singleton_append,
        ofUnits_alone fun hhigh => absurd hhigh (not_isHigh_lowUnit offset.isLt), ofUnit_lowUnit,
        hrest]

/-- Texts in which no halves meet have the same units only if they are equal. -/
theorem utf16_inj {a b : Text} (ha : a.Unpaired) (hb : b.Unpaired) : utf16 a = utf16 b ↔ a = b := by
  refine ⟨fun heq => ?_, congrArg utf16⟩
  rw [← ofUnits_utf16 ha, heq, ofUnits_utf16 hb]

theorem Text.ofString_inj {s t : String} : Text.ofString s = Text.ofString t ↔ s = t := by
  refine ⟨fun heq => String.toList_injective ?_, congrArg Text.ofString⟩
  exact List.map_injective_iff.2 (fun _ _ => CodePoint.char.inj) heq

@[simp]
theorem utf16_ofString_inj {s t : String} : utf16 (.ofString s) = utf16 (.ofString t) ↔ s = t :=
  (utf16_inj (Text.unpaired_ofString s) (Text.unpaired_ofString t)).trans Text.ofString_inj

end Moo
