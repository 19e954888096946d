import Moo.Json
import Moo.Proofs.Reading.Lexical
import Moo.Proofs.Text.Utf16

/-!
# JSON texts are all different

What is written for a JSON value is written for no other one, and where it
ends is plain, as long as no number goes on behind it. Units of strings are
shown to be read back from their escapes; no reader of whole values is needed
for that, as the first character tells the form of a value, and the parts of
two values of one form are told apart in their order.

* `ofHex_hex`, `length_hex`: hexadecimal digits stand for their number.
* `Json.unit?_escapeUnit`: a unit is read back from its escape.
* `Json.stringText_unique`, `Json.number_unique`: texts and numbers.
* `Json.enclose_unique`: items between brackets, if the items are told apart.
* `Json.unique`, `Json.text_injective`: all values.
-/
namespace Moo

/-! ## Hexadecimal digits -/

def hexValue (c : Char) : Nat :=
  if c.isDigit then c.toNat - '0'.toNat else c.toNat - 'a'.toNat + 10

/-- The number that hexadecimal digits stand for. -/
def ofHex (digits : List Char) : Nat :=
  digits.foldl (fun n c => 16 * n + hexValue c) 0

theorem hexValue_digitChar : ∀ d < 16, hexValue (Nat.digitChar d) = d := by
  decide

theorem ofHex_toDigits (n : Nat) : ofHex (Nat.toDigits 16 n) = n := by
  induction n using Nat.strong_induction_on with
  | _ n ih =>
    rw [Nat.toDigits_eq_if (by decide)]
    split
    case isTrue h => simp [ofHex, hexValue_digitChar n h]
    case isFalse h =>
      have hfront : ofHex (Nat.toDigits 16 (n / 16)) = n / 16 := ih (n / 16) (by omega)
      have hlast : hexValue (n % 16).digitChar = n % 16 :=
        hexValue_digitChar _ (Nat.mod_lt n (by decide))
      rw [ofHex] at hfront ⊢
      rw [List.foldl_append, hfront, List.foldl_cons, List.foldl_nil, hlast]
      exact Nat.div_add_mod n 16

theorem ofHex_zeros (count : Nat) (digits : List Char) :
    ofHex (List.replicate count '0' ++ digits) = ofHex digits := by
  induction count with
  | zero => rfl
  | succ count ih => exact ih

theorem ofHex_hex (width n : Nat) : ofHex (hex width n) = n :=
  (ofHex_zeros _ _).trans (ofHex_toDigits n)

theorem length_hex {width n : Nat} (h : (Nat.toDigits 16 n).length ≤ width) :
    (hex width n).length = width := by
  rw [hex, List.length_append, List.length_replicate, Nat.sub_add_cancel h]

namespace Json

/-! ## Strings -/

/-- What the letter behind a backslash stands for. -/
def shortEscape : Char → UInt16
  | 'n' => 0x0A
  | 'r' => 0x0D
  | 't' => 0x09
  | 'f' => 0x0C
  | 'b' => 0x08
  | c => .ofNat c.toNat

/-- Reads a unit as it is written in a string. -/
def unit? : List Char → Option (UInt16 × List Char)
  | '\\' :: 'u' :: a :: b :: c :: d :: rest => some (.ofNat (ofHex [a, b, c, d]), rest)
  | '\\' :: c :: rest => some (shortEscape c, rest)
  | c :: rest => some (.ofNat c.toNat, rest)
  | [] => none

theorem unit?_hex (unit : UInt16) (rest : List Char) :
    unit? ('\\' :: 'u' :: hex 4 unit.toNat ++ rest) = some (unit, rest) := by
  have hlength : (hex 4 unit.toNat).length = 4 :=
    length_hex ((Nat.length_toDigits_le_iff (by decide) (by decide)).2 unit.toNat_lt)
  have hvalue : UInt16.ofNat (ofHex (hex 4 unit.toNat)) = unit := by
    rw [ofHex_hex, UInt16.ofNat_toNat]
  match hex 4 unit.toNat, hlength, hvalue with
  | [a, b, c, d], _, hvalue => exact congrArg (fun unit => some (unit, rest)) hvalue

theorem unit?_of_ne {c : Char} (h : c ≠ '\\') (rest : List Char) :
    unit? (c :: rest) = some (.ofNat c.toNat, rest) := by
  unfold unit?
  split
  · next heq => exact absurd (List.cons.inj heq).1 h
  · next heq => exact absurd (List.cons.inj heq).1 h
  · next heq => cases heq; rfl
  · next heq => cases heq

/-- A visible character of ASCII, by its unit. -/
theorem toNat_visible {unit : UInt16} (h : (0x20 ≤ unit && unit < 0x7F) = true) :
    (Char.ofNat unit.toNat).toNat = unit.toNat := by
  have hunit : unit.toNat < 0x7F := by
    simp only [Bool.and_eq_true, decide_eq_true_eq] at h
    exact UInt16.lt_iff_toNat_lt.1 h.2
  rw [Char.ofNat, dif_pos (.inl (by omega))]
  rfl

theorem visible_ne {unit : UInt16} (h : (0x20 ≤ unit && unit < 0x7F) = true) {c : Char}
    (hne : unit ≠ .ofNat c.toNat) : Char.ofNat unit.toNat ≠ c := by
  rintro rfl
  exact hne (by rw [toNat_visible h, UInt16.ofNat_toNat])

/-- A unit is read back from how it is escaped. -/
theorem unit?_escapeUnit (unit : UInt16) (rest : List Char) :
    unit? (escapeUnit unit ++ rest) = some (unit, rest) := by
  fun_cases escapeUnit unit
  case case8 _ hbackslash _ _ _ _ _ hvisible =>
    rw [List.singleton_append, unit?_of_ne (visible_ne hvisible hbackslash), toNat_visible hvisible,
      UInt16.ofNat_toNat]
  case case9 => exact unit?_hex unit rest
  all_goals
    subst_vars
    rfl

theorem escapeUnit_ne_quote (unit : UInt16) (text rest : List Char) :
    escapeUnit unit ++ text ≠ '"' :: rest := by
  fun_cases escapeUnit unit
  case case8 hquote _ _ _ _ _ _ hvisible =>
    have hne : Char.ofNat unit.toNat ≠ '"' := visible_ne hvisible hquote
    exact fun heq => hne (List.cons.inj heq).1
  all_goals exact fun heq => absurd (List.cons.inj heq).1 (by decide)

theorem escaped_unique : ∀ {units units' : List UInt16} {rest rest' : List Char},
    units.flatMap escapeUnit ++ '"' :: rest = units'.flatMap escapeUnit ++ '"' :: rest' →
      units = units' ∧ rest = rest'
  | [], [], _, _, heq => ⟨rfl, (List.cons.inj heq).2⟩
  | [], unit :: _, rest, _, heq => by
    rw [List.flatMap_cons, List.append_assoc] at heq
    exact absurd heq.symm (escapeUnit_ne_quote unit _ rest)
  | unit :: _, [], _, rest', heq => by
    rw [List.flatMap_cons, List.append_assoc] at heq
    exact absurd heq (escapeUnit_ne_quote unit _ rest')
  | unit :: units, unit' :: units', _, _, heq => by
    rw [List.flatMap_cons, List.flatMap_cons, List.append_assoc, List.append_assoc] at heq
    have hread := congrArg unit? heq
    rw [unit?_escapeUnit, unit?_escapeUnit] at hread
    obtain ⟨rfl, hmore⟩ := Prod.mk.inj (Option.some.inj hread)
    obtain ⟨rfl, hrest⟩ := escaped_unique hmore
    exact ⟨rfl, hrest⟩

theorem stringText_unique {units units' : List UInt16} {rest rest' : List Char}
    (heq : (stringText units).toList ++ rest = (stringText units').toList ++ rest') :
    units = units' ∧ rest = rest' :=
  escaped_unique (by simpa [stringText] using heq)

@[simp]
theorem word_inj {s t : String} : word s = word t ↔ s = t := by
  rw [word, word, Json.string.injEq, utf16_ofString_inj]

/-! ## Numbers -/

/-- No number goes on with the text. -/
def Stops (rest : List Char) : Prop := ∀ c ∈ rest.head?, c.isDigit = false

theorem stops_cons {c : Char} (h : c.isDigit = false) (rest : List Char) : Stops (c :: rest) := by
  simpa [Stops] using h

theorem repr_head (n : Nat) : ∃ c more, n.repr.toList = c :: more ∧ c.isDigit = true := by
  obtain ⟨hne, hdigits⟩ := isLexeme_repr n
  obtain ⟨c, more, htext⟩ := List.exists_cons_of_ne_nil hne
  exact ⟨c, more, htext, hdigits c (by simp [htext])⟩

theorem repr_unique {m n : Nat} {rest rest' : List Char} (hr : Stops rest) (hr' : Stops rest')
    (heq : m.repr.toList ++ rest = n.repr.toList ++ rest') : m = n ∧ rest = rest' := by
  have htext : m.repr.toList = n.repr.toList := by
    rw [← takeWhile_exact (isLexeme_repr m).2 hr, heq, takeWhile_exact (isLexeme_repr n).2 hr']
  have hvalue : m = n := by
    rw [← Nat.ofDigitChars_ten_toDigits (n := m), ← Nat.toList_repr, htext, Nat.toList_repr,
      Nat.ofDigitChars_ten_toDigits]
  rw [htext] at heq
  exact ⟨hvalue, List.append_cancel_left heq⟩

theorem repr_ne_minus (n : Nat) (text rest : List Char) : n.repr.toList ++ text ≠ '-' :: rest := by
  obtain ⟨c, more, htext, hdigit⟩ := repr_head n
  rw [htext]
  intro heq
  obtain rfl : c = '-' := (List.cons.inj heq).1
  contradiction

theorem number_unique {a b : Int} {rest rest' : List Char} (hr : Stops rest) (hr' : Stops rest')
    (heq : (toString a).toList ++ rest = (toString b).toList ++ rest') : a = b ∧ rest = rest' := by
  have hminus (n : Nat) (rest : List Char) :
      (toString (Int.negSucc n)).toList ++ rest = '-' :: (n.succ.repr.toList ++ rest) := by
    show ("-" ++ n.succ.repr).toList ++ rest = _
    rw [String.toList_append]
    rfl
  cases a with
  | ofNat m =>
    cases b with
    | ofNat n =>
      obtain ⟨rfl, hrest⟩ := repr_unique hr hr' heq
      exact ⟨rfl, hrest⟩
    | negSucc n => exact absurd (heq.trans (hminus n rest')) (repr_ne_minus m _ _)
  | negSucc m =>
    rw [hminus] at heq
    cases b with
    | ofNat n => exact absurd heq.symm (repr_ne_minus n _ _)
    | negSucc n =>
      rw [hminus] at heq
      obtain ⟨hvalue, hrest⟩ := repr_unique hr hr' (List.cons.inj heq).2
      exact ⟨congrArg Int.negSucc (Nat.succ.inj hvalue), hrest⟩

/-! ## Items between brackets -/

section Enclose

variable {α : Type} {text : α → String} {level : Nat} {opening closing : String}
  {items items' : List α} {rest rest' : List Char}

/-- The rest of the items, behind one of them, and what follows them. -/
def behindItem (text : α → String) (level : Nat) : List α → List Char → List Char
  | [], rest => (newLine level).toList ++ rest
  | item :: items, rest =>
    ',' :: ((newLine (level + 1)).toList ++
      ((text item).toList ++ behindItem text level items rest))

theorem newLine_chars (level : Nat) : ∃ blanks, (newLine level).toList = '\n' :: blanks :=
  ⟨_, by simp [newLine]; rfl⟩

theorem stops_behindItem (items : List α) (rest : List Char) :
    Stops (behindItem text level items rest) := by
  cases items with
  | nil =>
    obtain ⟨blanks, hline⟩ := newLine_chars level
    rw [behindItem, hline]
    exact stops_cons (by decide) _
  | cons => exact stops_cons (by decide) _

theorem enclose_nil (rest : List Char) :
    (enclose level opening ([].map text) closing).toList ++ rest =
      opening.toList ++ (closing.toList ++ rest) := by
  simp [enclose]

theorem enclose_cons (item : α) (items : List α) (rest : List Char) :
    (enclose level opening ((item :: items).map text) closing).toList ++ rest =
      opening.toList ++ ((newLine (level + 1)).toList ++ ((text item).toList ++
        behindItem text level items (closing.toList ++ rest))) := by
  have hbehind (item : α) :
      (("," ++ newLine (level + 1)).intercalate ((item :: items).map text)).toList ++
          ((newLine level).toList ++ (closing.toList ++ rest)) =
        (text item).toList ++ behindItem text level items (closing.toList ++ rest) := by
    induction items generalizing item with
    | nil => simp [behindItem]
    | cons next items ih =>
      rw [List.map_cons, List.map_cons, String.intercalate_cons_cons, behindItem, ← ih next]
      simp
  rw [← hbehind item]
  simp [enclose]

/-- The items are told apart by their texts. -/
def ItemsUnique (text : α → String) (items : List α) : Prop :=
  ∀ item ∈ items, ∀ (item' : α) (rest rest' : List Char), Stops rest → Stops rest' →
    (text item).toList ++ rest = (text item').toList ++ rest' → item = item' ∧ rest = rest'

theorem behindItem_unique (h : ItemsUnique text items)
    (heq : behindItem text level items rest = behindItem text level items' rest') :
    items = items' ∧ rest = rest' := by
  obtain ⟨blanks, hline⟩ := newLine_chars level
  induction items generalizing items' with
  | nil =>
    cases items' with
    | nil => exact ⟨rfl, List.append_cancel_left heq⟩
    | cons =>
      rw [behindItem, hline] at heq
      exact absurd (List.cons.inj heq).1 (by decide)
  | cons item items ih =>
    obtain ⟨hitem, hitems⟩ := List.forall_mem_cons.1 h
    cases items' with
    | nil =>
      rw [behindItem, behindItem, hline] at heq
      exact absurd (List.cons.inj heq).1 (by decide)
    | cons item' items' =>
      have hbehind := List.append_cancel_left (List.cons.inj heq).2
      obtain ⟨rfl, hmore⟩ :=
        hitem item' _ _ (stops_behindItem _ _) (stops_behindItem _ _) hbehind
      obtain ⟨rfl, hrest⟩ := ih hitems hmore
      exact ⟨rfl, hrest⟩

/-- Brackets with the same text hold the same items, if the items are told apart. Brackets without
items are known by their end, which starts no line. -/
theorem enclose_unique {c : Char} (hclosing : closing.toList = [c]) (hc : c ≠ '\n')
    (h : ItemsUnique text items)
    (heq : (enclose level opening (items.map text) closing).toList ++ rest =
      (enclose level opening (items'.map text) closing).toList ++ rest') :
    items = items' ∧ rest = rest' := by
  obtain ⟨blanks, hline⟩ := newLine_chars (level + 1)
  cases items with
  | nil =>
    cases items' with
    | nil =>
      rw [enclose_nil, enclose_nil] at heq
      exact ⟨rfl, List.append_cancel_left (List.append_cancel_left heq)⟩
    | cons item' items' =>
      rw [enclose_nil, enclose_cons, hclosing, hline] at heq
      exact absurd (List.cons.inj (List.append_cancel_left heq)).1 hc
  | cons item items =>
    cases items' with
    | nil =>
      rw [enclose_nil, enclose_cons, hclosing, hline] at heq
      exact absurd (List.cons.inj (List.append_cancel_left heq)).1.symm hc
    | cons item' items' =>
      obtain ⟨hitem, hitems⟩ := List.forall_mem_cons.1 h
      rw [enclose_cons, enclose_cons] at heq
      have hbehind := List.append_cancel_left (List.append_cancel_left heq)
      obtain ⟨rfl, hmore⟩ :=
        hitem item' _ _ (stops_behindItem _ _) (stops_behindItem _ _) hbehind
      obtain ⟨rfl, hrest⟩ := behindItem_unique hitems hmore
      exact ⟨rfl, List.append_cancel_left hrest⟩

end Enclose

/-! ## Values -/

/-- What is written for a field. -/
def fieldText (level : Nat) (field : String × Json) : String :=
  stringText (utf16 (.ofString field.1)) ++ ": " ++ render level field.2

theorem renderItems_eq_map (level : Nat) (items : List Json) :
    renderItems level items = items.map (render level) := by
  induction items with
  | nil => rfl
  | cons item items ih => rw [renderItems, ih, List.map_cons]

theorem renderFields_eq_map (level : Nat) (fields : List (String × Json)) :
    renderFields level fields = fields.map (fieldText level) := by
  induction fields with
  | nil => rfl
  | cons field fields ih => rw [renderFields, ih, List.map_cons, fieldText]

/-- What the text of a value starts with, a zero standing for any number. -/
def lead : Json → Char
  | null => 'n'
  | bool value => if value then 't' else 'f'
  | number _ => '0'
  | string _ => '"'
  | array _ => '['
  | object _ => '\x7b'

def leadOf (c : Char) : Char :=
  if c.isDigit || c = '-' then '0' else c

theorem number_head (value : Int) : (toString value).toList.head?.map leadOf = some '0' := by
  cases value with
  | ofNat n =>
    obtain ⟨c, more, htext, hdigit⟩ := repr_head n
    show n.repr.toList.head?.map leadOf = some '0'
    simp [htext, leadOf, hdigit]
  | negSucc n =>
    show ("-" ++ n.succ.repr).toList.head?.map leadOf = some '0'
    rw [String.toList_append]
    rfl

theorem enclose_head (level : Nat) {opening : String} {c : Char} (ho : opening.toList = [c])
    (items : List String) (closing : String) :
    (enclose level opening items closing).toList.head? = some c := by
  unfold enclose
  split
  · simp [ho]
  · simp [ho]

theorem render_head (level : Nat) (json : Json) :
    (render level json).toList.head?.map leadOf = some json.lead := by
  cases json with
  | null => rw [render]; rfl
  | bool value => cases value <;> rw [render] <;> rfl
  | number value => exact number_head value
  | string units => simp [render, stringText, lead, leadOf]
  | array items => rw [render, enclose_head level rfl]; rfl
  | object fields => rw [render, enclose_head level rfl]; rfl

/-- Values of one form. There is one truth value for each word. -/
inductive Alike : Json → Json → Prop
  | null : Alike null null
  | bool (value : Bool) : Alike (bool value) (bool value)
  | number (a b : Int) : Alike (number a) (number b)
  | string (units units' : List UInt16) : Alike (string units) (string units')
  | array (items items' : List Json) : Alike (array items) (array items')
  | object (fields fields' : List (String × Json)) : Alike (object fields) (object fields')

theorem alike_of_lead : ∀ {json json' : Json}, json.lead = json'.lead → Alike json json'
  | null, null, _ => .null
  | bool true, bool true, _ => .bool true
  | bool false, bool false, _ => .bool false
  | number a, number b, _ => .number a b
  | string units, string units', _ => .string units units'
  | array items, array items', _ => .array items items'
  | object fields, object fields', _ => .object fields fields'

/-- Values that are written alike have one form. -/
theorem alike {level : Nat} {json json' : Json} {rest rest' : List Char}
    (heq : (render level json).toList ++ rest = (render level json').toList ++ rest') :
    Alike json json' := by
  have hhead (json : Json) (rest : List Char) :
      ((render level json).toList ++ rest).head?.map leadOf = some json.lead := by
    have hjson := render_head level json
    obtain ⟨c, hc, -⟩ := Option.map_eq_some_iff.1 hjson
    rw [List.head?_append, hc, Option.some_or, ← hc, hjson]
  exact alike_of_lead (Option.some_inj.1 ((hhead json rest).symm.trans (heq ▸ hhead json' rest')))

/-- No other value is written like it. -/
def Unique (json : Json) : Prop :=
  ∀ (level : Nat) (json' : Json) (rest rest' : List Char), Stops rest → Stops rest' →
    (render level json).toList ++ rest = (render level json').toList ++ rest' →
      json = json' ∧ rest = rest'

theorem unique_array {items : List Json} (h : ∀ item ∈ items, item.Unique) :
    (array items).Unique := by
  intro level json' rest rest' _ _ heq
  cases alike heq with
  | array _ items' =>
    rw [render, render, renderItems_eq_map, renderItems_eq_map] at heq
    have hitems : ItemsUnique (render (level + 1)) items := fun item hi => h item hi (level + 1)
    obtain ⟨rfl, hrest⟩ := enclose_unique rfl (by decide) hitems heq
    exact ⟨rfl, hrest⟩

theorem unique_object {fields : List (String × Json)} (h : ∀ field ∈ fields, field.2.Unique) :
    (object fields).Unique := by
  intro level json' rest rest' _ _ heq
  cases alike heq with
  | object _ fields' =>
    rw [render, render, renderFields_eq_map, renderFields_eq_map] at heq
    have hfields : ItemsUnique (fieldText (level + 1)) fields := by
      intro field hfield field' rest rest' hr hr' heq
      simp only [fieldText, String.toList_append, List.append_assoc] at heq
      obtain ⟨hname, hbehind⟩ := stringText_unique heq
      obtain ⟨hvalue, hrest⟩ := h field hfield _ _ _ _ hr hr' (List.append_cancel_left hbehind)
      exact ⟨Prod.ext (utf16_ofString_inj.1 hname) hvalue, hrest⟩
    obtain ⟨rfl, hrest⟩ := enclose_unique rfl (by decide) hfields heq
    exact ⟨rfl, hrest⟩

mutual

theorem unique : ∀ json : Json, json.Unique
  | null | bool _ => fun _ _ _ _ _ _ heq => by
    cases alike heq
    exact ⟨rfl, List.append_cancel_left heq⟩
  | number _ => fun _ _ _ _ hr hr' heq => by
    cases alike heq
    obtain ⟨rfl, hrest⟩ := number_unique hr hr' heq
    exact ⟨rfl, hrest⟩
  | string _ => fun _ _ _ _ _ _ heq => by
    cases alike heq
    obtain ⟨rfl, hrest⟩ := stringText_unique heq
    exact ⟨rfl, hrest⟩
  | array items => unique_array (uniqueItems items)
  | object fields => unique_object (uniqueFields fields)

theorem uniqueItems : ∀ items : List Json, ∀ item ∈ items, item.Unique
  | [] => List.forall_mem_nil _
  | item :: items => List.forall_mem_cons.2 ⟨unique item, uniqueItems items⟩

theorem uniqueFields : ∀ fields : List (String × Json), ∀ field ∈ fields, field.2.Unique
  | [] => List.forall_mem_nil _
  | (_, value) :: fields => List.forall_mem_cons.2 ⟨unique value, uniqueFields fields⟩

end

/-- The text of a value says which one it is. -/
theorem text_injective {json json' : Json} (heq : json.text = json'.text) : json = json' := by
  have hnothing : Stops [] := by simp [Stops]
  exact (unique json 0 json' [] [] hnothing hnothing (congrArg (·.toList ++ []) heq)).1

end Json

end Moo
