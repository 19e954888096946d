import Moo.Proofs.Printing.Writing
import Moo.Proofs.Reading.Judgments
import Moo.Proofs.Tree.Relabel

/-!
# Printed expressions are all different

What a printed expression looks like is no other expression's, and where it
ends is plain, as long as neither a word nor an opening parenthesis stands
behind it. That a field access is not read back plays no part here.

* `Front.unique`: the first word of a text is the only one.
* `Expr.Chain.unique`: a name, or a chain of dots that starts with one.
* `Expr.unique`: every expression; by its first word, and then part by part.
-/
namespace Moo

open Relabel (unplace)

/-! ## The first word of a text -/

/-- The word stands in front of the text, and there it is found among the offered terminals. -/
structure Front (offers : Terminal → Bool) (terminal : Terminal) (word rest : List Char) :
    Prop where
  offered : offers terminal = true
  spelled : IsLexeme terminal word
  unlike : terminal = .ident → ∀ f : Fixed, offers (.fixed f) = true → f.spelling.toList ≠ word
  ends : ∀ d ∈ rest.head?, terminal.joins d = false

/-- There is one word in front of a text. -/
theorem Front.unique {offers : Terminal → Bool} {t t' : Terminal} {word word' rest rest' : List Char}
    (h : Front offers t word rest) (h' : Front offers t' word' rest')
    (heq : word ++ rest = word' ++ rest') : t = t' ∧ word = word' ∧ rest = rest' := by
  obtain ⟨c, more, rfl⟩ := List.exists_cons_of_ne_nil h.spelled.ne_nil
  obtain ⟨c', more', rfl⟩ := List.exists_cons_of_ne_nil h'.spelled.ne_nil
  obtain ⟨rfl, hmore⟩ : c = c' ∧ more ++ rest = more' ++ rest' := by simpa using heq
  have hfound := lexeme?_complete h.offered h.spelled h.unlike h.ends
  have hfound' := lexeme?_complete h'.offered h'.spelled h'.unlike h'.ends
  rw [hmore, hfound'] at hfound
  obtain ⟨rfl, rfl⟩ : t' = t ∧ more' = more := by simpa using hfound
  exact ⟨rfl, rfl, List.append_cancel_left hmore⟩

/-- A word with one spelling, in front of a blank. -/
theorem front_fixed (f : Fixed) (rest : List Char) :
    Front (fun _ => true) (.fixed f) f.spelling.toList (' ' :: rest) where
  offered := rfl
  spelled := rfl
  unlike := nofun
  ends d hd := by
    cases hd
    exact Terminal.joins_blank rfl _

/-! ## Names -/

/-- The name is one word, and nothing is known of it yet. -/
structure Ident.Plain (id : Ident) : Prop where
  symbol : id.symbol = none
  spelled : IsLexeme .ident id.name.toList

theorem Ident.Fits.plain {id : Ident} {spot : Spot} (h : id.Fits spot) : id.Plain :=
  ⟨h.symbol, h.spelled⟩

/-- All names are single words, those of fields too, and nothing is known of them yet. -/
def Plain (occurrences : List Occurrence) : Prop :=
  ∀ o ∈ occurrences, o.symbol = none ∧ IsLexeme .ident o.id.name.toList

@[simp]
theorem plain_append {os ps : List Occurrence} : Plain (os ++ ps) ↔ Plain os ∧ Plain ps :=
  List.forall_mem_append

@[simp]
theorem plain_cons {o : Occurrence} {os : List Occurrence} :
    Plain (o :: os) ↔ (o.symbol = none ∧ IsLexeme .ident o.id.name.toList) ∧ Plain os :=
  List.forall_mem_cons

/-- Plain names in front of texts that do not go on with a word. -/
theorem Ident.Plain.unique {id id' : Ident} (h : id.Plain) (h' : id'.Plain) {rest rest' : List Char}
    (hr : Parts rest) (hr' : Parts rest') (heq : id.name.toList ++ rest = id'.name.toList ++ rest') :
    id.relabel unplace = id'.relabel unplace ∧ rest = rest' := by
  have front {id : Ident} {rest : List Char} (h : id.Plain) (hr : Parts rest) :
      Front Spot.name.offers .ident id.name.toList rest :=
    ⟨rfl, h.spelled, fun _ f hf => by simp [Spot.offers, Spot.terminals] at hf, hr⟩
  obtain ⟨-, hname, hrest⟩ := (front h hr).unique (front h' hr') heq
  exact ⟨by simp [Ident.relabel, unplace, String.toList_injective hname, h.symbol, h'.symbol], hrest⟩

/-- The first character of a name. -/
theorem Ident.Plain.head {id : Ident} (h : id.Plain) :
    ∃ c more, id.name.toList = c :: more ∧ isWordStart c = true := by
  obtain ⟨c, more, hw, hs, -⟩ := h.spelled
  exact ⟨c, more, hw, hs⟩

/-! ## Targets -/

/-- A plain name, or a chain of dots that starts with one. -/
def Expr.Chain : Expr → Prop
  | .name id => id.Plain
  | .dot object field symbol => object.Chain ∧ field.Plain ∧ symbol = none
  | _ => False

theorem Expr.Heads.chain {spot : Spot} : ∀ {e : Expr}, e.Heads spot → Plain e.occurrences → e.Chain
  | .name _, h, _ => h.plain
  | .dot _ _ _, h, hp => by
    simp only [Expr.occurrences, List.cons_append, plain_cons, plain_append] at hp
    obtain ⟨⟨hs, -⟩, hp, ⟨hfs, hf⟩, -⟩ := hp
    exact ⟨Expr.Heads.chain h hp, ⟨hfs, hf⟩, hs⟩

theorem Expr.Chain.head : ∀ {e : Expr}, e.Chain → ∀ rest, ∃ c more, e.chars rest = c :: more ∧
    (isWordStart c = true ∨ c = '(')
  | .name _, h, rest => by
    obtain ⟨c, more, hw, hs⟩ := Ident.Plain.head h
    exact ⟨c, more ++ rest, by simp [Expr.chars, hw], .inl hs⟩
  | .dot .., _, _ => ⟨_, _, rfl, .inr rfl⟩

/-- Targets in front of texts that do not go on with a word. -/
theorem Expr.Chain.unique : ∀ {e e' : Expr}, e.Chain → e'.Chain → ∀ {rest rest' : List Char},
    Parts rest → Parts rest' → e.chars rest = e'.chars rest' →
      e.relabel unplace = e'.relabel unplace ∧ rest = rest'
  | .name id, .name id', h, h', _, _, hr, hr', heq => by
    obtain ⟨hid, hrest⟩ := Ident.Plain.unique h h' hr hr' heq
    exact ⟨congrArg Expr.name hid, hrest⟩
  | .dot object field _, .dot object' field' _, ⟨h, hf, hs⟩, ⟨h', hf', hs'⟩, _, _, hr, hr', heq => by
    obtain ⟨hobject, hrest⟩ := Expr.Chain.unique h h' (parts_closeParen _) (parts_closeParen _)
      (List.cons.inj heq).2
    obtain ⟨hfield, hrest⟩ := hf.unique hf' hr hr' (by simpa using hrest)
    exact ⟨by simp [Expr.relabel, hobject, hfield, hs, hs'], hrest⟩
  | .name _, .dot .., h, _, _, _, _, _, heq | .dot .., .name _, _, h, _, _, _, _, heq => by
    obtain ⟨c, more, hw, hs⟩ := Ident.Plain.head h
    obtain rfl : c = '(' := by
      simp only [Expr.chars, hw] at heq
      first | exact (List.cons.inj heq).1 | exact (List.cons.inj heq).1.symm
    contradiction

/-! ## Lists -/

/-- The text does not make more of an expression in front of it: it goes on neither with a word nor
with arguments. -/
structure Ends (rest : List Char) : Prop where
  parts : Parts rest
  noCall : rest.head? ≠ some '('

theorem ends_cons {c : Char} (rest : List Char) (h : isWordPart c = false ∧ c ≠ '(') :
    Ends (c :: rest) :=
  ⟨parts_cons rest h.1, by simpa using h.2⟩

section Commas

variable {α : Type} {chars : α → List Char → List Char} {view : α → α} {items items' : List α}
  {rest rest' : List Char}

theorem ends_behindCommas (items : List α) (rest : List Char) :
    Ends (behindCommas chars items (')' :: rest)) := by
  cases items with
  | nil => exact ends_cons _ (by decide)
  | cons => exact ends_cons _ (by decide)

theorem behindCommas_unique
    (h : ∀ item ∈ items, ∀ item' ∈ items', ∀ rest rest', Ends rest → Ends rest' →
      chars item rest = chars item' rest' → view item = view item' ∧ rest = rest')
    (heq : behindCommas chars items (')' :: rest) = behindCommas chars items' (')' :: rest')) :
    items.map view = items'.map view ∧ rest = rest' := by
  induction items generalizing items' with
  | nil =>
    cases items' with
    | nil => exact ⟨rfl, (List.cons.inj heq).2⟩
    | cons => simp [behindCommas] at heq
  | cons item items ih =>
    cases items' with
    | nil => simp [behindCommas] at heq
    | cons item' items' =>
      simp only [List.forall_mem_cons] at h
      simp only [behindCommas, List.cons.injEq, true_and] at heq
      obtain ⟨hitem, hmore⟩ := h.1.1 _ _ (ends_behindCommas _ _) (ends_behindCommas _ _) heq
      obtain ⟨hitems, hrest⟩ := ih (fun i hi i' hi' => (h.2 i hi).2 i' hi') hmore
      exact ⟨by rw [List.map_cons, List.map_cons, hitem, hitems], hrest⟩

/-- Lists in parentheses are told apart by their items; an item is not written like the end. -/
theorem betweenCommas_unique
    (h : ∀ item ∈ items, ∀ item' ∈ items', ∀ rest rest', Ends rest → Ends rest' →
      chars item rest = chars item' rest' → view item = view item' ∧ rest = rest')
    (hhead : ∀ item ∈ items, ∀ rest, (chars item rest).head? ≠ some ')')
    (hhead' : ∀ item ∈ items', ∀ rest, (chars item rest).head? ≠ some ')')
    (heq : betweenCommas chars items (')' :: rest) = betweenCommas chars items' (')' :: rest')) :
    items.map view = items'.map view ∧ rest = rest' := by
  match items, items' with
  | [], [] => exact ⟨rfl, (List.cons.inj heq).2⟩
  | [], item :: _ => exact absurd (congrArg List.head? heq).symm (hhead' item (by simp) _)
  | item :: _, [] => exact absurd (congrArg List.head? heq) (hhead item (by simp) _)
  | item :: items, item' :: items' =>
    simp only [List.forall_mem_cons] at h
    obtain ⟨hitem, hmore⟩ := h.1.1 _ _ (ends_behindCommas _ _) (ends_behindCommas _ _) heq
    obtain ⟨hitems, hrest⟩ :=
      behindCommas_unique (fun i hi i' hi' => (h.2 i hi).2 i' hi') hmore
    exact ⟨by rw [List.map_cons, List.map_cons, hitem, hitems], hrest⟩

end Commas

/-! ## The first word of an expression -/

/-- The first word of an expression. -/
def Expr.opener : Expr → Terminal
  | .int .. => .number
  | .str .. => .text
  | .bool value _ => .fixed (if value then .trueWord else .falseWord)
  | .name _ | .call .. => .ident
  | _ => .fixed .openParen

theorem Expr.opener_bool (value : Bool) (loc : Option Loc) :
    (Expr.bool value loc).opener ≠ .fixed .openParen := by
  cases value <;> simp [Expr.opener]

section Front

variable {rest : List Char}

theorem front_number (n : Nat) (hr : Parts rest) :
    Front Spot.operand.offers .number n.repr.toList rest where
  offered := rfl
  spelled := isLexeme_repr n
  unlike := nofun
  ends d hd := isDigit_isWordPart (hr d hd)

theorem front_string {text : String} (h : IsLexeme .text text.toList) (rest : List Char) :
    Front Spot.operand.offers .text text.toList rest :=
  ⟨rfl, h, nofun, fun _ _ => rfl⟩

theorem front_flag (value : Bool) (hr : Parts rest) :
    Front Spot.operand.offers (.fixed (if value then .trueWord else .falseWord))
      (if value then "true" else "false").toList rest := by
  cases value with
  | true => exact ⟨rfl, rfl, nofun, fun d hd => hr d hd⟩
  | false => exact ⟨rfl, rfl, nofun, fun d hd => hr d hd⟩

theorem Ident.Fits.front {id : Ident} {spot : Spot} (ho : spot.offers .ident = true)
    (h : id.Fits spot) (hr : Parts rest) : Front spot.offers .ident id.name.toList rest :=
  ⟨ho, h.spelled, fun _ f hf he => h.unlike f hf (String.toList_injective he), hr⟩

theorem front_openParen (rest : List Char) :
    Front Spot.operand.offers (.fixed .openParen) ['('] rest :=
  ⟨rfl, rfl, nofun, fun _ _ => Fixed.joins_closed (by decide) _⟩

/-- An expression starts with its first word, and where an operand starts that word is found. -/
theorem Expr.opens : ∀ {e : Expr}, e.Legible → Parts rest →
    ∃ word more, e.chars rest = word ++ more ∧ Front Spot.operand.offers e.opener word more
  | .int _ _, h, hr => by
    obtain ⟨n, rfl, -⟩ := h
    exact ⟨_, _, rfl, front_number n hr⟩
  | .str _ _, h, _ => ⟨_, _, rfl, front_string h _⟩
  | .bool value _, _, hr => ⟨_, _, rfl, front_flag value hr⟩
  | .name _, h, hr => ⟨_, _, rfl, Ident.Fits.front rfl h hr⟩
  | .call .., h, _ => ⟨_, _, rfl, Ident.Fits.front rfl h.1 (parts_cons _ (by decide))⟩
  | .dot .., _, _ | .assign .., _, _ | .unary .., _, _ | .binary .., _, _ =>
    ⟨['('], _, rfl, front_openParen _⟩

end Front

/-- Expressions that are written alike start with the same word. -/
theorem Expr.opener_unique {e e' : Expr} {rest rest' : List Char} (h : e.Legible) (h' : e'.Legible)
    (hr : Parts rest) (hr' : Parts rest') (heq : e.chars rest = e'.chars rest') :
    e.opener = e'.opener := by
  obtain ⟨word, more, hchars, hfront⟩ := Expr.opens h hr
  obtain ⟨word', more', hchars', hfront'⟩ := Expr.opens h' hr'
  exact (hfront.unique hfront' (by rw [← hchars, ← hchars', heq])).1

/-- The text starts like an operand: with a word, a string or a parenthesis. -/
def Begins (text : List Char) : Prop :=
  ∃ c more, text = c :: more ∧ (isWordPart c = true ∨ c = '"' ∨ c = '(')

theorem Ident.Plain.begins {id : Ident} (h : id.Plain) (rest : List Char) :
    Begins (id.name.toList ++ rest) := by
  obtain ⟨c, more, hw, hs⟩ := h.head
  have hpart : isWordPart c = true := by
    rcases Bool.or_eq_true_iff.1 hs with hs | hs
    · simp [isWordPart, Char.isAlphanum, hs]
    · simp [isWordPart, hs]
  exact ⟨c, more ++ rest, by rw [hw, List.cons_append], .inl hpart⟩

theorem Expr.begins : ∀ {e : Expr}, e.Legible → ∀ rest, Begins (e.chars rest)
  | .int _ _, h, rest => by
    obtain ⟨n, rfl, -⟩ := h
    obtain ⟨hne, hdigits⟩ := isLexeme_repr n
    obtain ⟨c, more, hw⟩ := List.exists_cons_of_ne_nil hne
    have hdigit : c.isDigit = true := hdigits c (by simp [hw])
    refine ⟨c, more ++ rest, congrArg (· ++ rest) hw, .inl ?_⟩
    simp [isWordPart, Char.isAlphanum, hdigit]
  | .str _ _, h, rest => by
    obtain ⟨inside, -, hw⟩ := id h
    exact ⟨'"', inside ++ ['"'] ++ rest, congrArg (· ++ rest) hw, by simp⟩
  | .bool value _, _, rest => by
    cases value with
    | true => exact ⟨_, _, rfl, .inl rfl⟩
    | false => exact ⟨_, _, rfl, .inl rfl⟩
  | .name _, h, rest => (Ident.Fits.plain h).begins rest
  | .call .., h, rest => h.1.plain.begins _
  | .dot .., _, _ | .assign .., _, _ | .unary .., _, _ | .binary .., _, _ =>
    ⟨_, _, rfl, by simp⟩

/-! ## Expressions -/

/-- No other expression is written like it. -/
def Expr.Unique (e : Expr) : Prop :=
  ∀ e' : Expr, e'.Legible → Plain e'.occurrences → ∀ rest rest', Ends rest → Ends rest' →
    e.chars rest = e'.chars rest' → e.relabel unplace = e'.relabel unplace ∧ rest = rest'

theorem ends_closeParen (rest : List Char) : Ends (')' :: rest) := ends_cons _ (by decide)

theorem ends_blank (rest : List Char) : Ends (' ' :: rest) := ends_cons _ (by decide)

theorem sign_char {op : String} (hop : ∃ word ∈ [Fixed.minus, .not], op = word.spelling) :
    ∃ c ∈ ['-', '!'], op.toList = [c] := by
  obtain ⟨word, hword, rfl⟩ := hop
  simp only [List.mem_cons, List.not_mem_nil, or_false] at hword
  rcases hword with rfl | rfl
  · exact ⟨'-', by simp, rfl⟩
  · exact ⟨'!', by simp, rfl⟩

/-- An operand does not start with a sign. -/
theorem Begins.not_sign {op : String} (hop : ∃ word ∈ [Fixed.minus, .not], op = word.spelling)
    {text : List Char} (h : Begins text) (rest : List Char) : op.toList ++ rest ≠ text := by
  obtain ⟨c, hc, hsign⟩ := sign_char hop
  obtain ⟨d, more, rfl, hd⟩ := h
  rw [hsign]
  intro heq
  obtain rfl : c = d := (List.cons.inj heq).1
  simp only [List.mem_cons, List.not_mem_nil, or_false] at hc
  rcases hc with rfl | rfl <;> revert hd <;> decide

theorem Expr.unique_int {value : Int} {loc : Option Loc} (h : (Expr.int value loc).Legible) :
    (Expr.int value loc).Unique := by
  intro e' h' _ rest rest' hr hr' heq
  have hopener := Expr.opener_unique h h' hr.parts hr'.parts heq
  cases e' with
  | int value' loc' =>
    obtain ⟨n, rfl, -⟩ := h
    obtain ⟨n', rfl, -⟩ := h'
    obtain ⟨-, hword, hrest⟩ := (front_number n hr.parts).unique (front_number n' hr'.parts) heq
    have hvalue := congrArg (Nat.ofDigitChars 10 · 0) hword
    obtain rfl : n = n' := by simpa [Nat.toList_repr, Nat.ofDigitChars_toDigits] using hvalue
    exact ⟨rfl, hrest⟩
  | _ => simp [Expr.opener] at hopener

theorem Expr.unique_str {text : String} {loc : Option Loc} (h : (Expr.str text loc).Legible) :
    (Expr.str text loc).Unique := by
  intro e' h' _ rest rest' hr hr' heq
  have hopener := Expr.opener_unique h h' hr.parts hr'.parts heq
  cases e' with
  | str text' loc' =>
    obtain ⟨-, hword, hrest⟩ := (front_string h rest).unique (front_string h' rest') heq
    obtain rfl := String.toList_injective hword
    exact ⟨rfl, hrest⟩
  | _ => simp [Expr.opener] at hopener

theorem Expr.unique_bool (value : Bool) (loc : Option Loc) : (Expr.bool value loc).Unique := by
  intro e' h' _ rest rest' hr hr' heq
  have hopener := Expr.opener_unique (e := .bool value loc) trivial h' hr.parts hr'.parts heq
  cases e' with
  | bool value' loc' =>
    obtain ⟨-, -, hrest⟩ := (front_flag value hr.parts).unique (front_flag value' hr'.parts) heq
    obtain rfl : value = value' := by
      revert hopener
      cases value <;> cases value' <;> simp [Expr.opener]
    exact ⟨rfl, hrest⟩
  | _ => cases value <;> simp [Expr.opener] at hopener

theorem Expr.unique_name {id : Ident} (h : id.Fits .operand) : (Expr.name id).Unique := by
  intro e' h' _ rest rest' hr hr' heq
  have hopener := Expr.opener_unique (e := .name id) h h' hr.parts hr'.parts heq
  cases e' with
  | name id' =>
    obtain ⟨hid, hrest⟩ := h.plain.unique (Ident.Fits.plain h') hr.parts hr'.parts heq
    exact ⟨congrArg Expr.name hid, hrest⟩
  | call callee args =>
    -- behind a name that is all of an expression there are no arguments
    obtain ⟨-, hrest⟩ := h.plain.unique h'.1.plain hr.parts (parts_cons _ (by decide)) heq
    exact absurd (congrArg List.head? hrest) hr.noCall
  | _ => simp [Expr.opener] at hopener

theorem Expr.plain_of_mem {es : List Expr} (h : Plain (Expr.occurrencesAll es)) :
    ∀ e ∈ es, Plain e.occurrences := by
  induction es with
  | nil => exact List.forall_mem_nil _
  | cons e es ih =>
    rw [Expr.occurrencesAll, plain_append] at h
    exact List.forall_mem_cons.2 ⟨h.1, ih h.2⟩

theorem Expr.head_ne_closeParen {e : Expr} (h : e.Legible) (rest : List Char) :
    (e.chars rest).head? ≠ some ')' := by
  obtain ⟨c, more, hchars, hc⟩ := Expr.begins h rest
  rw [hchars]
  rintro ⟨⟩
  revert hc
  decide

/-- Arguments in parentheses. -/
theorem Expr.args_unique {args args' : List Expr} (h : Expr.LegibleAll args)
    (hunique : ∀ arg ∈ args, arg.Unique) (h' : Expr.LegibleAll args')
    (hp' : Plain (Expr.occurrencesAll args')) {rest rest' : List Char}
    (heq : betweenCommas Expr.chars args (')' :: rest) =
      betweenCommas Expr.chars args' (')' :: rest')) :
    Expr.relabelAll unplace args = Expr.relabelAll unplace args' ∧ rest = rest' := by
  rw [Expr.legibleAll_iff] at h h'
  rw [Expr.relabelAll_eq_map, Expr.relabelAll_eq_map]
  exact betweenCommas_unique
    (fun arg ha arg' ha' => hunique arg ha arg' (h' arg' ha') (Expr.plain_of_mem hp' arg' ha'))
    (fun arg ha => Expr.head_ne_closeParen (h arg ha))
    (fun arg ha => Expr.head_ne_closeParen (h' arg ha)) heq

theorem Expr.unique_call {callee : Ident} {args : List Expr} (h : callee.Fits .operand)
    (hargs : Expr.LegibleAll args) (hunique : ∀ arg ∈ args, arg.Unique) :
    (Expr.call callee args).Unique := by
  intro e' h' hp' rest rest' hr hr' heq
  have hopener := Expr.opener_unique (e := .call callee args) ⟨h, hargs⟩ h' hr.parts hr'.parts heq
  cases e' with
  | call callee' args' =>
    obtain ⟨hid, hrest⟩ := h.plain.unique h'.1.plain (parts_cons _ (by decide))
      (parts_cons _ (by decide)) heq
    have hargs' := (plain_cons.1 hp').2
    simp only [Expr.argChars_eq, List.cons.injEq, true_and] at hrest
    obtain ⟨hsame, hrest⟩ := Expr.args_unique hargs hunique h'.2 hargs' hrest
    exact ⟨by rw [Expr.relabel, Expr.relabel, hid, hsame], hrest⟩
  | name id' =>
    obtain ⟨-, hrest⟩ := h.plain.unique (Ident.Fits.plain h') (parts_cons _ (by decide)) hr'.parts heq
    exact absurd (congrArg List.head? hrest).symm hr'.noCall
  | _ => simp [Expr.opener] at hopener

/-! ## Groups -/

theorem Expr.unique_unary {op : String} {operand : Expr}
    (hop : ∃ word ∈ [Fixed.minus, .not], op = word.spelling) (h : operand.Legible)
    (hunique : operand.Unique) : (Expr.unary op operand).Unique := by
  intro e' h' hp' rest rest' hr hr' heq
  have hopener := Expr.opener_unique (e := .unary op operand) ⟨hop, h⟩ h' hr.parts hr'.parts heq
  cases e' with
  | unary op' operand' =>
    obtain ⟨c, -, hc⟩ := sign_char hop
    obtain ⟨c', -, hc'⟩ := sign_char h'.1
    have hinside := (List.cons.inj heq).2
    rw [hc, hc', List.singleton_append, List.singleton_append] at hinside
    obtain ⟨hsign, htext⟩ := List.cons.inj hinside
    obtain ⟨hoperand, hrest⟩ := hunique _ h'.2 hp' _ _ (ends_closeParen _) (ends_closeParen _) htext
    obtain rfl : op = op' := String.toList_injective (by rw [hc, hc', hsign])
    exact ⟨by rw [Expr.relabel, Expr.relabel, hoperand], (List.cons.inj hrest).2⟩
  | dot object field symbol =>
    exact absurd (List.cons.inj heq).2 ((Expr.begins (Expr.Heads.legible h') _).not_sign hop _)
  | assign target value =>
    exact absurd (List.cons.inj heq).2 ((Expr.begins h'.1.legible _).not_sign hop _)
  | binary op' left right =>
    exact absurd (List.cons.inj heq).2 ((Expr.begins h'.2.1 _).not_sign hop _)
  | bool value' loc' => exact absurd hopener.symm (Expr.opener_bool value' loc')
  | strayDot | strayCall | stray => exact h'.elim
  | _ => simp [Expr.opener] at hopener

theorem Expr.unique_dot {object : Expr} {field : Ident} {symbol : Option Symbol}
    (h : (Expr.dot object field symbol).Legible)
    (hp : Plain (Expr.dot object field symbol).occurrences) (hunique : object.Unique) :
    (Expr.dot object field symbol).Unique := by
  intro e' h' hp' rest rest' hr hr' heq
  have hopener := Expr.opener_unique h h' hr.parts hr'.parts heq
  cases e' with
  | dot object' field' symbol' =>
    have hheads : (Expr.dot object field symbol).Heads .operand := h
    have hheads' : (Expr.dot object' field' symbol').Heads .operand := h'
    exact (hheads.chain hp).unique (hheads'.chain hp') hr.parts hr'.parts heq
  | unary op' operand' =>
    exact absurd (List.cons.inj heq).2.symm ((Expr.begins (Expr.Heads.legible h) _).not_sign h'.1 _)
  | assign target value =>
    obtain ⟨-, hrest⟩ := hunique _ h'.1.legible (plain_append.1 hp').1 _ _ (ends_closeParen _)
      (ends_blank _) (List.cons.inj heq).2
    cases hrest
  | binary op' left right =>
    obtain ⟨-, hrest⟩ := hunique _ h'.2.1 (plain_append.1 hp').1 _ _ (ends_closeParen _)
      (ends_blank _) (List.cons.inj heq).2
    cases hrest
  | bool value' loc' => exact absurd hopener.symm (Expr.opener_bool value' loc')
  | strayDot | strayCall | stray => exact h'.elim
  | _ => simp [Expr.opener] at hopener

/-- Two operands in parentheses with a word between them. -/
theorem infix_unique {left right left' right' : Expr} (word word' : Fixed)
    (hleft : left.Unique) (hright : right.Unique) (h : left'.Legible ∧ right'.Legible)
    (hp : Plain (left'.occurrences ++ right'.occurrences)) {rest rest' : List Char}
    (heq : '(' :: left.chars (' ' :: (word.spelling.toList ++ ' ' :: right.chars (')' :: rest))) =
      '(' :: left'.chars (' ' :: (word'.spelling.toList ++ ' ' :: right'.chars (')' :: rest')))) :
    left.relabel unplace = left'.relabel unplace ∧ word = word' ∧
      right.relabel unplace = right'.relabel unplace ∧ rest = rest' := by
  rw [plain_append] at hp
  obtain ⟨hsame, hrest⟩ := hleft _ h.1 hp.1 _ _ (ends_blank _) (ends_blank _) (List.cons.inj heq).2
  obtain ⟨hword, -, hrest⟩ :=
    (front_fixed word _).unique (front_fixed word' _) (List.cons.inj hrest).2
  obtain ⟨hsame', hrest⟩ := hright _ h.2 hp.2 _ _ (ends_closeParen _) (ends_closeParen _)
    (List.cons.inj hrest).2
  exact ⟨hsame, Terminal.fixed.inj hword, hsame', (List.cons.inj hrest).2⟩

theorem Expr.unique_assign {target value : Expr} (h : (Expr.assign target value).Legible)
    (htarget : target.Unique) (hvalue : value.Unique) : (Expr.assign target value).Unique := by
  intro e' h' hp' rest rest' hr hr' heq
  have hopener := Expr.opener_unique h h' hr.parts hr'.parts heq
  cases e' with
  | assign target' value' =>
    obtain ⟨hsame, -, hsame', hrest⟩ := infix_unique .becomes .becomes htarget hvalue
      ⟨h'.1.legible, h'.2⟩ hp' heq
    exact ⟨by rw [Expr.relabel, Expr.relabel, hsame, hsame'], hrest⟩
  | binary op left right =>
    obtain ⟨⟨word, binding, hword, rfl⟩, hlegible⟩ := h'
    obtain ⟨-, hbecomes, -⟩ := infix_unique .becomes word htarget hvalue hlegible hp' heq
    rw [← hbecomes] at hword
    cases hword
  | dot object field symbol =>
    obtain ⟨-, hrest⟩ := htarget _ (Expr.Heads.legible h')
      (plain_append.1 (plain_cons.1 hp').2).1 _ _ (ends_blank _) (ends_closeParen _)
      (List.cons.inj heq).2
    cases hrest
  | unary op operand =>
    exact absurd (List.cons.inj heq).2.symm ((Expr.begins h.1.legible _).not_sign h'.1 _)
  | bool value' loc' => exact absurd hopener.symm (Expr.opener_bool value' loc')
  | strayDot | strayCall | stray => exact h'.elim
  | _ => simp [Expr.opener] at hopener

theorem Expr.unique_binary {op : String} {left right : Expr} (h : (Expr.binary op left right).Legible)
    (hleft : left.Unique) (hright : right.Unique) : (Expr.binary op left right).Unique := by
  intro e' h' hp' rest rest' hr hr' heq
  have hopener := Expr.opener_unique h h' hr.parts hr'.parts heq
  obtain ⟨⟨word, binding, hword, rfl⟩, hlegible⟩ := h
  cases e' with
  | assign target value =>
    obtain ⟨-, hbecomes, -⟩ := infix_unique word .becomes hleft hright
      ⟨h'.1.legible, h'.2⟩ hp' heq
    rw [hbecomes] at hword
    cases hword
  | binary op' left' right' =>
    obtain ⟨⟨word', binding', hword', rfl⟩, hlegible'⟩ := h'
    obtain ⟨hsame, rfl, hsame', hrest⟩ := infix_unique word word' hleft hright hlegible' hp' heq
    exact ⟨by rw [Expr.relabel, Expr.relabel, hsame, hsame'], hrest⟩
  | dot object field symbol =>
    obtain ⟨-, hrest⟩ := hleft _ (Expr.Heads.legible h')
      (plain_append.1 (plain_cons.1 hp').2).1 _ _ (ends_blank _) (ends_closeParen _)
      (List.cons.inj heq).2
    cases hrest
  | unary op operand =>
    exact absurd (List.cons.inj heq).2.symm ((Expr.begins hlegible.1 _).not_sign h'.1 _)
  | bool value' loc' => exact absurd hopener.symm (Expr.opener_bool value' loc')
  | strayDot | strayCall | stray => exact h'.elim
  | _ => simp [Expr.opener] at hopener

/-! ## Every expression -/

mutual

/-- Legible expressions that are written alike are alike, and so is what stands behind them. -/
theorem Expr.unique : ∀ {e : Expr}, e.Legible → Plain e.occurrences → e.Unique
  | .int .., h, _ => Expr.unique_int h
  | .str .., h, _ => Expr.unique_str h
  | .bool value loc, _, _ => Expr.unique_bool value loc
  | .name _, h, _ => Expr.unique_name h
  | .dot .., h, hp =>
    Expr.unique_dot h hp
      (Expr.unique (Expr.Heads.legible h) (plain_append.1 (plain_cons.1 hp).2).1)
  | .assign .., h, hp =>
    Expr.unique_assign h (Expr.unique h.1.legible (plain_append.1 hp).1)
      (Expr.unique h.2 (plain_append.1 hp).2)
  | .call .., h, hp => Expr.unique_call h.1 h.2 (Expr.uniqueAll h.2 (plain_cons.1 hp).2)
  | .unary .., h, hp => Expr.unique_unary h.1 h.2 (Expr.unique h.2 hp)
  | .binary .., h, hp =>
    Expr.unique_binary h (Expr.unique h.2.1 (plain_append.1 hp).1)
      (Expr.unique h.2.2 (plain_append.1 hp).2)
  | .stray _, h, _ => h.elim

theorem Expr.uniqueAll : ∀ {es : List Expr}, Expr.LegibleAll es →
    Plain (Expr.occurrencesAll es) → ∀ e ∈ es, e.Unique
  | [], _, _ => List.forall_mem_nil _
  | _ :: _, h, hp =>
    List.forall_mem_cons.2 ⟨Expr.unique h.1 (plain_append.1 hp).1,
      Expr.uniqueAll h.2 (plain_append.1 hp).2⟩

end

end Moo
