import Mathlib.Data.List.Forall2
import Moo.Proofs.Reading.Words
import Moo.Proofs.Tree.Legible

/-!
# Reading on from a place

`place.Reads text rest Post`: wherever in a text the place is reached, the
reader gets from `text` to `rest`, at a place with the property `Post`, and
meets no overlong number. `place.Refuses text`: it does not get to the end.
Both hold with the rest of the text present, so that putting judgments
together cannot split a word.

* `Reads.seq`, `Reads.refuses`: one part of a text, then the next.
* `ReadsUnless`: the one judgment or the other, as a flag says; flags add up
  along a text.
* `Reads.fixed`, `Reads.ident`, `Reads.word`, `reads_blanks`: what one word
  or some blanks do.
* `Refuses.sign`: a sign where it is not offered.
* `readsUnless_commas`: a list of items with commas between them.
-/
namespace Moo

/-- The text does not go on with a letter, a digit or an underscore. -/
def Parts (text : List Char) : Prop :=
  ∀ d ∈ text.head?, isWordPart d = false

theorem parts_cons {c : Char} (rest : List Char) (h : isWordPart c = false) :
    Parts (c :: rest) := by
  intro d hd
  cases hd
  exact h

theorem parts_blank (rest : List Char) : Parts (' ' :: rest) := parts_cons rest (by decide)

theorem parts_closeParen (rest : List Char) : Parts (')' :: rest) := parts_cons rest (by decide)

theorem parts_semicolon (rest : List Char) : Parts (';' :: rest) := parts_cons rest (by decide)

namespace Fixed

/-- Signs that no other sign, and no comment, starts with. -/
def closedSigns : List Fixed :=
  [increment, decrement, comma, semicolon, openParen, closeParen, openBrace, closeBrace]

theorem joins_closed {f : Fixed} (hf : f ∈ closedSigns) (d : Char) :
    (Terminal.fixed f).joins d = false := by
  have key : ∀ f ∈ closedSigns, (f.isKeyword = false ∧ f ≠ divide) ∧
      ∀ g ∈ all, f.spelling.toList <+: g.spelling.toList → g = f := by
    decide +kernel
  obtain ⟨⟨hk, hd⟩, hall⟩ := key f hf
  have hany : all.any (fun g => g.spelling.toList = f.spelling.toList ++ [d]) = false := by
    rw [List.any_eq_false]
    intro g hg
    simp only [decide_eq_true_eq]
    intro heq
    have hgf := hall g hg ⟨[d], heq.symm⟩
    have hlen := congrArg List.length heq
    simp [hgf] at hlen
  simp [Terminal.joins, hk, hany, hd]

/-- A sign in front of an operand, unless the operand makes it another sign. -/
theorem joins_minus_not {f : Fixed} (hf : f ∈ [minus, not]) {d : Char} (hd : d ≠ '-' ∧ d ≠ '=') :
    (Terminal.fixed f).joins d = false := by
  have hk : f.isKeyword = false ∧ f ≠ divide := by
    simp only [List.mem_cons, List.not_mem_nil, or_false] at hf
    rcases hf with rfl | rfl <;> decide
  have hany : all.any (fun g => g.spelling.toList = f.spelling.toList ++ [d]) = false := by
    simp only [List.mem_cons, List.not_mem_nil, or_false] at hf
    rcases hf with rfl | rfl <;> simp [all, spelling, Ne.symm hd.1, Ne.symm hd.2]
  simp [Terminal.joins, hk, hany]

end Fixed

namespace Place

/-- From `text` to `rest`, at a place with the property. -/
def Reads (place : Place) (text rest : List Char) (Post : Place → Prop) : Prop :=
  ∀ read loc, ∃ next tokens loc', Post next ∧ (∀ t ∈ tokens, t.overlong? = none) ∧
    readOn place read loc text = readOn next (tokens ++ read) loc' rest

/-- A word or an end where no program goes on. -/
def Refuses (place : Place) (text : List Char) : Prop :=
  ∀ read loc, ∃ error, readOn place read loc text = .error error

variable {place : Place} {text middle rest : List Char} {P Q : Place → Prop}

theorem Reads.done (h : P place) : place.Reads text text P :=
  fun _ loc => ⟨place, [], loc, h, List.forall_mem_nil _, rfl⟩

theorem Reads.seq (h : place.Reads text middle P)
    (h' : ∀ next : Place, P next → next.Reads middle rest Q) : place.Reads text rest Q := by
  intro read loc
  obtain ⟨next, tokens, loc₁, hp, ho, hr⟩ := h read loc
  obtain ⟨last, tokens', loc₂, hq, ho', hr'⟩ := h' next hp (tokens ++ read) loc₁
  refine ⟨last, tokens' ++ tokens, loc₂, hq, ?_, ?_⟩
  · simpa [or_imp, forall_and] using ⟨ho', ho⟩
  · rw [hr, hr', List.append_assoc]

theorem Reads.mono (h : place.Reads text rest P) (hpq : ∀ next : Place, P next → Q next) :
    place.Reads text rest Q :=
  h.seq fun next hp => .done (hpq next hp)

theorem Reads.refuses (h : place.Reads text middle P)
    (h' : ∀ next : Place, P next → next.Refuses middle) : place.Refuses text := by
  intro read loc
  obtain ⟨next, tokens, loc₁, hp, _, hr⟩ := h read loc
  rw [hr]
  exact h' next hp (tokens ++ read) loc₁

/-- A text that leads to one place only. -/
theorem Reads.to {next : Place} (h : place.Reads text middle (· = next))
    (h' : next.Reads middle rest Q) : place.Reads text rest Q :=
  h.seq fun _ hn => hn ▸ h'

theorem Reads.toRefuses {next : Place} (h : place.Reads text middle (· = next))
    (h' : next.Refuses middle) : place.Refuses text :=
  h.refuses fun _ hn => hn ▸ h'

/-! ## Reading on or refusing -/

/-- From `text` to `rest`, at a place with the property; but if the flag is set, the text is
refused. -/
def ReadsUnless (place : Place) (flag : Bool) (text rest : List Char) (Post : Place → Prop) :
    Prop :=
  match flag with
  | false => place.Reads text rest Post
  | true => place.Refuses text

theorem ReadsUnless.seq {a b : Bool} (h : place.ReadsUnless a text middle P)
    (h' : ∀ next : Place, P next → next.ReadsUnless b middle rest Q) :
    place.ReadsUnless (a || b) text rest Q := by
  match a, b with
  | true, _ => exact h
  | false, true => exact Reads.refuses h h'
  | false, false => exact Reads.seq h h'

theorem Reads.unless {flag : Bool} (h : place.Reads text middle P)
    (h' : ∀ next : Place, P next → next.ReadsUnless flag middle rest Q) :
    place.ReadsUnless flag text rest Q := by
  match flag with
  | false => exact h.seq h'
  | true => exact h.refuses h'

theorem ReadsUnless.reads {flag : Bool} (h : place.ReadsUnless flag text middle P)
    (h' : ∀ next : Place, P next → next.Reads middle rest Q) :
    place.ReadsUnless flag text rest Q := by
  match flag with
  | false => exact Reads.seq h h'
  | true => exact h

theorem ReadsUnless.mono {flag : Bool} (h : place.ReadsUnless flag text rest P)
    (hpq : ∀ next : Place, P next → Q next) : place.ReadsUnless flag text rest Q :=
  h.reads fun next hp => .done (hpq next hp)

/-- What is refused later is refused in any case. -/
theorem ReadsUnless.refuses {flag : Bool} (h : place.ReadsUnless flag text middle P)
    (h' : ∀ next : Place, P next → next.Refuses middle) : place.Refuses text := by
  match flag with
  | true => exact h
  | false => exact Reads.refuses h h'

/-- A text that leads to one place only. -/
theorem Reads.toUnless {flag : Bool} {next : Place} (h : place.Reads text middle (· = next))
    (h' : next.ReadsUnless flag middle rest Q) : place.ReadsUnless flag text rest Q :=
  h.unless fun _ hn => hn ▸ h'

/-! ## Blanks -/

theorem readOn_blank {read : List Token} {loc : Loc} {c : Char} (hc : isBlank c = true) :
    readOn place read loc (c :: rest) = readOn place read (loc.next c) rest := by
  have hgap : gap (c :: rest) = c :: gap rest := by simp [gap, gapFrom, hc]
  exact readOn_skip [c] hgap

theorem reads_blanks (blanks text : List Char) (hb : blanks.all isBlank = true) :
    place.Reads (blanks ++ text) text (· = place) := by
  induction blanks with
  | nil => exact .done rfl
  | cons c blanks ih =>
    obtain ⟨hc, hb⟩ := Bool.and_eq_true_iff.1 hb
    intro read loc
    rw [List.cons_append, readOn_blank hc]
    exact ih hb read (loc.next c)

theorem reads_blank (text : List Char) : place.Reads (' ' :: text) text (· = place) :=
  reads_blanks [' '] text (by decide)

/-! ## Words -/

/-- A word that is found, and whatever place it leads to. -/
theorem Reads.word {word : String} {t : Terminal} (hlex : IsLexeme t word.toList)
    (hid : t = .ident → ∀ f : Fixed, place.spot.offers (.fixed f) = true → f.spelling ≠ word)
    (hshort : t = .number → word.length ≤ maxDigits) (hr : ∀ d ∈ rest.head?, t.joins d = false)
    (hs : ∀ loc, ∃ next, place.step? ⟨t, word, loc⟩ = some next ∧ P next) :
    place.Reads (word.toList ++ rest) rest P := by
  intro read loc
  obtain ⟨next, hstep, hp⟩ := hs loc
  have hfinds : place.spot.Finds ⟨t, word, loc⟩ := ⟨Place.offers_of_step hstep, hlex, hid⟩
  have hword := readOn_word read (List.forall_mem_nil _) rfl hfinds hr hstep
  refine ⟨next, [⟨t, word, loc⟩], loc.past word.toList, hp, ?_, hword⟩
  intro token ht
  obtain rfl := List.mem_singleton.1 ht
  simp only [Token.overlong?, Bool.and_eq_true, decide_eq_true_eq, ite_eq_right_iff,
    reduceCtorEq, imp_false, not_and]
  exact fun hn => Nat.not_lt_of_le (hshort hn)

theorem Reads.fixed {next : Place} (f : Fixed)
    (hr : ∀ d ∈ rest.head?, (Terminal.fixed f).joins d = false)
    (hs : ∀ loc, place.step? ⟨.fixed f, f.spelling, loc⟩ = some next) :
    place.Reads (f.spelling.toList ++ rest) rest (· = next) := by
  have hlex : IsLexeme (.fixed f) f.spelling.toList := rfl
  exact .word hlex (fun h => by cases h) (fun h => by cases h) hr fun loc => ⟨next, hs loc, rfl⟩

theorem Reads.keyword {next : Place} (f : Fixed) (hk : f.isKeyword = true) (hr : Parts rest)
    (hs : ∀ loc, place.step? ⟨.fixed f, f.spelling, loc⟩ = some next) :
    place.Reads (f.spelling.toList ++ rest) rest (· = next) := by
  refine .fixed f (fun d hd => ?_) hs
  simpa [Terminal.joins, hk] using hr d hd

/-- A keyword, up to the blank behind it. -/
theorem Reads.leading {next : Place} (f : Fixed) (hk : f.isKeyword = true)
    (hs : ∀ loc, place.step? ⟨.fixed f, f.spelling, loc⟩ = some next) (rest : List Char) :
    place.Reads (f.spelling.toList ++ ' ' :: rest) (' ' :: rest) (· = next) :=
  .keyword f hk (parts_blank rest) hs

/-- A sign that no other sign starts with. -/
theorem Reads.sign {next : Place} (f : Fixed) (hf : f ∈ Fixed.closedSigns)
    (hs : ∀ loc, place.step? ⟨.fixed f, f.spelling, loc⟩ = some next) :
    place.Reads (f.spelling.toList ++ rest) rest (· = next) :=
  .fixed f (fun d _ => Fixed.joins_closed hf d) hs

/-- A word between two blanks. -/
theorem Reads.spaced {next : Place} (f : Fixed)
    (hs : ∀ loc, place.step? ⟨.fixed f, f.spelling, loc⟩ = some next) :
    place.Reads (' ' :: (f.spelling.toList ++ ' ' :: rest)) rest (· = next) := by
  refine (reads_blank _).to ((Reads.fixed f ?_ hs).to (reads_blank rest))
  intro d hd
  obtain ⟨⟩ := hd
  exact (Terminal.fixed f).joins_blank (by decide)

/-- A name, as it is read again: only its location may be another. -/
theorem Reads.ident {id : Ident} (hid : id.Fits place.spot) (hr : Parts rest)
    (hs : ∀ loc, ∃ next, place.step? ⟨.ident, id.name, loc⟩ = some next ∧ P next) :
    place.Reads (id.name.toList ++ rest) rest P :=
  .word hid.spelled (fun _ => hid.unlike) (fun h => by cases h) hr hs

/-! ## Signs where none is offered -/

/-- The signs that refuse a field access, by their letter. -/
def loneSigns : List (Char × Fixed) :=
  [('.', .dot), ('(', .openParen)]

/-- A word that starts with such a sign is the sign. -/
theorem terminal_of_loneSign {t : Terminal} {f : Fixed} {c : Char} {more : List Char}
    (hc : (c, f) ∈ loneSigns) (h : IsLexeme t (c :: more)) : t = .fixed f := by
  have hkind : c ≠ '"' ∧ isWordStart c = false ∧ c.isDigit = false := by
    revert hc
    simp only [loneSigns, List.mem_cons, Prod.mk.injEq, List.not_mem_nil, or_false]
    rintro (⟨rfl, rfl⟩ | ⟨rfl, rfl⟩) <;> decide
  match t, h with
  | .text, ⟨_, _, hw⟩ => exact absurd (List.cons.inj hw).1 hkind.1
  | .ident, ⟨_, _, hw, hs, _⟩ =>
    cases hw
    rw [hkind.2.1] at hs
    cases hs
  | .number, ⟨_, hd⟩ =>
    have := hd c List.mem_cons_self
    rw [hkind.2.2] at this
    cases this
  | .fixed g, hg =>
    have key : ∀ g ∈ Fixed.all, ∀ lone ∈ loneSigns,
        g.spelling.toList.head? = some lone.1 → g = lone.2 := by
      decide +kernel
    have hhead : g.spelling.toList.head? = some c := by
      rw [← (show c :: more = g.spelling.toList from hg)]
      rfl
    rw [key g g.mem_all _ hc hhead]

theorem Refuses.sign {f : Fixed} {c : Char} (hc : (c, f) ∈ loneSigns)
    (ho : place.spot.offers (.fixed f) = false) : place.Refuses (c :: rest) := by
  have hkind : isBlank c = false ∧ startsComment c rest = false := by
    revert hc
    simp only [loneSigns, List.mem_cons, Prod.mk.injEq, List.not_mem_nil, or_false]
    rintro (⟨rfl, rfl⟩ | ⟨rfl, rfl⟩) <;> exact ⟨by decide, by simp [startsComment]⟩
  have hgap : gap (c :: rest) = [] := gap_blanks (List.forall_mem_nil _) hkind.1 hkind.2
  have hdrop : (c :: rest).drop (gap (c :: rest)).length = c :: rest := by
    rw [hgap]
    rfl
  have hnone : lexeme? place.spot.offers c rest = none := by
    rw [Option.eq_none_iff_forall_not_mem]
    rintro ⟨t, more⟩ hl
    obtain ⟨hoffered, _, hlex, _⟩ := lexeme?_sound hl
    rw [terminal_of_loneSign hc hlex, ho] at hoffered
    cases hoffered
  intro read loc
  rw [readOn_cons hdrop, hnone]
  simp only
  split <;> exact ⟨_, rfl⟩

/-! ## Lists with commas -/

/-- Items with commas between them and a parenthesis behind them, read one after the other. What
has been read is kept newest first; each item is read up to `relabel`. -/
theorem readsUnless_commas {α : Type} {relabel : α → α} {flag : α → Bool}
    (place closed : List α → Place) {items : List α} {texts : List String}
    (hitems : List.Forall₂ (fun item text => ∀ done rest, Parts rest →
      (place done).ReadsUnless (flag item) (text.toList ++ rest) rest fun next =>
        ∃ item', relabel item' = relabel item ∧
          (∀ loc, next.step? ⟨.fixed .comma, ",", loc⟩ = some (place (item' :: done))) ∧
          (∀ loc, next.step? ⟨.fixed .closeParen, ")", loc⟩ = some (closed (item' :: done))))
      items texts)
    (hempty : ∀ loc, (place []).step? ⟨.fixed .closeParen, ")", loc⟩ = some (closed []))
    (done : List α) (hdone : items = [] → done = []) (rest : List Char) :
    (place done).ReadsUnless (items.any flag) ((", ".intercalate texts).toList ++ ')' :: rest) rest
      fun next => ∃ items' : List α, items'.map relabel = items.map relabel ∧
        next = closed (items'.reverse ++ done) := by
  induction hitems generalizing done with
  | nil =>
    obtain rfl := hdone rfl
    refine (Reads.sign .closeParen (by decide) hempty).mono ?_
    exact fun _ hn => ⟨[], rfl, hn⟩
  | @cons item text items texts hitem hitems ih =>
    cases hitems with
    | nil =>
      rw [String.intercalate_singleton, List.any_cons, List.any_nil, Bool.or_false]
      refine (hitem done (')' :: rest) (parts_cons _ (by decide))).reads ?_
      intro next hnext
      obtain ⟨item', hlike, _, hclose⟩ := hnext
      refine (Reads.sign .closeParen (by decide) hclose).mono fun _ hn => ⟨[item'], ?_, hn⟩
      simp [hlike]
    | cons =>
      rw [String.intercalate_cons_cons, List.any_cons]
      simp only [String.toList_append, List.append_assoc]
      refine (hitem done (',' :: ' ' :: _) (parts_cons _ (by decide))).seq ?_
      intro next hnext
      obtain ⟨item', hlike, hcomma, _⟩ := hnext
      refine (Reads.sign .comma (by decide) hcomma).toUnless ((reads_blank _).toUnless ?_)
      refine (ih (item' :: done) (fun h => by cases h)).mono ?_
      intro next hnext
      obtain ⟨items', hlikes, rfl⟩ := hnext
      exact ⟨item' :: items', by simp [hlike, hlikes], by simp⟩

end Place

end Moo
