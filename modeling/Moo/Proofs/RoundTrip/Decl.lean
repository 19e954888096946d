import Moo.Proofs.RoundTrip.Expr

/-!
# Printed declarations, read back

A declaration prints as lines. `place.ReadsLines flag lines Post`: behind
the lines, whatever follows them, the place has the property; but if the
flag is set, they are refused.

* `Decl.reads_var`, `Decl.reads_vars`: variables and fields.
* `Decl.reads_formals`: the formals of a function.
-/
namespace Moo

open Relabel (unplace)

/-! ## Lines -/

theorem toList_unlines_line (indent : Nat) (text : String) :
    (unlines [line indent text]).toList = List.replicate indent ' ' ++ (text.toList ++ ['\n']) := by
  simp [unlines, line]

namespace Place

/-- Behind the lines, at a place with the property; but if the flag is set, they are refused. -/
def ReadsLines (place : Place) (flag : Bool) (lines : List String) (Post : Place → Prop) : Prop :=
  ∀ rest, place.ReadsUnless flag ((unlines lines).toList ++ rest) rest Post

variable {place : Place} {a b flag : Bool} {ls ms : List String} {P Q : Place → Prop}

theorem ReadsLines.nil (h : P place) : place.ReadsLines false [] P :=
  fun _ => Reads.done h

theorem ReadsLines.seq (h : place.ReadsLines a ls P)
    (h' : ∀ next : Place, P next → next.ReadsLines b ms Q) :
    place.ReadsLines (a || b) (ls ++ ms) Q := by
  intro rest
  rw [toList_unlines_append, List.append_assoc]
  exact (h _).seq fun next hp => h' next hp rest

theorem ReadsLines.unless (h : place.ReadsLines false ls P)
    (h' : ∀ next : Place, P next → next.ReadsLines flag ms Q) :
    place.ReadsLines flag (ls ++ ms) Q := by
  simpa using h.seq h'

theorem ReadsLines.reads (h : place.ReadsLines flag ls P)
    (h' : ∀ next : Place, P next → next.ReadsLines false ms Q) :
    place.ReadsLines flag (ls ++ ms) Q := by
  simpa using h.seq h'

theorem ReadsLines.mono (h : place.ReadsLines flag ls P)
    (hpq : ∀ next : Place, P next → Q next) : place.ReadsLines flag ls Q :=
  fun rest => (h rest).mono hpq

/-- One line of text. -/
theorem ReadsLines.line (indent : Nat) {text : String}
    (h : ∀ rest, place.ReadsUnless flag (text.toList ++ rest) rest P) :
    place.ReadsLines flag [line indent text] P := by
  intro rest
  rw [toList_unlines_line]
  simp only [List.append_assoc]
  have hindent : (List.replicate indent ' ').all isBlank = true := by
    simp [isBlank]
  refine (reads_blanks _ _ hindent).toUnless ((h _).reads fun next hn => ?_)
  exact (reads_blanks ['\n'] rest (by decide)).mono fun _ he => he ▸ hn

theorem ReadsLines.empty (h : P place) : place.ReadsLines false [""] P :=
  fun rest => (reads_blanks ['\n'] rest (by decide)).mono fun _ he => he ▸ h

end Place

/-! ## A type and a name -/

theorem Ident.Fits.nameOrBrace {id : Ident} (h : id.Fits .name) : id.Fits .nameOrBrace := by
  refine h.mono fun f hk hf => ?_
  obtain rfl : f = .openBrace := by simpa [Spot.offers, Spot.terminals] using hf
  revert hk
  decide

/-- The name behind a type. -/
theorem reads_named {place : Place} {slot : Slot} {type : TypeExpr} {id : Ident}
    (h : place.EndsType slot type) (hid : id.Fits place.spot) {rest : List Char} (hr : Parts rest) :
    place.Reads (' ' :: (id.name.toList ++ rest)) rest fun next =>
      ∃ id' : Ident, id'.relabel unplace = id.relabel unplace ∧ next = .named slot type id' := by
  refine (Place.reads_blank _).to (.ident hid hr fun loc => ?_)
  exact ⟨_, h ⟨.ident, id.name, loc⟩ rfl, _, Ident.relabel_unplace _ hid.symbol, rfl⟩

/-- What a type and a name are printed as, wherever they are declared. -/
def ReadsNamed (type : TypeExpr) (id : Ident) (text : List Char) : Prop :=
  ∀ (place : Place) (slot : Slot), place.StartsType slot → ∀ rest, Parts rest →
    place.Reads (text ++ ' ' :: (id.name.toList ++ rest)) rest fun next =>
      ∃ (type' : TypeExpr) (id' : Ident), type'.relabel unplace = type.relabel unplace ∧
        id'.relabel unplace = id.relabel unplace ∧ next = .named slot type' id'

theorem reads_primitive {word : Fixed} (hw : word ∈ [Fixed.int, .bool, .void]) {id : Ident}
    (hid : id.Fits .name) : ReadsNamed (.primitive word.spelling) id word.spelling.toList := by
  intro place slot hstart rest hr
  have hkey : word.isKeyword = true ∧ .fixed word ∈ Spot.typeWords := by
    simp only [List.mem_cons, List.not_mem_nil, or_false] at hw
    rcases hw with rfl | rfl | rfl <;> decide
  have hword (text : List Char) : place.Reads (word.spelling.toList ++ ' ' :: text) (' ' :: text)
      (· = .typed slot (.primitive word.spelling)) := by
    refine .leading word hkey.1 (fun loc => ?_) text
    rw [hstart _ hkey.2]
    exact Slot.typeStep?_eq_some_iff.2 (.primitive hw rfl)
  refine (hword _).to ((reads_named (endsType_typed slot _) hid hr).mono ?_)
  intro next hnext
  obtain ⟨id', hlike, rfl⟩ := hnext
  exact ⟨_, id', rfl, hlike, rfl⟩

theorem reads_structType {tag id : Ident} (ht : tag.Fits .name) (hid : id.Fits .name) :
    ReadsNamed (.struct tag) id ("struct " ++ tag.name).toList := by
  intro place slot hstart rest hr
  have htext : ("struct " ++ tag.name).toList ++ ' ' :: (id.name.toList ++ rest) =
      Fixed.struct.spelling.toList ++ ' ' :: (tag.name.toList ++ ' ' ::
        (id.name.toList ++ rest)) := by
    simp only [String.toList_append, List.append_assoc]
    rfl
  have hword (text : List Char) : place.Reads (Fixed.struct.spelling.toList ++ ' ' :: text)
      (' ' :: text) (· = .structWord slot) := by
    have hmem : .fixed .struct ∈ Spot.typeWords := by decide
    exact .leading .struct (by decide) (fun loc => hstart _ hmem) text
  have htag (text : List Char) : (Place.structWord slot).Reads (tag.name.toList ++ ' ' :: text)
      (' ' :: text) fun next => ∃ tag' : Ident, tag'.relabel unplace = tag.relabel unplace ∧
        next.EndsType slot (.struct tag') ∧ id.Fits next.spot := by
    refine .ident ht (parts_blank _) fun loc => ?_
    have hlike := Ident.relabel_unplace (some loc) ht.symbol
    cases slot with
    | top decls => exact ⟨_, rfl, _, hlike, endsType_tagged decls _, hid.nameOrBrace⟩
    | _ => exact ⟨_, rfl, _, hlike, endsType_typed _ _, hid⟩
  rw [htext]
  refine (hword _).to ((Place.reads_blank _).to ((htag _).seq ?_))
  intro next hnext
  obtain ⟨tag', htag', hend, hfits⟩ := hnext
  refine (reads_named hend hfits hr).mono ?_
  intro next hnext
  obtain ⟨id', hlike, rfl⟩ := hnext
  exact ⟨.struct tag', id', by simp [TypeExpr.relabel, htag'], hlike, rfl⟩

theorem TypeExpr.reads {type : TypeExpr} (h : type.Legible) {id : Ident} (hid : id.Fits .name) :
    ∃ text, type.print = .ok text ∧ ReadsNamed type id text.toList := by
  match type, h with
  | .primitive _, ⟨word, hw, rfl⟩ => exact ⟨word.spelling, rfl, reads_primitive hw hid⟩
  | .struct tag, h => exact ⟨"struct " ++ tag.name, rfl, reads_structType h hid⟩

/-! ## Variables and fields -/

/-- Places where a variable may be declared, with the variables read so far, newest first. -/
structure Declares (place : List Decl → Place) (slot : List Decl → Slot) : Prop where
  starts : ∀ done, (place done).StartsType (slot done)
  ends : ∀ done type id semicolon, semicolon.terminal = .fixed .semicolon →
    (slot done).step? type id semicolon = some (place (.var type id :: done))

theorem declares_between : Declares .between .top :=
  ⟨startsType_between, fun _ _ _ _ hs => Slot.step?_eq_some_iff.2 (.var hs)⟩

theorem declares_inStruct (before : List Decl) (tag : Ident) :
    Declares (.inStruct before tag) (.field before tag) :=
  ⟨startsType_inStruct before tag, fun _ _ _ _ hs => Slot.step?_eq_some_iff.2 (.field hs)⟩

theorem declares_inBlock {block : Block} (h : block.stmts = []) :
    Declares (fun done => .inBlock (block.addDecls done.reverse))
      (fun done => .inner (block.addDecls done.reverse)) :=
  ⟨fun done => startsType_inBlock ((block.addDecls_stmts done.reverse).trans h),
    fun _ _ _ _ hs => by simp [Slot.step?, hs]⟩

theorem Decl.reads_var {d : Decl} (h : d.LegibleVar) (indent : Nat) :
    ∃ lines, d.lines false indent = .ok lines ∧ ∀ place slot, Declares place slot → ∀ done,
      (place done).ReadsLines false lines fun next =>
        ∃ d' : Decl, d'.relabel unplace = d.relabel unplace ∧ next = place (d' :: done) := by
  match d, h with
  | .var type id, ⟨ht, hid⟩ =>
    obtain ⟨text, hp, hreads⟩ := TypeExpr.reads ht hid
    refine ⟨[line indent (text ++ " " ++ id.name ++ ";")], by simp only [Decl.lines, hp]; rfl,
      fun place slot hds done => .line indent fun rest => ?_⟩
    have htext : (text ++ " " ++ id.name ++ ";").toList ++ rest =
        text.toList ++ ' ' :: (id.name.toList ++ ';' :: rest) := by simp
    rw [htext]
    refine (hreads _ _ (hds.starts done) _ (parts_semicolon _)).seq ?_
    intro next hnext
    obtain ⟨type', id', htype, hlike, rfl⟩ := hnext
    have hend : (Place.named (slot done) type' id').Reads (';' :: rest) rest
        (· = place (.var type' id' :: done)) :=
      .sign .semicolon (by decide) fun loc => by rw [Place.step?, hds.ends done type' id' _ rfl]
    exact hend.mono fun _ hn => ⟨.var type' id', by simp [Decl.relabel, htype, hlike], hn⟩

theorem Decl.reads_vars {ds : List Decl} (h : ∀ d ∈ ds, d.LegibleVar) (indent : Nat) :
    ∃ lines, Decl.linesAll false indent ds = .ok lines ∧ ∀ place slot, Declares place slot →
      ∀ done, (place done).ReadsLines false lines fun next =>
        ∃ ds', Decl.relabelAll unplace ds' = Decl.relabelAll unplace ds ∧
          next = place (ds'.reverse ++ done) := by
  induction ds with
  | nil => exact ⟨[], rfl, fun place slot _ done => .nil ⟨[], rfl, rfl⟩⟩
  | cons d ds ih =>
    obtain ⟨hd, hds⟩ := List.forall_mem_cons.1 h
    obtain ⟨first, hp, hfirst⟩ := Decl.reads_var hd indent
    obtain ⟨others, hps, hothers⟩ := ih hds
    refine ⟨first ++ others, by simp only [Decl.linesAll, hp, hps]; rfl,
      fun place slot hdeclares done => ?_⟩
    refine (hfirst place slot hdeclares done).unless ?_
    intro next hnext
    obtain ⟨d', hlike, rfl⟩ := hnext
    refine (hothers place slot hdeclares (d' :: done)).mono ?_
    intro next hnext
    obtain ⟨ds', hlikes, rfl⟩ := hnext
    exact ⟨d' :: ds', by simp [Decl.relabelAll, hlike, hlikes], by simp⟩

/-! ## No dots -/

theorem TypeExpr.dotted_eq {type : TypeExpr} (h : type.Legible) :
    dotted type.occurrences = false := by
  cases type with
  | stray => exact h.elim
  | _ => rfl

theorem Decl.dotted_eq {d : Decl} (h : d.LegibleVar ∨ d.LegibleFormal) :
    dotted d.occurrences = false := by
  match d, h with
  | .var type id, .inl h | .formal type id, .inr h =>
    have ht : type.Legible := h.1
    simp [Decl.occurrences, TypeExpr.dotted_eq ht]

theorem Decl.dotted_all {ds : List Decl} (h : ∀ d ∈ ds, d.LegibleVar ∨ d.LegibleFormal) :
    dotted (Decl.occurrencesAll ds) = false := by
  induction ds with
  | nil => rfl
  | cons d ds ih =>
    obtain ⟨hd, hds⟩ := List.forall_mem_cons.1 h
    simp [Decl.occurrencesAll, Decl.dotted_eq hd, ih hds]

theorem Decl.dotted_vars {ds : List Decl} (h : ∀ d ∈ ds, d.LegibleVar) :
    dotted (Decl.occurrencesAll ds) = false :=
  Decl.dotted_all fun d hd => .inl (h d hd)

theorem Decl.dotted_formals {ds : List Decl} (h : ∀ d ∈ ds, d.LegibleFormal) :
    dotted (Decl.occurrencesAll ds) = false :=
  Decl.dotted_all fun d hd => .inr (h d hd)

/-! ## Formals -/

/-- A formal, and what the word behind it does. -/
def ReadsFormal (before : List Decl) (returns : TypeExpr) (name : Ident) (d : Decl)
    (text : List Char) : Prop :=
  ∀ done rest, Parts rest → (Place.inFormals ⟨before, returns, name, done⟩).ReadsUnless false
    (text ++ rest) rest fun next => ∃ d' : Decl, d'.relabel unplace = d.relabel unplace ∧
      (∀ loc, next.step? ⟨.fixed .comma, ",", loc⟩ =
        some (.inFormals ⟨before, returns, name, d' :: done⟩)) ∧
      (∀ loc, next.step? ⟨.fixed .closeParen, ")", loc⟩ =
        some (.headed ⟨before, returns, name, d' :: done⟩))

theorem Decl.reads_formal {d : Decl} (h : d.LegibleFormal) :
    ∃ text, d.printFormal = .ok text ∧
      ∀ before returns name, ReadsFormal before returns name d text.toList := by
  match d, h with
  | .formal type id, ⟨ht, hid⟩ =>
    obtain ⟨text, hp, hreads⟩ := TypeExpr.reads ht hid
    refine ⟨text ++ " " ++ id.name, by simp only [Decl.printFormal, hp]; rfl,
      fun before returns name done rest hr => ?_⟩
    have htext : (text ++ " " ++ id.name).toList ++ rest =
        text.toList ++ ' ' :: (id.name.toList ++ rest) := by simp
    rw [htext]
    refine Place.Reads.mono (hreads _ _ (startsType_inFormals _) rest hr) ?_
    intro next hnext
    obtain ⟨type', id', htype, hlike, rfl⟩ := hnext
    exact ⟨.formal type' id', by simp [Decl.relabel, htype, hlike], fun loc => rfl, fun loc => rfl⟩

/-- What the formals of a function are printed as, up to the parenthesis behind them. -/
def ReadsFormals (ds : List Decl) (texts : List String) : Prop :=
  ∀ before returns name rest, (Place.inFormals ⟨before, returns, name, []⟩).Reads
    ((", ".intercalate texts).toList ++ ')' :: rest) rest fun next =>
      ∃ ds', Decl.relabelAll unplace ds' = Decl.relabelAll unplace ds ∧
        next = .headed ⟨before, returns, name, ds'.reverse⟩

theorem readsFormals {ds : List Decl} {texts : List String} (h : ∀ before returns name,
    List.Forall₂ (fun d text => ReadsFormal before returns name d text.toList) ds texts) :
    ReadsFormals ds texts := by
  intro before returns name rest
  have hnone : (ds.any fun _ => false) = false := by simp
  have hreads := Place.readsUnless_commas (fun done => .inFormals ⟨before, returns, name, done⟩)
    (fun done => .headed ⟨before, returns, name, done⟩) (h before returns name) (fun _ => rfl)
    [] (fun _ => rfl) rest
  rw [hnone] at hreads
  refine Place.Reads.mono hreads ?_
  intro next hnext
  obtain ⟨ds', hlikes, rfl⟩ := hnext
  exact ⟨ds', by simpa [Decl.relabelAll_eq_map] using hlikes, by simp⟩

theorem Decl.reads_formals {ds : List Decl} (h : ∀ d ∈ ds, d.LegibleFormal) :
    ∃ texts, ds.mapM Decl.printFormal = .ok texts ∧ ReadsFormals ds texts := by
  have hall : ∃ texts, ds.mapM Decl.printFormal = .ok texts ∧ ∀ before returns name,
      List.Forall₂ (fun d text => ReadsFormal before returns name d text.toList) ds texts := by
    induction ds with
    | nil => exact ⟨[], rfl, fun _ _ _ => .nil⟩
    | cons d ds ih =>
      obtain ⟨hd, hds⟩ := List.forall_mem_cons.1 h
      obtain ⟨text, hp, hreads⟩ := Decl.reads_formal hd
      obtain ⟨texts, hps, hall⟩ := ih hds
      refine ⟨text :: texts, ?_, fun _ _ _ => .cons (hreads _ _ _) (hall _ _ _)⟩
      rw [List.mapM_cons, hp, hps]
      rfl
  obtain ⟨texts, hps, hall⟩ := hall
  exact ⟨texts, hps, readsFormals hall⟩

end Moo
