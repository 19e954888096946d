import Mathlib.Data.List.Forall2
import Moo.Proofs.Names.Frame
import Moo.Proofs.Names.Walk

/-!
# Like symbols, and actions in lockstep

Two analyses can be compared step by step where they look names up in tables
that have the same names, with symbols that are alike. What one does, the
other does too, and they come out with tables of this sort again.

* `Likeness`: which symbols are alike. Their origins may differ, and what the
  members of a struct type are may be left open; then nothing is said of the
  reports either.
* `Walk.Lockstep`: two actions that take like states to like states, by one
  rule for each way to put actions together.
* `Walk.look_lockstep`: actions that look at the table; the others of this kind
  are derived from it.
* `Walk.bind_lockstep`: actions that change the table.
-/
namespace Moo

/-! ## Like symbols -/

/-- What the symbols of two analyses have in common. -/
structure Likeness where
  /-- The declarations that correspond. -/
  origins : Origin → Origin → Prop
  child : ∀ {a b}, origins a b → ∀ part index, origins (a.child part index) (b.child part index)
  /-- What the second tree has in the place of the symbols that are on the first one. -/
  labels : Option Symbol → Option Symbol
  /-- Whether the members of struct types are alike too. -/
  inside : Prop

/-- Corresponding declarations are the same, and so are the symbols that were there before. -/
structure Likeness.Exact (like : Likeness) : Prop where
  origins : ∀ a b, like.origins a b → a = b
  labels : ∀ symbol, like.labels symbol = symbol

/-- From the first tree to the second. -/
def Likeness.relabel (like : Likeness) : Relabel := ⟨id, like.labels⟩

/-- Symbols of the same kind and type, for declarations that correspond. -/
inductive Symbol.Like (like : Likeness) : Symbol → Symbol → Prop
  | value {a b : Origin} (origin : like.origins a b) (type : String) :
      Like like (.value a type) (.value b type)
  | function {a b : Origin} (origin : like.origins a b) (returns : String) (params : List String) :
      Like like (.function a returns params) (.function b returns params)
  | structType {d e : StructType} (origin : like.origins d.origin e.origin) (name : d.name = e.name)
      (names : like.inside → d.members.map Prod.fst = e.members.map Prod.fst)
      (members : like.inside →
        List.Forall₂ (Like like) (d.members.map Prod.snd) (e.members.map Prod.snd)) :
      Like like (.structType d) (.structType e)
  | structValue {a b : Origin} {d e : StructType} (origin : like.origins a b) (type : String)
      (definition : Like like (.structType d) (.structType e)) :
      Like like (.structValue a type d) (.structValue b type e)

/-- Scopes with the same names in the same order, and like symbols for them. -/
structure Scope.Like (like : Likeness) (a b : Scope) : Prop where
  names : a.map Prod.fst = b.map Prod.fst
  symbols : List.Forall₂ (Symbol.Like like) (a.map Prod.snd) (b.map Prod.snd)

structure WalkState.Like (like : Likeness) (a b : WalkState) : Prop where
  scopes : List.Forall₂ (Scope.Like like) a.table.scopes b.table.scopes
  fault : a.fault = b.fault
  errors : like.inside → reported a.events = reported b.events

variable {like : Likeness}

theorem Symbol.Like.origin {s t : Symbol} (h : s.Like like t) : like.origins s.origin t.origin := by
  cases h with
  | value origin | function origin | structType origin | structValue origin => exact origin

theorem Symbol.Like.name {d e : StructType}
    (h : Symbol.Like like (.structType d) (.structType e)) : d.name = e.name := by
  cases h with
  | structType _ name => exact name

theorem reported_cons_congr {e f : Event} {es fs : List Event} (h : reported [e] = reported [f])
    (h' : reported es = reported fs) : reported (e :: es) = reported (f :: fs) := by
  rw [reported_cons e es, reported_cons f fs, h, h']

theorem Scope.like_nil : Scope.Like like [] [] :=
  ⟨rfl, .nil⟩

theorem Scope.Like.find? {a b : Scope} (h : a.Like like b) (name : String) :
    Option.Rel (Symbol.Like like) (a.find? name) (b.find? name) := by
  obtain ⟨hnames, hsymbols⟩ := h
  induction a generalizing b with
  | nil =>
    obtain rfl : b = [] := by simpa using hnames.symm
    exact .none
  | cons entry a ih =>
    obtain ⟨own, s⟩ := entry
    cases b with
    | nil => simp at hnames
    | cons entry b =>
      obtain ⟨own', t⟩ := entry
      simp only [List.map_cons, List.cons.injEq, List.forall₂_cons] at hnames hsymbols
      obtain ⟨rfl, hnames⟩ := hnames
      simp only [Scope.find?, List.lookup_cons]
      split
      · exact .some hsymbols.1
      · exact ih hnames hsymbols.2

theorem Scope.Like.snoc {a b : Scope} (h : a.Like like b) (name : String) {s t : Symbol}
    (hs : s.Like like t) : Scope.Like like (a ++ [(name, s)]) (b ++ [(name, t)]) where
  names := by simp [h.names]
  symbols := by
    rw [List.map_append, List.map_append]
    exact List.rel_append h.symbols (.cons hs .nil)

theorem lookup_like {a b : Table} (h : List.Forall₂ (Scope.Like like) a.scopes b.scopes)
    (name : String) : Option.Rel (Symbol.Like like) (a.lookup name) (b.lookup name) := by
  obtain ⟨as⟩ := a
  obtain ⟨bs⟩ := b
  change List.Forall₂ (Scope.Like like) as bs at h
  simp only [Table.lookup]
  induction h with
  | nil => exact .none
  | @cons first second _ _ hscope _ ih =>
    have hfind := hscope.find? name
    simp only [List.findSome?_cons]
    generalize first.find? name = s at hfind
    generalize second.find? name = t at hfind
    cases hfind with
    | some hs => exact .some hs
    | none => exact ih

/-- Identifiers of the same name in the same place, for the same declaration if the likeness is
exact. -/
structure Ident.Like (like : Likeness) (a b : Ident) : Prop where
  name : a.name = b.name
  loc : a.loc = b.loc
  decl : like.Exact → a.symbol.map Symbol.origin = b.symbol.map Symbol.origin

theorem Ident.like_relabel (id : Ident) : id.Like like (id.relabel like.relabel) :=
  ⟨rfl, rfl, fun hexact =>
    congrArg (Option.map Symbol.origin) (hexact.labels id.symbol).symm⟩

theorem Ident.Like.withSymbol {a b : Ident} (h : a.Like like b) {s t : Option Symbol}
    (hs : Option.Rel (Symbol.Like like) s t) :
    Ident.Like like { a with symbol := s } { b with symbol := t } := by
  refine ⟨h.name, h.loc, fun hexact => ?_⟩
  cases hs with
  | none => rfl
  | some hst => exact congrArg some (hexact.origins _ _ hst.origin)

/-- Remarks that give up for the same reason, or not at all, and say the same if that matters. -/
structure Remark.Like (like : Likeness) (r s : Remark) : Prop where
  fault : r.fault? = s.fault?
  errors : like.inside → r.errors? = s.errors?

theorem Remark.like_refl (remark : Remark) : Remark.Like like remark remark :=
  ⟨rfl, fun _ => rfl⟩

theorem Remark.like_misuse {id id' : Ident} (misuse : Misuse)
    (h : like.inside → id.loc = id'.loc) :
    Remark.Like like (.misuse id misuse) (.misuse id' misuse) :=
  ⟨rfl, fun hin => by simp only [errors?, Diagnostic.about, h hin]⟩

/-- The symbols on a thing do not matter to what is said of it. -/
theorem Stray.remark_like (thing : Stray) (misuse : Misuse) :
    Remark.Like like (thing.remark misuse) ((thing.relabel like.relabel).remark misuse) := by
  have hloc : (thing.relabel like.relabel).loc = thing.loc :=
    (thing.loc_relabel like.relabel).trans (id_map thing.loc)
  rw [Stray.remark, Stray.remark, hloc, Stray.kind_relabel]
  exact Remark.like_refl _

/-- What is entered in like scopes. -/
theorem Scope.Like.enter {a b : Scope} (h : a.Like like b) {id id' : Ident}
    (hid : id.Like like id') {symbol symbol' : Option Symbol}
    (hs : Option.Rel (Symbol.Like like) symbol symbol') :
    Remark.Like like (a.enter id symbol).2 (b.enter id' symbol').2 ∧
      (a.enter id symbol).1.1.Like like (b.enter id' symbol').1.1 ∧
      (a.enter id symbol).1.2.Like like (b.enter id' symbol').1.2 := by
  have hfind := h.find? id.name
  cases hs with
  | none =>
    rw [hid.name] at hfind
    refine ⟨Remark.like_refl _, hid.withSymbol ?_, h⟩
    rwa [hid.name]
  | @some s t hst =>
    cases hf : a.find? id.name with
    | none =>
      cases hf' : b.find? id.name with
      | some => rw [hf, hf'] at hfind; cases hfind
      | none =>
        rw [enter_new hf, enter_new (hid.name ▸ hf')]
        exact ⟨Remark.like_refl _, hid.withSymbol (.some hst), hid.name ▸ h.snoc id.name hst⟩
    | some old =>
      cases hf' : b.find? id.name with
      | none => rw [hf, hf'] at hfind; cases hfind
      | some old' =>
        rw [enter_old hf, enter_old (hid.name ▸ hf')]
        rw [hf, hf'] at hfind
        exact ⟨Remark.like_misuse .redeclared fun _ => hid.loc, hid.withSymbol hfind, h⟩

/-! ## Actions -/

namespace Walk

variable {α β γ δ : Type} {mid : α → β → Prop} {post : γ → δ → Prop}

/-- From like states the two actions go to like states, and `post` holds of their results. -/
def Lockstep (like : Likeness) (first : Walk α) (second : Walk β) (post : α → β → Prop) : Prop :=
  ∀ a b, a.Like like b → (first a).2.Like like (second b).2 ∧ post (first a).1 (second b).1

namespace Lockstep

variable {first : Walk α} {second : Walk β}

theorem pure {c : γ} {d : δ} (h : post c d) :
    Lockstep like (Pure.pure c : Walk γ) (Pure.pure d) post :=
  fun _ _ hab => ⟨hab, h⟩

theorem bind {next : α → Walk γ} {next' : β → Walk δ} (h : Lockstep like first second mid)
    (hn : ∀ x y, mid x y → Lockstep like (next x) (next' y) post) :
    Lockstep like (first >>= next) (second >>= next') post :=
  fun a b hab => hn _ _ (h a b hab).2 _ _ (h a b hab).1

/-- The last actions before a result. -/
theorem last {f : α → γ} {g : β → δ} (h : Lockstep like first second mid)
    (hp : ∀ x y, mid x y → post (f x) (g y)) :
    Lockstep like (do let x ← first; Pure.pure (f x)) (do let y ← second; Pure.pure (g y)) post :=
  h.bind fun x y hxy => .pure (hp x y hxy)

/-- Actions whose results do not matter. -/
theorem before {c : γ} {d : δ} (h : Lockstep like first second fun _ _ => True) (hp : post c d) :
    Lockstep like (do let _ ← first; Pure.pure c) (do let _ ← second; Pure.pure d) post :=
  h.last fun _ _ _ => hp

theorem mono {post : α → β → Prop} (h : Lockstep like first second mid)
    (hp : ∀ x y, mid x y → post x y) : Lockstep like first second post :=
  fun a b hab => ⟨(h a b hab).1, hp _ _ (h a b hab).2⟩

/-- What is known of the results of the actions. -/
theorem yields {known : α → Prop} {known' : β → Prop} (h : Lockstep like first second mid)
    (hf : Yields first known) (hs : Yields second known') :
    Lockstep like first second fun x y => (known x ∧ known' y) ∧ mid x y :=
  fun a b hab => ⟨(h a b hab).1, ⟨hf.result a, hs.result b⟩, (h a b hab).2⟩

theorem unlessFaulted {kept : α} {kept' : β} (hk : mid kept kept')
    (h : Lockstep like first second mid) :
    Lockstep like (unlessFaulted kept first) (unlessFaulted kept' second) mid := by
  intro a b hab
  unfold Walk.unlessFaulted
  rw [← hab.fault]
  split
  · exact ⟨hab, hk⟩
  · exact h a b hab

theorem inScope (h : Lockstep like first second mid) :
    Lockstep like (inScope first) (inScope second) mid := by
  intro a b hab
  unfold Walk.inScope
  rw [← hab.fault]
  split
  · exact h a b hab
  · have hopen : (openScope a).2.Like like (openScope b).2 := by
      exact ⟨.cons Scope.like_nil hab.scopes, hab.fault,
        fun hin => reported_cons_congr rfl (hab.errors hin)⟩
    obtain ⟨hinner, hmid⟩ := h _ _ hopen
    refine ⟨?_, hmid⟩
    show (closeScope (first (openScope a).2).2).2.Like like
      (closeScope (second (openScope b).2).2).2
    generalize (first (openScope a).2).2 = c at hinner
    generalize (second (openScope b).2).2 = d at hinner
    obtain ⟨⟨cs⟩, ce, cf⟩ := c
    obtain ⟨⟨ds⟩, de, df⟩ := d
    obtain ⟨hscopes, hfault, herrors⟩ := hinner
    change List.Forall₂ (Scope.Like like) cs ds at hscopes
    cases hscopes with
    | nil => exact ⟨.nil, hfault, herrors⟩
    | cons _ hscopes =>
      exact ⟨hscopes, hfault, fun hin => reported_cons_congr rfl (herrors hin)⟩

end Lockstep

theorem note_lockstep {e f : Event} (h : like.inside → reported [e] = reported [f]) :
    Lockstep like (note e) (note f) fun _ _ => True :=
  .unlessFaulted trivial fun _ _ hab => ⟨⟨hab.scopes, hab.fault, fun hin =>
    reported_cons_congr (h hin) (hab.errors hin)⟩, trivial⟩

theorem report_lockstep {id id' : Ident} (misuse : Misuse)
    (h : like.inside → id.loc = id'.loc) :
    Lockstep like (report id misuse) (report id' misuse) fun _ _ => True :=
  note_lockstep fun hin => by rw [Diagnostic.about, Diagnostic.about, h hin]

theorem fail_lockstep {fault fault' : Fault} (h : fault = fault') :
    Lockstep like (fail fault) (fail fault') fun _ _ => True :=
  .unlessFaulted trivial fun _ _ hab => ⟨⟨hab.scopes, congrArg some h, hab.errors⟩, trivial⟩

theorem remark_lockstep {r s : Remark} (h : r.Like like s) :
    Lockstep like (remark r) (remark s) fun _ _ => True := by
  intro a b hab
  refine ⟨?_, trivial⟩
  cases hf : a.fault with
  | some fault =>
    rw [remark_faulted r (by simp [hf]), remark_faulted s (by simp [← hab.fault, hf])]
    exact hab
  | none =>
    obtain ⟨htable, hfault, hreported⟩ := remark_effect r hf
    obtain ⟨htable', hfault', hreported'⟩ := remark_effect s (hab.fault ▸ hf)
    refine ⟨?_, ?_, fun hin => ?_⟩
    · rw [htable, htable']
      exact hab.scopes
    · rw [hfault, hfault', h.fault]
    · rw [hreported, hreported', hab.errors hin, h.errors hin]

/-- Actions that look at like tables. -/
theorem look_lockstep {kept : α} {kept' : β} {answer : Table → α × Remark}
    {answer' : Table → β × Remark} (hk : mid kept kept')
    (h : ∀ a b : Table, List.Forall₂ (Scope.Like like) a.scopes b.scopes →
      (answer a).2.Like like (answer' b).2 ∧ mid (answer a).1 (answer' b).1) :
    Lockstep like (look kept answer) (look kept' answer') mid := by
  refine .unlessFaulted hk fun a b hab => ?_
  obtain ⟨hremark, hmid⟩ := h a.table b.table hab.scopes
  exact (remark_lockstep hremark).before hmid a b hab

theorem resolve_lockstep {id id' : Ident} (h : id.Like like id') :
    Lockstep like (resolve id) (resolve id') fun r s =>
      r.1.Like like s.1 ∧ Option.Rel (Symbol.Like like) r.2 s.2 := by
  refine look_lockstep ⟨h, .none⟩ fun a b hab => ?_
  have hlook := lookup_like hab id.name
  generalize a.lookup id.name = s at hlook
  rw [h.name] at hlook
  generalize b.lookup id'.name = t at hlook
  cases hlook with
  | none => exact ⟨Remark.like_misuse .undeclared fun _ => h.loc, h.withSymbol .none, .none⟩
  | some hst => exact ⟨Remark.like_refl _, h.withSymbol (.some hst), .some hst⟩

theorem resolveStray_lockstep (thing : Stray) {given given' : Option Symbol} :
    Lockstep like (resolveStray thing given) (resolveStray (thing.relabel like.relabel) given')
      fun _ _ => True := by
  refine look_lockstep trivial fun a b hab => ⟨?_, trivial⟩
  rw [Stray.name_relabel]
  cases hname : thing.name with
  | error fault => exact Remark.like_refl _
  | ok name =>
    have hlook := lookup_like hab name
    dsimp only
    generalize a.lookup name = s at hlook
    generalize b.lookup name = t at hlook
    cases hlook with
    | none => exact thing.remark_like _
    | some => exact Remark.like_refl _

theorem resolveTag_lockstep {tag tag' : Ident} (h : tag.Like like tag') :
    Lockstep like (resolveTag tag) (resolveTag tag') fun r s => r.1.Like like s.1 ∧
      Option.Rel (fun d e => Symbol.Like like (.structType d) (.structType e)) r.2 s.2 := by
  have hno : Remark.Like like (.misuse tag .unknownStruct) (.misuse tag' .unknownStruct) :=
    Remark.like_misuse .unknownStruct fun _ => h.loc
  refine look_lockstep ⟨h, .none⟩ fun a b hab => ?_
  have hlook := lookup_like hab tag.name
  generalize a.lookup tag.name = s at hlook
  rw [h.name] at hlook
  generalize b.lookup tag'.name = t at hlook
  cases hlook with
  | none => exact ⟨hno, h, .none⟩
  | some hst =>
    cases hst with
    | structType origin name names members =>
      have hst := Symbol.Like.structType origin name names members
      exact ⟨Remark.like_refl _, h.withSymbol (.some hst), .some hst⟩
    | _ => exact ⟨hno, h, .none⟩

theorem bindMember_lockstep {members members' : Scope} (hm : members.Like like members')
    {id id' : Ident} (hid : id.Like like id') {symbol symbol' : Option Symbol}
    (hs : Option.Rel (Symbol.Like like) symbol symbol') :
    Lockstep like (bindMember members id symbol) (bindMember members' id' symbol') fun r s =>
      r.1.Like like s.1 ∧ r.2.Like like s.2 :=
  look_lockstep ⟨hid, hm⟩ fun _ _ _ => hm.enter hid hs

theorem bind_lockstep {id id' : Ident} (hid : id.Like like id') {symbol symbol' : Option Symbol}
    (hs : Option.Rel (Symbol.Like like) symbol symbol') :
    Lockstep like (bind id symbol) (bind id' symbol') (Ident.Like like) := by
  refine .unlessFaulted hid fun a b hab => ?_
  obtain ⟨⟨as⟩, events, fault⟩ := a
  obtain ⟨⟨bs⟩, events', fault'⟩ := b
  have hscopes : List.Forall₂ (Scope.Like like) as bs := hab.scopes
  cases hscopes with
  | nil =>
    cases hs with
    | none =>
      have hunset : Lockstep like (pure { id with symbol := none })
          (pure { id' with symbol := none }) (Ident.Like like) := .pure (hid.withSymbol .none)
      exact hunset _ _ hab
    | some hst =>
      have hfail : Lockstep like (do fail (.table (.nowhereToDeclare id.name)); pure id)
          (do fail (.table (.nowhereToDeclare id'.name)); pure id') (Ident.Like like) :=
        (fail_lockstep (by rw [hid.name])).before hid
      exact hfail _ _ hab
  | @cons scope scope' scopes scopes' hscope hscopes =>
    obtain ⟨hremark, hident, hafter⟩ := hscope.enter hid hs
    have henter : Lockstep like
        (do remark (scope.enter id symbol).2
            modify fun state => { state with table := ⟨(scope.enter id symbol).1.2 :: scopes⟩ }
            pure (scope.enter id symbol).1.1)
        (do remark (scope'.enter id' symbol').2
            modify fun state => { state with table := ⟨(scope'.enter id' symbol').1.2 :: scopes'⟩ }
            pure (scope'.enter id' symbol').1.1) (Ident.Like like) :=
      (remark_lockstep hremark).bind fun _ _ _ a b hab =>
        ⟨⟨.cons hafter hscopes, hab.fault, hab.errors⟩, hident⟩
    exact henter _ _ hab

end Walk

end Moo
