import Moo.Proofs.Names.Frame
import Moo.Proofs.Names.Walk
import Moo.Proofs.Tree.Rename

/-!
# A second run on what the first one came to

Analysis can be run on a tree that it has been run on before, at another time
and under other names. Two runs are compared here, of which the second is
given the result of the first: its names exchanged, and its symbols kept or
taken away.

* `Translation`: how the symbols of the first run are read in the second one.
  Names and origins are exchanged; of the types in the signature of a function
  a part may be left open, since they are no names of their own.
* `Retracing`: a translation, and what becomes of the symbols on the tree. It
  has to tell names apart that were apart.
* `Walk.Retraces`: what the second run does to a state that follows the state
  of the first. There is one lemma for each action that looks at the table or
  changes it.

The second run is a function of the result of the first one, since a node that
the first run left without a symbol is not told by the tree that it was given.
-/
namespace Moo

/-! ## Symbols in other words -/

structure Translation where
  name : String → String
  origin : Origin → Origin
  /-- What is kept of the types in a signature. -/
  shown : String → String

mutual

def Symbol.translate (t : Translation) : Symbol → Symbol
  | .value origin type => .value (t.origin origin) type
  | .function origin returns params =>
    .function (t.origin origin) (t.shown returns) (params.map t.shown)
  | .structType definition => .structType (definition.translate t)
  | .structValue origin type definition =>
    .structValue (t.origin origin) (t.name type) (definition.translate t)

def StructType.translate (t : Translation) : StructType → StructType
  | .mk origin name members => .mk (t.origin origin) (t.name name) (Scope.translate t members)

def Scope.translate (t : Translation) : List (String × Symbol) → List (String × Symbol)
  | [] => []
  | (name, symbol) :: rest => (t.name name, symbol.translate t) :: Scope.translate t rest

end

def Table.translate (t : Translation) (table : Table) : Table :=
  ⟨table.scopes.map (Scope.translate t)⟩

/-- Translates the symbols on a tree. -/
def Translation.relabel (t : Translation) : Relabel :=
  ⟨id, Option.map (Symbol.translate t)⟩

/-- Whatever is reached from the one origin comes to what is reached from the other. -/
def Translation.Moves (t : Translation) (a b : Origin) : Prop :=
  ∀ depth steps, t.origin ⟨a.depth + depth, steps ++ a.steps⟩ = ⟨b.depth + depth, steps ++ b.steps⟩

namespace Translation

variable {t : Translation} {a b : Origin}

theorem Moves.here (h : t.Moves a b) : t.origin a = b :=
  h 0 []

theorem Moves.child (h : t.Moves a b) (part : Part) (index : Nat) :
    t.Moves (a.child part index) (b.child part index) := by
  intro depth steps
  have hstep := h (1 + depth) (steps ++ [(part, index)])
  simpa [Origin.child, Nat.add_assoc] using hstep

end Translation

section Translate

variable (t : Translation)

@[simp]
theorem StructType.members_translate (definition : StructType) :
    (definition.translate t).members = Scope.translate t definition.members := by
  cases definition; rfl

@[simp]
theorem StructType.name_translate (definition : StructType) :
    (definition.translate t).name = t.name definition.name := by
  cases definition; rfl

@[simp]
theorem Symbol.origin_translate (symbol : Symbol) :
    (symbol.translate t).origin = t.origin symbol.origin := by
  cases symbol with
  | structType definition => cases definition; rfl
  | _ => rfl

theorem Scope.translate_append (a b : Scope) :
    Scope.translate t (a ++ b) = Scope.translate t a ++ Scope.translate t b := by
  induction a with
  | nil => rfl
  | cons entry a ih => simp only [List.cons_append, Scope.translate, ih]

variable {t}

theorem Scope.find?_translate (h : t.name.Injective) (scope : Scope) (name : String) :
    Scope.find? (Scope.translate t scope) (t.name name) =
      (scope.find? name).map (·.translate t) := by
  induction scope with
  | nil => rfl
  | cons entry rest ih =>
    obtain ⟨own, symbol⟩ := entry
    simp only [Scope.find?] at ih
    simp only [Scope.translate, Scope.find?, List.lookup_cons]
    by_cases hname : name = own
    · simp [hname]
    · have hne : (name == own) = false := by simpa using hname
      have htne : (t.name name == t.name own) = false := by simpa using fun heq => hname (h heq)
      simp only [hne, htne, ih]

theorem Table.lookup_translate (h : t.name.Injective) (table : Table) (name : String) :
    (table.translate t).lookup (t.name name) = (table.lookup name).map (·.translate t) := by
  obtain ⟨scopes⟩ := table
  simp only [Table.lookup, Table.translate]
  induction scopes with
  | nil => rfl
  | cons scope scopes ih =>
    simp only [List.map_cons, List.findSome?_cons, Scope.find?_translate h]
    cases scope.find? name with
    | none => exact ih
    | some symbol => rfl

end Translate

/-! ## The second run -/

structure Retracing extends Translation where
  /-- What the second run finds in the place of a symbol on the tree. -/
  label : Option Symbol → Option Symbol
  injective : name.Injective
  shown_name : ∀ type, shown (name type) = shown type
  label_none : label none = none

namespace Retracing

variable (t : Retracing)

/-- The symbols of the second run, as far as they are told. -/
def told : Translation := ⟨id, id, t.shown⟩

/-- The labels that the second run finds. -/
def input : Relabel := ⟨id, t.label⟩

/-- The labels of the first run, in the words of the second one. -/
def before : Relabel := t.toTranslation.relabel

/-- The labels of the second run, as far as they are told. -/
def after : Relabel := t.told.relabel

/-- Symbols that the two runs come to in the same place. -/
def Matches (s s' : Option Symbol) : Prop :=
  s'.map (·.translate t.told) = s.map (·.translate t.toTranslation)

/-- Scopes that the two runs come to in the same place. -/
def Scopes (scope scope' : Scope) : Prop :=
  Scope.translate t.told scope' = Scope.translate t.toTranslation scope

variable {t}

theorem Matches.eq_none {s' : Option Symbol} (h : t.Matches none s') : s' = none := by
  simpa [Matches] using h

theorem Matches.exists_some {s : Symbol} {s' : Option Symbol} (h : t.Matches (some s) s') :
    ∃ u, s' = some u ∧ u.translate t.told = s.translate t.toTranslation := by
  simpa [Matches] using h

theorem matches_some {s u : Symbol} (h : u.translate t.told = s.translate t.toTranslation) :
    t.Matches (some s) (some u) :=
  congrArg some h

theorem Scopes.find? {scope scope' : Scope} (h : t.Scopes scope scope') (name : String) :
    t.Matches (scope.find? name) (scope'.find? (t.name name)) := by
  have htold := Scope.find?_translate (t := t.told) Function.injective_id scope' (t.name name)
  rw [Matches, ← htold, ← Scope.find?_translate t.injective, ← h]
  rfl

theorem Scopes.snoc {scope scope' : Scope} (h : t.Scopes scope scope') (name : String)
    {s s' : Symbol} (hs : s'.translate t.told = s.translate t.toTranslation) :
    t.Scopes (scope ++ [(name, s)]) (scope' ++ [(t.name name, s')]) := by
  rw [Scopes, Scope.translate_append, Scope.translate_append, h]
  simp only [Scope.translate, hs]
  rfl

end Retracing

/-- The state of the second run where the first one is in a state. -/
structure WalkState.Follows (t : Retracing) (a b : WalkState) : Prop where
  table : b.table.translate t.told = a.table.translate t.toTranslation
  fault : b.fault.isSome = a.fault.isSome
  errors : reported b.events = reported a.events

variable {t : Retracing}

theorem WalkState.Follows.lookup {a b : WalkState} (h : a.Follows t b) (name : String) :
    t.Matches (a.table.lookup name) (b.table.lookup (t.name name)) := by
  have htold := Table.lookup_translate (t := t.told) Function.injective_id b.table (t.name name)
  rw [Retracing.Matches, ← htold, ← Table.lookup_translate t.injective, ← h.table]
  rfl

/-- The identifier that the second run is given in the place of a result of the first one. -/
def Ident.given (t : Retracing) (id : Ident) : Ident :=
  (id.relabel t.input).rename t.name

/-- The same, by the symbol that the first run left. -/
def Ident.anew (t : Retracing) (id : Ident) (symbol : Option Symbol) : Ident :=
  ⟨t.name id.name, id.loc, t.label symbol⟩

/-- What the two runs make of an identifier. -/
def Ident.Retraced (t : Retracing) (r s : Ident) : Prop :=
  s.relabel t.after = (r.relabel t.before).rename t.name

theorem Ident.retraced_set (id : Ident) {symbol symbol' : Option Symbol}
    (h : t.Matches symbol symbol') :
    Ident.Retraced t { id with symbol } ⟨t.name id.name, id.loc, symbol'⟩ := by
  simp only [Ident.Retraced, Ident.relabel, Ident.rename, Retracing.after, Retracing.before,
    Translation.relabel, id_eq]
  rw [h]

/-- An identifier without a symbol, which both runs leave alone. -/
theorem Ident.retraced_anew {id : Ident} (h : id.symbol = none) :
    Ident.Retraced t id (id.anew t id.symbol) := by
  simp only [Ident.Retraced, Ident.anew, Ident.relabel, Ident.rename, Retracing.after,
    Retracing.before, Translation.relabel, h, t.label_none, Option.map_none, id_eq]

/-- What is said of a thing in the place of an identifier depends on where it is alone. -/
theorem Stray.Renamed.errors_remark {f : String → String} {thing thing' : Stray}
    (h : Stray.Renamed f thing thing') (misuse : Misuse) :
    (thing'.remark misuse).errors? = (thing.remark misuse).errors? := by
  have herrors (thing : Stray) : (thing.remark misuse).errors? =
      thing.loc.toOption.map fun loc => [⟨loc.getD ⟨0, 0⟩, misuse⟩] := by
    unfold Stray.remark
    cases thing.loc <;> rfl
  rw [herrors, herrors, h.loc]

namespace Walk

variable {α β : Type} {post : α → β → Prop}

/-- Where the second run follows the first one it does so afterwards, and `post` holds of what they
come to. -/
def Retraces (t : Retracing) (first : Walk α) (second : α → Walk β) (post : α → β → Prop) : Prop :=
  ∀ a b, a.Follows t b → (first a).2.Follows t (second (first a).1 b).2 ∧
    post (first a).1 (second (first a).1 b).1

theorem note_follows {a b : WalkState} (h : a.Follows t b) {e f : Event}
    (he : reported [f] = reported [e]) : (note e a).2.Follows t (note f b).2 := by
  unfold note Walk.unlessFaulted
  rw [h.fault]
  split
  · exact h
  · refine ⟨h.table, h.fault, ?_⟩
    show reported (f :: b.events) = reported (e :: a.events)
    rw [reported_cons, reported_cons e, h.errors, he]

theorem note_retraces {e f : Event} (he : reported [f] = reported [e]) :
    Retraces t (note e) (fun _ => note f) fun _ _ => True :=
  fun _ _ hab => ⟨note_follows hab he, trivial⟩

theorem report_follows {a b : WalkState} (h : a.Follows t b) {id id' : Ident} (misuse : Misuse)
    (hloc : id'.loc = id.loc) : (report id misuse a).2.Follows t (report id' misuse b).2 :=
  note_follows h (by rw [Diagnostic.about, Diagnostic.about, hloc])

theorem fail_follows {a b : WalkState} (h : a.Follows t b) (fault fault' : Fault) :
    (fail fault a).2.Follows t (fail fault' b).2 := by
  unfold fail Walk.unlessFaulted
  rw [h.fault]
  split
  · exact h
  · exact ⟨h.table, rfl, h.errors⟩

/-- Remarks that report the same, or both give up, for whatever reason. -/
theorem remark_follows {a b : WalkState} (h : a.Follows t b) {r s : Remark}
    (hrs : s.errors? = r.errors?) : (remark r a).2.Follows t (remark s b).2 := by
  cases hf : a.fault with
  | some fault =>
    have hf' : b.fault.isSome := by rw [h.fault, hf, Option.isSome_some]
    rw [remark_faulted r (by rw [hf, Option.isSome_some]), remark_faulted s hf']
    exact h
  | none =>
    have hf' : b.fault = none := by simpa [hf] using h.fault
    obtain ⟨htable, hfault, hreported⟩ := remark_effect r hf
    obtain ⟨htable', hfault', hreported'⟩ := remark_effect s hf'
    refine ⟨?_, ?_, ?_⟩
    · rw [htable, htable', h.table]
    · rw [hfault, hfault', ← r.isNone_errors?, ← s.isNone_errors?, hrs]
    · rw [hreported, hreported', h.errors, hrs]

namespace Retraces

variable {first : Walk α} {second : α → Walk β}

/-- A result at once, which the second run has to find out. -/
theorem ofPure {x : α} {y : β} (hw : second x = Pure.pure y) (h : post x y) :
    Retraces t (Pure.pure x) second post := by
  intro a b hab
  show a.Follows t (second x b).2 ∧ post x (second x b).1
  rw [hw]
  exact ⟨hab, h⟩

/-- A report in front of a result. -/
theorem ofReport {id id' : Ident} {misuse : Misuse} {x : α} {y : β}
    (hw : second x = do report id' misuse; Pure.pure y) (hloc : id'.loc = id.loc)
    (h : post x y) : Retraces t (do report id misuse; Pure.pure x) second post := by
  intro a b hab
  show (report id misuse a).2.Follows t (second x b).2 ∧ post x (second x b).1
  rw [hw]
  exact ⟨report_follows hab misuse hloc, h⟩

/-- A fault in front of a result. The reason may be another one. -/
theorem ofFault {fault fault' : Fault} {x : α} {y : β}
    (hw : second x = do fail fault'; Pure.pure y) (h : post x y) :
    Retraces t (do fail fault; Pure.pure x) second post := by
  intro a b hab
  show (fail fault a).2.Follows t (second x b).2 ∧ post x (second x b).1
  rw [hw]
  exact ⟨fail_follows hab fault fault', h⟩

/-- One action in front of a result, which the second run can take apart. -/
theorem last {γ δ : Type} {whole : γ → Walk δ} {f : α → γ} {g : β → δ} {post' : γ → δ → Prop}
    (h : Retraces t first second post) (hp : ∀ x y, post x y → post' (f x) (g y))
    (hw : ∀ x, whole (f x) = do let y ← second x; Pure.pure (g y)) :
    Retraces t (do let x ← first; Pure.pure (f x)) whole post' := by
  intro a b hab
  obtain ⟨hafter, hpost⟩ := h a b hab
  show (first a).2.Follows t (whole (f (first a).1) b).2 ∧
    post' (f (first a).1) (whole (f (first a).1) b).1
  rw [hw]
  exact ⟨hafter, hp _ _ hpost⟩

/-- Two actions in front of a result. The second run starts with what came last in the first one in
view, of which something is known. -/
theorem tied {γ δ ε ζ : Type} {next : α → Walk γ} {second : α → γ → Walk β}
    {next' : β → γ → Walk δ} {whole : ε → Walk ζ} {f : α → γ → ε} {g : β → δ → ζ}
    {good : γ → Prop} {mid : γ → δ → Prop} {post' : ε → ζ → Prop}
    (hgood : ∀ x, Yields (next x) good)
    (h : ∀ u, good u → Retraces t first (fun x => second x u) post)
    (hn : ∀ x y, post x y → Retraces t (next x) (next' y) mid)
    (hp : ∀ x y u v, post x y → mid u v → post' (f x u) (g y v))
    (hw : ∀ x u, whole (f x u) = do
      let y ← second x u
      let v ← next' y u
      Pure.pure (g y v)) :
    Retraces t (do let x ← first; let u ← next x; Pure.pure (f x u)) whole post' := by
  intro a b hab
  obtain ⟨hafter, hpost⟩ := h _ ((hgood (first a).1).result (first a).2) a b hab
  obtain ⟨hlast, hmid⟩ := hn _ _ hpost _ _ hafter
  show (next (first a).1 (first a).2).2.Follows t
      (whole (f (first a).1 (next (first a).1 (first a).2).1) b).2 ∧
    post' (f (first a).1 (next (first a).1 (first a).2).1)
      (whole (f (first a).1 (next (first a).1 (first a).2).1) b).1
  rw [hw]
  exact ⟨hlast, hp _ _ _ _ hpost hmid⟩

/-- Two actions in front of a result, which the second run can take apart. -/
theorem both {γ δ ε ζ : Type} {next : α → Walk γ} {next' : β → γ → Walk δ} {whole : ε → Walk ζ}
    {f : α → γ → ε} {g : β → δ → ζ} {mid : γ → δ → Prop} {post' : ε → ζ → Prop}
    (h : Retraces t first second post)
    (hn : ∀ x y, post x y → Retraces t (next x) (next' y) mid)
    (hp : ∀ x y u v, post x y → mid u v → post' (f x u) (g y v))
    (hw : ∀ x u, whole (f x u) = do
      let y ← second x
      let v ← next' y u
      Pure.pure (g y v)) :
    Retraces t (do let x ← first; let u ← next x; Pure.pure (f x u)) whole post' :=
  have hany (x : α) : Yields (next x) fun _ => True := .of fun _ => trivial
  .tied hany (fun _ _ => h) hn hp hw

theorem unlessFaulted {kept : α} {kept' : α → β} (hk : post kept (kept' kept))
    (h : Retraces t first second post) :
    Retraces t (unlessFaulted kept first) (fun r => unlessFaulted (kept' r) (second r)) post := by
  intro a b hab
  unfold Walk.unlessFaulted
  dsimp only
  rw [hab.fault]
  split
  · exact ⟨hab, hk⟩
  · exact h a b hab

theorem inScope (h : Retraces t first second post) :
    Retraces t (inScope first) (fun r => inScope (second r)) post := by
  intro a b hab
  unfold Walk.inScope
  dsimp only
  rw [hab.fault]
  split
  · exact h a b hab
  · have hopen : (openScope a).2.Follows t (openScope b).2 := by
      refine ⟨?_, hab.fault, ?_⟩
      · show Table.mk ([] :: b.table.scopes.map _) = Table.mk ([] :: a.table.scopes.map _)
        have htable := congrArg Table.scopes hab.table
        exact congrArg (fun scopes => Table.mk ([] :: scopes)) htable
      · show reported (_ :: b.events) = reported (_ :: a.events)
        rw [reported_cons, reported_cons _ a.events, hab.errors]
        rfl
    obtain ⟨hinner, hpost⟩ := h _ _ hopen
    refine ⟨?_, hpost⟩
    show (closeScope (first (openScope a).2).2).2.Follows t
      (closeScope (second (first (openScope a).2).1 (openScope b).2).2).2
    generalize (first (openScope a).2).2 = c at hinner
    generalize (second (first (openScope a).2).1 (openScope b).2).2 = d at hinner
    obtain ⟨⟨cs⟩, ce, cf⟩ := c
    obtain ⟨⟨ds⟩, de, df⟩ := d
    obtain ⟨htable, hfault, herrors⟩ := hinner
    have hscopes : ds.map (Scope.translate t.told) = cs.map (Scope.translate t.toTranslation) :=
      congrArg Table.scopes htable
    cases cs with
    | nil =>
      obtain rfl : ds = [] := by simpa using hscopes
      exact ⟨htable, hfault, herrors⟩
    | cons c cs =>
      cases ds with
      | nil => simp at hscopes
      | cons d ds =>
        refine ⟨congrArg Table.mk (List.cons.inj hscopes).2, hfault, ?_⟩
        show reported (_ :: de) = reported (_ :: ce)
        rw [reported_cons, reported_cons _ ce, herrors]
        rfl

/-- The identifier that the second run is given is the result of the first one in other words. -/
theorem given {id : Ident} {of : α → Ident} (next : α → Ident → Walk β)
    (h : Retraces t first (fun r => next r (id.anew t (of r).symbol)) post)
    (hsame : Yields first fun r => (of r).relabel .forget = id.relabel .forget) :
    Retraces t first (fun r => next r ((of r).given t)) post := by
  intro a b hab
  have hform : (of (first a).1).relabel .forget = id.relabel .forget :=
    hsame.result a
  have hname : (of (first a).1).name = id.name := by
    simpa [Ident.relabel] using congrArg Ident.name hform
  have hloc : (of (first a).1).loc = id.loc := by
    simpa [Ident.relabel, Relabel.forget] using congrArg Ident.loc hform
  have hid : (of (first a).1).given t = id.anew t (of (first a).1).symbol := by
    simp only [Ident.given, Ident.relabel, Ident.rename, Ident.anew, hname, hloc, Retracing.input,
      id_eq]
  dsimp only
  rw [hid]
  exact h a b hab

end Retraces

/-! ## Actions -/

/-- Actions that look at the table. -/
theorem look_retraces {kept : α} {kept' : α → β} {answer : Table → α × Remark}
    {answer' : α → Table → β × Remark} (hk : post kept (kept' kept))
    (h : ∀ a b : WalkState, a.Follows t b →
      (answer' (answer a.table).1 b.table).2.errors? = (answer a.table).2.errors? ∧
        post (answer a.table).1 (answer' (answer a.table).1 b.table).1) :
    Retraces t (look kept answer) (fun r => look (kept' r) (answer' r)) post :=
  .unlessFaulted hk fun a b hab => ⟨remark_follows hab (h a b hab).1, (h a b hab).2⟩

theorem resolve_retraces {id : Ident} (h : id.symbol = none) :
    Retraces t (resolve id) (fun r => resolve (r.1.given t)) fun r s =>
      r.1.Retraced t s.1 ∧ t.Matches r.2 s.2 := by
  refine .given (fun _ => resolve)
    (look_retraces ⟨Ident.retraced_anew h, rfl⟩ fun a b hab => ?_) (resolve_forget id)
  have hlook := hab.lookup id.name
  cases hs : a.table.lookup id.name with
  | none =>
    rw [hs] at hlook
    simp only [Ident.anew, hlook.eq_none]
    exact ⟨rfl, id.retraced_set rfl, rfl⟩
  | some s =>
    rw [hs] at hlook
    obtain ⟨u, hu, hsu⟩ := hlook.exists_some
    simp only [Ident.anew, hu, true_and]
    exact ⟨id.retraced_set (Retracing.matches_some hsu), Retracing.matches_some hsu⟩

theorem resolveStray_retraces {thing thing' : Stray} (h : Stray.Renamed t.name thing thing') :
    Retraces t (resolveStray thing none) (fun r => resolveStray thing' (t.label r)) t.Matches := by
  have hkept : t.Matches none (t.label none) := congrArg (Option.map _) t.label_none
  refine look_retraces hkept fun a b hab => ?_
  rcases h.names with ⟨fault, fault', hn, hn'⟩ | ⟨name, hn, hn'⟩ <;> simp only [hn, hn']
  · exact ⟨rfl, hkept⟩
  · have hlook := hab.lookup name
    cases hs : a.table.lookup name with
    | none =>
      rw [hs] at hlook
      simp only [hlook.eq_none]
      exact ⟨h.errors_remark .undeclared, hkept⟩
    | some s =>
      rw [hs] at hlook
      obtain ⟨u, hu, hsu⟩ := hlook.exists_some
      simp only [hu, true_and]
      exact Retracing.matches_some hsu

theorem resolveTag_retraces {tag : Ident} (h : tag.symbol = none) :
    Retraces t (resolveTag tag) (fun r => resolveTag (r.1.given t))
      fun r s => r.1.Retraced t s.1 ∧ t.Matches (r.2.map .structType) (s.2.map .structType) := by
  refine .given (fun _ => resolveTag)
    (look_retraces ⟨Ident.retraced_anew h, rfl⟩ fun a b hab => ?_) (resolveTag_forget tag)
  have hlook := hab.lookup tag.name
  cases hs : a.table.lookup tag.name with
  | none =>
    rw [hs] at hlook
    simp only [Ident.anew, hlook.eq_none]
    exact ⟨rfl, Ident.retraced_anew h, rfl⟩
  | some s =>
    rw [hs] at hlook
    obtain ⟨u, hu, hsu⟩ := hlook.exists_some
    have hmatch := Retracing.matches_some hsu
    -- a translation does not change what a symbol is
    cases s with
    | structType d =>
      cases u with
      | structType e =>
        simp only [Ident.anew, hu, true_and]
        exact ⟨tag.retraced_set hmatch, hmatch⟩
      | _ => simp [Symbol.translate] at hsu
    | _ =>
      cases u with
      | structType e => simp [Symbol.translate] at hsu
      | _ =>
        simp only [Ident.anew, hu]
        exact ⟨rfl, Ident.retraced_anew h, rfl⟩

/-- What is entered in scopes that are the same in other words. -/
theorem enter_retraces {scope scope' : Scope} (hscope : t.Scopes scope scope') (id : Ident)
    {symbol symbol' : Option Symbol} (hs : t.Matches symbol symbol') (label : Option Symbol) :
    let first := scope.enter id symbol
    let second := scope'.enter (id.anew t label) symbol'
    second.2.errors? = first.2.errors? ∧ first.1.1.Retraced t second.1.1 ∧
      t.Scopes first.1.2 second.1.2 := by
  have hfind := hscope.find? id.name
  cases symbol with
  | none =>
    obtain rfl := hs.eq_none
    exact ⟨rfl, id.retraced_set hfind, hscope⟩
  | some s =>
    obtain ⟨u, rfl, hsu⟩ := hs.exists_some
    cases hf : scope.find? id.name with
    | none =>
      rw [hf] at hfind
      rw [Scope.enter_new hf, Scope.enter_new hfind.eq_none]
      exact ⟨rfl, id.retraced_set (Retracing.matches_some hsu), hscope.snoc id.name hsu⟩
    | some old =>
      rw [hf] at hfind
      obtain ⟨old', hold, -⟩ := hfind.exists_some
      rw [Scope.enter_old hf, Scope.enter_old hold]
      exact ⟨rfl, id.retraced_set (hold ▸ hfind), hscope⟩

theorem bindMember_retraces {members members' : Scope} (hscope : t.Scopes members members')
    {id : Ident} (h : id.symbol = none) {symbol symbol' : Option Symbol}
    (hs : t.Matches symbol symbol') :
    Retraces t (bindMember members id symbol)
      (fun r => bindMember members' (r.1.given t) symbol')
      fun r s => r.1.Retraced t s.1 ∧ t.Scopes r.2 s.2 :=
  .given (fun _ id' => bindMember members' id' symbol')
    (look_retraces ⟨Ident.retraced_anew h, hscope⟩ fun _ _ _ => enter_retraces hscope id hs _)
    (bindMember_forget members id symbol)

theorem bind_anew {id : Ident} (h : id.symbol = none) {symbol symbol' : Option Symbol}
    (hs : t.Matches symbol symbol') :
    Retraces t (bind id symbol) (fun r => bind (id.anew t r.symbol) symbol')
      (Ident.Retraced t) := by
  refine .unlessFaulted (Ident.retraced_anew h) ?_
  intro a b hab
  obtain ⟨⟨as⟩, ae, af⟩ := a
  obtain ⟨⟨bs⟩, be, bf⟩ := b
  have hscopes : bs.map (Scope.translate t.told) = as.map (Scope.translate t.toTranslation) :=
    congrArg Table.scopes hab.table
  cases as with
  | nil =>
    obtain rfl : bs = [] := by simpa using hscopes
    cases symbol with
    | none =>
      obtain rfl := hs.eq_none
      exact ⟨hab, id.retraced_set rfl⟩
    | some s =>
      obtain ⟨u, rfl, -⟩ := hs.exists_some
      exact ⟨fail_follows hab _ _, Ident.retraced_anew h⟩
  | cons scope scopes =>
    cases bs with
    | nil => simp at hscopes
    | cons scope' scopes' =>
      obtain ⟨hscope, hothers⟩ := List.cons.inj hscopes
      obtain ⟨herrors, hid, hboth⟩ :=
        enter_retraces hscope id hs (scope.enter id symbol).1.1.symbol
      have hafter := remark_follows hab herrors
      refine ⟨⟨?_, hafter.fault, hafter.errors⟩, hid⟩
      exact congrArg Table.mk (List.cons_eq_cons.2 ⟨hboth, hothers⟩)

theorem bind_retraces {id : Ident} (h : id.symbol = none) {symbol symbol' : Option Symbol}
    (hs : t.Matches symbol symbol') :
    Retraces t (bind id symbol) (fun r => bind (r.given t) symbol') (Ident.Retraced t) :=
  .given (fun _ id' => bind id' symbol') (bind_anew h hs) (bind_forget id symbol)

/-- The tag of a struct type, after which the symbol is named. -/
theorem bindStruct_retraces {p q : Origin} (ho : t.Moves p q) {tag : Ident}
    (h : tag.symbol = none) {members members' : Scope} (hm : t.Scopes members members') :
    Retraces t (bind tag (some (.structType (.mk p tag.name members))))
      (fun r => bind (r.given t) (some (.structType (.mk q (r.given t).name members'))))
      (Ident.Retraced t) := by
  have hsymbol : t.Matches (some (.structType (.mk p tag.name members)))
      (some (.structType (.mk q (t.name tag.name) members'))) := by
    refine Retracing.matches_some ?_
    simp only [Symbol.translate, StructType.translate, ho.here]
    rw [hm]
    rfl
  exact .given (fun _ tag' => bind tag' (some (.structType (.mk q tag'.name members'))))
    (bind_anew h hsymbol) (bind_forget tag _)

end Walk

end Moo
