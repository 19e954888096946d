import Mathlib.Data.List.Chain
import Mathlib.Order.Nat
import Moo.Proofs.Names.Symbols
import Moo.Session

/-!
# Struct types of a session

Symbols stay when the table that they were made with is gone: they are on the
nodes of trees, and in the members of other struct types. A tag can be
declared anew while variables of the older struct type are still about, even
among the members of the newer one. What keeps struct types in order is that
each is made after all that it leads to, and never changes.

* `Ledger`: the struct type that each declaration of a session made.
* `Symbol.Built`: a symbol that leads only to struct types of the ledger, and
  each of these only to earlier ones.
* `Session.Run`: the sessions that there can be one after another.
* `symbols_sound`: what this comes to for the symbols within reach.
-/
namespace Moo

open Relation

/-- For each declaration at top level, counted since the first one, the struct type that it made. -/
abbrev Ledger := Nat → Option StructType

/-- What is in the first ledger is in the second. -/
def Ledger.Grows (a b : Ledger) : Prop :=
  ∀ index definition, a index = some definition → b index = some definition

/-- From a symbol to one of its parts: from a struct type to a member, from a variable to its
struct type. -/
def Symbol.Leads (a b : Symbol) : Prop :=
  b ∈ a.parts

/-- A symbol all of whose struct types were made by the first `bound` declarations, each one out of
symbols that were there before. -/
inductive Symbol.Built (ledger : Ledger) : Nat → Symbol → Prop
  | value (bound : Nat) (origin : Origin) (type : String) : Built ledger bound (.value origin type)
  | function (bound : Nat) (origin : Origin) (returns : String) (params : List String) :
      Built ledger bound (.function origin returns params)
  | structType {bound index : Nat} {definition : StructType} (before : index < bound)
      (known : ledger index = some definition) (origin : definition.origin = .top index)
      (distinct : (definition.members.map Prod.fst).Nodup)
      (members : ∀ name symbol, (name, symbol) ∈ definition.members → Built ledger index symbol) :
      Built ledger bound (.structType definition)
  | structValue {bound : Nat} {definition : StructType} (origin : Origin)
      (built : Built ledger bound (.structType definition)) :
      Built ledger bound (.structValue origin definition.name definition)

theorem Origin.top_injective {i j : Nat} (h : Origin.top i = Origin.top j) : i = j := by
  simpa [Origin.top] using h

namespace Symbol.Built

variable {ledger : Ledger} {bound : Nat} {symbol : Symbol}

theorem mono (h : symbol.Built ledger bound) {later : Nat} (hle : bound ≤ later) :
    symbol.Built ledger later := by
  induction h with
  | value => exact .value ..
  | function => exact .function ..
  | structType before known origin distinct members _ =>
    exact .structType (before.trans_le hle) known origin distinct members
  | structValue origin _ ih => exact .structValue origin (ih hle)

theorem grow (h : symbol.Built ledger bound) {later : Ledger} (hg : ledger.Grows later) :
    symbol.Built later bound := by
  induction h with
  | value => exact .value ..
  | function => exact .function ..
  | structType before known origin distinct _ ih =>
    exact .structType before (hg _ _ known) origin distinct ih
  | structValue origin _ ih => exact .structValue origin ih

theorem part (h : symbol.Built ledger bound) {part : Symbol} (hl : symbol.Leads part) :
    part.Built ledger bound := by
  cases h with
  | value | function => cases hl
  | structType before _ _ _ members =>
    obtain ⟨⟨name, member⟩, hm, rfl⟩ := List.mem_map.1 hl
    exact (members name member hm).mono before.le
  | structValue _ built =>
    obtain rfl := List.mem_singleton.1 hl
    exact built

theorem reach (h : symbol.Built ledger bound) {other : Symbol}
    (hr : ReflTransGen Symbol.Leads symbol other) : other.Built ledger bound := by
  induction hr with
  | refl => exact h
  | tail _ hl ih => exact ih.part hl

/-- A struct type is known by its place in the ledger. -/
theorem place {definition : StructType} (h : Built ledger bound (.structType definition)) :
    ∃ index < bound, ledger index = some definition ∧ definition.origin = .top index ∧
      (definition.members.map Prod.fst).Nodup ∧
      ∀ part, (Symbol.structType definition).Leads part → part.Built ledger index := by
  cases h with
  | structType before known origin distinct members =>
    refine ⟨_, before, known, origin, distinct, fun part hl => ?_⟩
    obtain ⟨⟨name, member⟩, hm, rfl⟩ := List.mem_map.1 hl
    exact members name member hm

/-- No way from a struct type leads back to it, since all that it leads to was made before it. -/
theorem no_return {definition other : StructType}
    (h : Built ledger bound (.structType definition))
    (hw : TransGen Symbol.Leads (.structType definition) (.structType other)) :
    other.origin ≠ definition.origin := by
  obtain ⟨index, -, -, horigin, -, hparts⟩ := h.place
  obtain ⟨part, hl, hrest⟩ := TransGen.head'_iff.1 hw
  obtain ⟨earlier, hearlier, -, hother, -⟩ := ((hparts part hl).reach hrest).place
  rw [hother, horigin]
  intro heq
  exact hearlier.ne (Origin.top_injective heq)

/-- Each step to a struct type goes back in the ledger, and only every other step does not. -/
theorem walk_length (h : symbol.Built ledger bound) {walk : List Symbol}
    (hw : (symbol :: walk).IsChain Symbol.Leads) : walk.length ≤ 2 * bound := by
  induction bound using Nat.strong_induction_on generalizing symbol walk with
  | _ bound ih =>
    have htype {definition : StructType} (hd : Built ledger bound (.structType definition))
        {walk : List Symbol} (hw : (Symbol.structType definition :: walk).IsChain Symbol.Leads) :
        walk.length + 1 ≤ 2 * bound := by
      obtain ⟨index, hindex, -, -, -, hparts⟩ := hd.place
      cases walk with
      | nil => simp only [List.length_nil]; omega
      | cons part walk =>
        obtain ⟨hl, hrest⟩ := List.isChain_cons_cons.1 hw
        have := ih index hindex (hparts part hl) hrest
        simp only [List.length_cons]
        omega
    cases walk with
    | nil => exact Nat.zero_le _
    | cons part walk =>
      obtain ⟨hl, hrest⟩ := List.isChain_cons_cons.1 hw
      cases h with
      | value | function => cases hl
      | structType before known origin distinct members =>
        exact Nat.le_of_succ_le (htype (.structType before known origin distinct members) hw)
      | structValue origin built =>
        obtain rfl := List.mem_singleton.1 hl
        exact htype built hrest

theorem closed : Symbol.Closed (Symbol.Built ledger bound) where
  value := .value bound
  function := .function bound
  structValue origin _ h := .structValue origin h
  part _ h _ hl := h.part hl

end Symbol.Built

/-! ## Analysis -/

/-- The ledger is empty from an index on. -/
def Ledger.FreshFrom (ledger : Ledger) (clock : Nat) : Prop :=
  ∀ index, clock ≤ index → ledger index = none

/-- All symbols in the table and on the tree are built by the first `clock` declarations. -/
structure Listed (ledger : Ledger) (clock : Nat) (table : Table) (occurrences : List Occurrence) :
    Prop where
  table : table.Proper (Symbol.Built ledger clock)
  tree : Labelled (Symbol.Built ledger clock) occurrences

namespace Listed

variable {ledger : Ledger} {clock : Nat} {table : Table} {occurrences : List Occurrence}

theorem mono (h : Listed ledger clock table occurrences) {later : Nat} (hle : clock ≤ later) :
    Listed ledger later table occurrences :=
  ⟨h.table.mono fun _ hs => hs.mono hle, h.tree.mono fun _ hs => hs.mono hle⟩

theorem grow (h : Listed ledger clock table occurrences) {later : Ledger}
    (hg : ledger.Grows later) : Listed later clock table occurrences :=
  ⟨h.table.mono fun _ hs => hs.grow hg, h.tree.mono fun _ hs => hs.grow hg⟩

end Listed

/-- A declaration at top level makes at most one struct type, for its own place in the ledger. -/
theorem Decl.analyze_listed {ledger : Ledger} {clock : Nat} (hfresh : ledger.FreshFrom clock)
    (decl : Decl) (state : WalkState) (h : Listed ledger clock state.table decl.occurrences) :
    ∃ later : Ledger, ledger.Grows later ∧ later.FreshFrom (clock + 1) ∧
      Listed later (clock + 1) (decl.analyze (.top clock) state).2.table
        (decl.analyze (.top clock) state).1.occurrences := by
  have hplain (hno : ∀ tag fields, decl ≠ .struct tag fields) :
      ∃ later : Ledger, ledger.Grows later ∧ later.FreshFrom (clock + 1) ∧
        Listed later (clock + 1) (decl.analyze (.top clock) state).2.table
          (decl.analyze (.top clock) state).1.occurrences := by
    obtain ⟨htable, -, htree⟩ := Decl.analyze_keeps Scope.Proper.kept Symbol.Built.closed
      (.top clock) h.tree (fun tag fields heq => absurd heq (hno tag fields)) state h.table
    exact ⟨ledger, fun _ _ hd => hd, fun index hi => hfresh index (by omega),
      Listed.mono ⟨htable, htree⟩ (by omega)⟩
  cases decl with
  | struct tag fields =>
    obtain ⟨hd, htree⟩ := h
    simp only [Decl.occurrences, labelled_cons, Occurrence.symbol] at htree
    obtain ⟨hmid, ⟨-, hfields⟩, hmembers⟩ := Decl.analyzeFields_keeps Scope.Proper.kept
      Symbol.Built.closed (.top clock) htree.2 0 Scope.proper_nil state hd
    -- The struct type is out of its members now, and goes on the ledger.
    let result := Decl.analyzeFields (.top clock) 0 [] fields state
    let made := StructType.mk (.top clock) tag.name result.1.2
    let later : Ledger := Function.update ledger clock (some made)
    have hgrows : ledger.Grows later := by
      intro index definition hknown
      have hne : index ≠ clock := by
        rintro rfl
        rw [hfresh index le_rfl] at hknown
        cases hknown
      simpa [later, hne] using hknown
    have hold (symbol : Symbol) (hs : symbol.Built ledger clock) :
        symbol.Built later (clock + 1) := (hs.grow hgrows).mono (Nat.le_succ clock)
    have hnew : Symbol.Built later (clock + 1) (.structType made) :=
      .structType (Nat.lt_succ_self clock) (Function.update_self ..) rfl hmembers.distinct
        fun name symbol hm => (hmembers.holds name symbol hm).grow hgrows
    have hbind : Walk.Keeps (Scope.Proper (Symbol.Built later (clock + 1)))
        (Walk.bind tag (some (.structType made))) fun bound =>
          bound.relabel .forget = tag.relabel .forget ∧
            ∀ s ∈ bound.symbol, s.Built later (clock + 1) := by
      refine Walk.bind_keeps Scope.Proper.kept (fun s hs => hold s (htree.1 s hs))
        fun scope hscope => Scope.Proper.kept.enter hscope tag ?_
      rintro _ ⟨⟩
      exact ⟨hnew, by rintro _ ⟨⟩; rfl⟩
    obtain ⟨hafter, -, htag⟩ := hbind result.2 (Table.Proper.mono hmid hold)
    refine ⟨later, hgrows, fun index hi => ?_, hafter, ?_⟩
    · have hne : index ≠ clock := by omega
      simpa [later, hne] using hfresh index (by omega)
    · exact (labelled_cons _ _).2 ⟨htag, hfields.mono hold⟩
  | _ => exact hplain (by simp)

theorem Decl.analyzeAll_listed {ledger : Ledger} {clock : Nat} (hfresh : ledger.FreshFrom clock)
    (decls : List Decl) (state : WalkState)
    (h : Listed ledger clock state.table (Decl.occurrencesAll decls)) :
    ∃ later : Ledger, ledger.Grows later ∧ later.FreshFrom (clock + decls.length) ∧
      Listed later (clock + decls.length) (Decl.analyzeAll clock decls state).2.table
        (Decl.occurrencesAll (Decl.analyzeAll clock decls state).1) := by
  induction decls generalizing ledger clock state with
  | nil => exact ⟨ledger, fun _ _ hd => hd, hfresh, h⟩
  | cons decl decls ih =>
    obtain ⟨htable, htree⟩ := h
    simp only [Decl.occurrencesAll, labelled_append] at htree
    obtain ⟨mid, hgrows, hmid, hdecl⟩ :=
      Decl.analyze_listed hfresh decl state ⟨htable, htree.1⟩
    have hrest : Labelled (Symbol.Built mid (clock + 1)) (Decl.occurrencesAll decls) :=
      htree.2.mono fun _ hs => (hs.grow hgrows).mono (Nat.le_succ clock)
    obtain ⟨later, hgrows', hlater, hdecls⟩ :=
      ih hmid (decl.analyze (.top clock) state).2 ⟨hdecl.table, hrest⟩
    have hlength : clock + 1 + decls.length = clock + (decl :: decls).length := by
      simp only [List.length_cons]
      omega
    rw [hlength] at hlater hdecls
    refine ⟨later, fun i d hd => hgrows' i d (hgrows i d hd), hlater, hdecls.table, ?_⟩
    refine (labelled_append _ _).2 ⟨hdecl.tree.mono fun _ hs => ?_, hdecls.tree⟩
    refine (hs.grow hgrows').mono ?_
    simp only [List.length_cons]
    omega

/-! ## Runs of a session -/

namespace Session

/-- A symbol that a name in the table or a node of the tree has. -/
def Holds (session : Session) (symbol : Symbol) : Prop :=
  (∃ scope ∈ session.table.scopes, ∃ name, (name, symbol) ∈ scope) ∨
    ∃ occurrence ∈ session.program.occurrences, symbol ∈ occurrence.symbol

def Reaches (session : Session) (symbol : Symbol) : Prop :=
  ∃ first, session.Holds first ∧ ReflTransGen Symbol.Leads first symbol

/-- What can be done next in a session, where `before` are the states that it was in. A program
may be one that was analysed before, as a whole or in parts, also in vain. -/
inductive Step (before : List Session) (now : Session) : Session → Prop
  | load (program : Program)
      (known : ∀ occurrence ∈ program.occurrences, ∀ symbol ∈ occurrence.symbol,
        ∃ session ∈ now :: before, session.Reaches symbol) :
      Step before now (now.load program)
  | restart : Step before now now.restart
  | push : Step before now now.push
  | pop {scope : Scope} {next : Session} (done : now.pop = .ok (scope, next)) :
      Step before now next
  | declare {name type : String} {next : Session} (done : now.declare name type = .ok next) :
      Step before now next
  | analyze : Step before now now.analyze.2

/-- The states of a session from its start, newest first. -/
inductive Run : List Session → Prop
  | start : Run [.start]
  | step {before : List Session} {now next : Session} (run : Run (now :: before))
      (step : Step before now next) : Run (next :: now :: before)

/-- The symbols of a state are on the ledger. -/
def Sound (ledger : Ledger) (session : Session) : Prop :=
  Listed ledger session.clock session.table session.program.occurrences

variable {ledger : Ledger} {now next : Session} {before : List Session}

theorem Sound.reach (h : now.Sound ledger) {symbol : Symbol} (hr : now.Reaches symbol) :
    symbol.Built ledger now.clock := by
  obtain ⟨first, ⟨scope, hs, name, hm⟩ | ⟨occurrence, ho, hm⟩, hway⟩ := hr
  · exact ((h.table scope hs).holds name first hm).reach hway
  · exact (h.tree occurrence ho first hm).reach hway

theorem Step.sound (hfresh : ledger.FreshFrom now.clock)
    (hsound : ∀ session ∈ now :: before, session.clock ≤ now.clock ∧ session.Sound ledger)
    (h : Step before now next) :
    ∃ later : Ledger, ledger.Grows later ∧ later.FreshFrom next.clock ∧
      now.clock ≤ next.clock ∧ next.Sound later := by
  obtain ⟨htable, htree⟩ := (hsound now List.mem_cons_self).2
  have hsame {after : Session} (hclock : after.clock = now.clock) (ha : after.Sound ledger) :
      ∃ later : Ledger, ledger.Grows later ∧ later.FreshFrom after.clock ∧
        now.clock ≤ after.clock ∧ after.Sound later :=
    ⟨ledger, fun _ _ hd => hd, hclock ▸ hfresh, hclock.ge, ha⟩
  cases h with
  | load program known =>
    refine hsame rfl ⟨htable, fun occurrence ho symbol hs => ?_⟩
    obtain ⟨session, hmem, hreach⟩ := known occurrence ho symbol hs
    exact ((hsound session hmem).2.reach hreach).mono (hsound session hmem).1
  | restart => exact hsame rfl ⟨.new, htree⟩
  | push => exact hsame rfl ⟨htable.push, htree⟩
  | pop done =>
    cases hp : now.table.pop with
    | error reason => simp [Session.pop, hp, Bind.bind, Except.bind] at done
    | ok popped =>
      simp only [Session.pop, hp, Bind.bind, Except.bind, Except.ok.injEq, Prod.mk.injEq] at done
      obtain ⟨-, rfl⟩ := done
      exact hsame rfl ⟨htable.pop hp, htree⟩
  | @declare name type _ done =>
    cases hd : now.table.declare name (.value (.top now.clock) type) with
    | error reason => simp [Session.declare, hd, Bind.bind, Except.bind] at done
    | ok after =>
      simp only [Session.declare, hd, Bind.bind, Except.bind, Except.ok.injEq] at done
      subst done
      have hlisted : Listed ledger now.clock after now.program.occurrences :=
        ⟨htable.declare (.value _ _ type) (fun _ => nofun) hd, htree⟩
      exact ⟨ledger, fun _ _ hd => hd, fun index hi => hfresh index (Nat.le_of_succ_le hi),
        Nat.le_succ _, hlisted.mono (Nat.le_succ _)⟩
  | analyze =>
    obtain ⟨later, hgrows, hlater, hlisted⟩ :=
      Decl.analyzeAll_listed hfresh now.program.decls ⟨now.table, [], none⟩ ⟨htable, htree⟩
    exact ⟨later, hgrows, hlater, Nat.le_add_right .., hlisted⟩

/-- One ledger serves for all states of a session. -/
theorem Run.sound (h : Run (now :: before)) :
    ∃ ledger : Ledger, ledger.FreshFrom now.clock ∧
      ∀ session ∈ now :: before, session.clock ≤ now.clock ∧ session.Sound ledger := by
  generalize hall : now :: before = sessions at h
  induction h generalizing now before with
  | start =>
    obtain ⟨rfl, rfl⟩ := List.cons_eq_cons.1 hall
    refine ⟨fun _ => none, fun _ _ => rfl, fun session hs => ?_⟩
    obtain rfl := List.mem_singleton.1 hs
    exact ⟨le_rfl, .new, labelled_nil⟩
  | step run step ih =>
    obtain ⟨rfl, rfl⟩ := List.cons_eq_cons.1 hall
    obtain ⟨ledger, hfresh, hsound⟩ := ih rfl
    obtain ⟨later, hgrows, hlater, hclock, hnext⟩ := step.sound hfresh hsound
    refine ⟨later, hlater, fun session hs => ?_⟩
    rcases List.mem_cons.1 hs with rfl | hs
    · exact ⟨le_rfl, hnext⟩
    · exact ⟨(hsound session hs).1.trans hclock, (hsound session hs).2.grow hgrows⟩

/-- The struct types that a session can come to, by its table or by its tree, are in order: no way
through members leads back to where it began, or on without end; the members are one scope; a
struct type is the same in all states of the session, the earlier and the later ones; a variable
has the name of its struct type; and a scope has a struct type only under its own name. -/
theorem symbols_sound {sessions : List Session} (h : Run sessions) {session : Session}
    (hs : session ∈ sessions) :
    (∀ definition, session.Reaches (.structType definition) →
      (∀ other, TransGen Symbol.Leads (.structType definition) (.structType other) →
        other.origin ≠ definition.origin) ∧
      (∀ walk, (Symbol.structType definition :: walk).IsChain Symbol.Leads →
        walk.length ≤ 2 * session.clock) ∧
      (∀ name symbol, Scope.find? definition.members name = some symbol ↔
        (name, symbol) ∈ definition.members) ∧
      ∀ other ∈ sessions, ∀ same, other.Reaches (.structType same) →
        same.origin = definition.origin → same = definition) ∧
    (∀ origin type definition, session.Reaches (.structValue origin type definition) →
      type = definition.name) ∧
    ∀ scope ∈ session.table.scopes, ∀ name definition,
      (name, .structType definition) ∈ scope → name = definition.name := by
  obtain ⟨now, before, rfl⟩ : ∃ now before, sessions = now :: before := by
    cases h with
    | start => exact ⟨_, _, rfl⟩
    | step => exact ⟨_, _, rfl⟩
  obtain ⟨ledger, -, hsound⟩ := h.sound
  have hhere := (hsound session hs).2
  refine ⟨fun definition hr => ?_, fun origin type definition hr => ?_,
    fun scope hscope name definition hm => ?_⟩
  · have hbuilt := hhere.reach hr
    obtain ⟨index, -, hknown, horigin, hdistinct, -⟩ := hbuilt.place
    refine ⟨fun other => hbuilt.no_return, fun walk => hbuilt.walk_length,
      fun name symbol => Scope.find?_eq_some_iff hdistinct, fun other ho same hsame heq => ?_⟩
    obtain ⟨place, -, hplace, hplaced, -⟩ := ((hsound other ho).2.reach hsame).place
    obtain rfl : place = index := Origin.top_injective (by rw [← hplaced, heq, horigin])
    rw [hknown] at hplace
    exact (Option.some.inj hplace).symm
  · cases hhere.reach hr
    rfl
  · exact ((hhere.table scope hscope).named name _ hm definition rfl).symm

/-! A struct type with a member of the struct type that it hides. -/

private def outer : StructType :=
  .mk (.top 0) "S" [("a", .value ((Origin.top 0).child .fields 0) "int")]

private def inner : StructType :=
  .mk (.top 1) "S" [("s", .structValue ((Origin.top 1).child .fields 0) "S" outer)]

/-- `struct S { type field; };`, without locations. -/
private def declaring (type : TypeExpr) (field : String) : Program :=
  ⟨[.struct ⟨"S", none, none⟩ [.var type ⟨field, none, none⟩]]⟩

private def outside : Session :=
  (start.load (declaring (.primitive "int") "a")).analyze.2

private def inside : Session :=
  (outside.push.load (declaring (.struct ⟨"S", none, none⟩) "s")).analyze.2

theorem symbols_sound_hidden :
    inside.Reaches (.structType inner) ∧
      TransGen Symbol.Leads (.structType inner) (.structType outer) ∧
      outer.name = inner.name ∧ outer.origin ≠ inner.origin := by
  have hout : Run [outside, start.load (declaring (.primitive "int") "a"), start] :=
    .step (.step .start (.load _ (by simp [declaring, Program.occurrences, Decl.occurrencesAll,
      Decl.occurrences, TypeExpr.occurrences, Occurrence.symbol]))) .analyze
  have hrun : Run (inside :: _) :=
    .step (.step (.step hout .push) (.load (declaring (.struct ⟨"S", none, none⟩) "s")
      (by simp [declaring, Program.occurrences, Decl.occurrencesAll, Decl.occurrences,
        TypeExpr.occurrences, Occurrence.symbol]))) .analyze
  have hreach : inside.Reaches (.structType inner) :=
    ⟨.structType inner, .inl ⟨[("S", .structType inner)], List.mem_cons_self, "S",
      List.mem_cons_self⟩, .refl⟩
  have hway : TransGen Symbol.Leads (.structType inner) (.structType outer) :=
    .tail (.single List.mem_cons_self) List.mem_cons_self
  exact ⟨hreach, hway, rfl, ((symbols_sound hrun List.mem_cons_self).1 inner hreach).1 outer hway⟩

end Session

end Moo
