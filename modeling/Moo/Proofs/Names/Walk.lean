import Moo.Names.Analysis
import Moo.Proofs.Names.Resolver

/-!
# What the actions of name analysis do

Analysis walks over a tree with one table, on which it opens and closes
scopes. To compare the walk with resolution by environments, a symbol is read
as a `Meaning` and a table as an `Env`.

`Walk.look_run` and `Walk.bind_entered` say what becomes of a state without a
fault when an action looks at the table, or enters a name in it; all that is
said of such actions later is derived from that.

`Walk.Reports` says of an action, started without a fault, what it reports,
what it leaves in the table and what its result is; `Walk.Runs` says so where
the reports are known beforehand. There is one rule for each way to put actions
together, and one, `Walk.Reports.inScope`, for scopes: what an action declares
in a scope of its own is gone afterwards.
-/
namespace Moo

/-! ## Symbols as meanings -/

mutual

def Symbol.meaning : Symbol → Meaning
  | .value origin _ | .function origin _ _ => .plain origin
  | .structType definition => .tag definition.origin definition.meanings
  | .structValue origin _ definition => .record origin definition.meanings

def StructType.meanings : StructType → Names
  | .mk _ _ members => Scope.meanings members

def Scope.meanings : List (String × Symbol) → Names
  | [] => []
  | (name, symbol) :: rest => (name, symbol.meaning) :: Scope.meanings rest

end

def Table.env (table : Table) : Env :=
  table.scopes.map Scope.meanings

@[simp]
theorem Symbol.decl_meaning (symbol : Symbol) : symbol.meaning.decl = symbol.origin := by
  cases symbol <;> simp [Symbol.meaning, Meaning.decl, Symbol.origin]

theorem StructType.meanings_eq (definition : StructType) :
    definition.meanings = Scope.meanings definition.members := by
  cases definition; rfl

theorem lookup_meanings (scope : Scope) (name : String) :
    (Scope.meanings scope).lookup name = (scope.find? name).map Symbol.meaning := by
  induction scope with
  | nil => rfl
  | cons entry rest ih =>
    obtain ⟨own, symbol⟩ := entry
    simp only [Scope.find?] at ih
    simp only [Scope.meanings, Scope.find?, List.lookup_cons]
    split
    · rfl
    · exact ih

theorem meanings_append (a b : Scope) :
    Scope.meanings (a ++ b) = Scope.meanings a ++ Scope.meanings b := by
  induction a with
  | nil => rfl
  | cons entry rest ih => simp only [List.cons_append, Scope.meanings, ih]

theorem find?_env (table : Table) (name : String) :
    table.env.find? name = (table.lookup name).map Symbol.meaning := by
  obtain ⟨scopes⟩ := table
  simp only [Env.find?, Table.env, Table.lookup]
  induction scopes with
  | nil => rfl
  | cons scope scopes ih =>
    simp only [List.map_cons, List.findSome?_cons, lookup_meanings]
    cases scope.find? name with
    | none => exact ih
    | some symbol => rfl

/-- What an occurrence of a resolved tree stands for. -/
def Occurrence.use (occurrence : Occurrence) : Use :=
  ⟨occurrence.id.name, occurrence.id.loc, occurrence.symbol.map Symbol.origin⟩

/-- The uses of a resolved tree. -/
def usesOf (occurrences : List Occurrence) : List Use :=
  occurrences.map Occurrence.use

@[simp]
theorem usesOf_nil : usesOf [] = [] := rfl

@[simp]
theorem usesOf_cons (occurrence : Occurrence) (rest : List Occurrence) :
    usesOf (occurrence :: rest) = occurrence.use :: usesOf rest := rfl

@[simp]
theorem usesOf_append (a b : List Occurrence) : usesOf (a ++ b) = usesOf a ++ usesOf b :=
  List.map_append

/-- An identifier with a symbol set is a use of the symbol's meaning. -/
theorem use_ident (id : Ident) (symbol : Option Symbol) :
    (Occurrence.ident { id with symbol }).use = id.asUse (symbol.map Symbol.meaning) := by
  cases symbol <;> simp [Occurrence.use, Occurrence.id, Occurrence.symbol, Ident.asUse]

theorem use_unset (id : Ident) (h : id.symbol = none) :
    (Occurrence.ident id).use = id.asUse none := by
  simp [Occurrence.use, Occurrence.id, Occurrence.symbol, Ident.asUse, h]

/-! ## What an action of the walk does -/

/-- The reports among the events of a walk, oldest first. -/
def reported (events : List Event) : List Diagnostic :=
  events.reverse.filterMap fun
    | .reported diagnostic => some diagnostic
    | _ => none

theorem reported_append (new old : List Event) :
    reported (new ++ old) = reported old ++ reported new := by
  simp [reported]

theorem reported_cons (event : Event) (events : List Event) :
    reported (event :: events) = reported events ++ reported [event] :=
  reported_append [event] events

/-- The fault of an analysis that ends in a state. It fails also if another scope than the global
one is open then. -/
def WalkState.outcome (state : WalkState) : Option Fault :=
  if state.fault.isNone && state.table.depth ≠ 1 then some (.depth state.table.depth)
  else state.fault

theorem WalkState.isSome_outcome (state : WalkState) :
    state.outcome.isSome = (state.fault.isSome || decide (state.table.depth ≠ 1)) := by
  unfold WalkState.outcome
  cases hf : state.fault <;> by_cases hdepth : state.table.depth = 1 <;> simp [hdepth]

/-- Analysis of a program, by the walk over its declarations. -/
theorem Program.analyze_of_run {program : Program} {decls : List Decl} {scope : Scope}
    {events : List Event} {fault : Option Fault}
    (h : Decl.analyzeAll 0 program.decls ⟨.new, [], none⟩ = (decls, ⟨⟨[scope]⟩, events, fault⟩)) :
    program.analyze = ⟨⟨decls⟩, ⟨[scope]⟩, events.reverse, fault⟩ := by
  simp only [Program.analyze, Program.analyzeWith, h]
  cases fault <;> rfl

/-- What a remark reports, unless it is a fault. -/
def Remark.errors? : Remark → Option (List Diagnostic)
  | .nothing => some []
  | .misuse id wrong => some [.about id wrong]
  | .fault _ => none

def Remark.fault? : Remark → Option Fault
  | .fault reason => some reason
  | _ => none

theorem Remark.isNone_errors? (remark : Remark) :
    remark.errors?.isNone = remark.fault?.isSome := by
  cases remark <;> rfl

theorem Scope.enter_errors? (scope : Scope) (id : Ident) (symbol : Option Symbol) :
    ∃ errors, (scope.enter id symbol).2.errors? = some errors := by
  cases symbol with
  | none => exact ⟨[], rfl⟩
  | some symbol =>
    cases hf : scope.find? id.name with
    | none => exact ⟨[], by rw [enter_new hf]; rfl⟩
    | some old => exact ⟨[.about id .redeclared], by rw [enter_old hf]; rfl⟩

namespace Walk

variable {α β : Type}

theorem bind_run {action : Walk α} {next : α → Walk β} {state after : WalkState} {result : α}
    (h : action state = (result, after)) : (action >>= next) state = next result after := by
  show next (action state).1 (action state).2 = _
  rw [h]

theorem inScope_run {action : Walk α} {table : Table} {inner : Scope} {events later : List Event}
    {fault : Option Fault} {result : α}
    (h : action ⟨table.push, .opened table.push.depth :: events, none⟩ =
      (result, ⟨⟨inner :: table.scopes⟩, later, fault⟩)) :
    inScope action ⟨table, events, none⟩ = (result, ⟨table, .closed table.depth :: later, fault⟩) :=
  (bind_run rfl).trans <| (bind_run h).trans rfl

/-- After a fault nothing is said. -/
theorem remark_faulted (remark : Remark) {state : WalkState} (h : state.fault.isSome) :
    (Walk.remark remark state).2 = state := by
  cases remark with
  | nothing => rfl
  | misuse id wrong => exact congrArg Prod.snd (if_pos h)
  | fault reason => exact congrArg Prod.snd (if_pos h)

theorem remark_effect (remark : Remark) {state : WalkState} (h : state.fault = none) :
    (Walk.remark remark state).2.table = state.table ∧
      (Walk.remark remark state).2.fault = remark.fault? ∧
      reported (Walk.remark remark state).2.events =
        reported state.events ++ remark.errors?.getD [] := by
  obtain ⟨table, events, fault⟩ := state
  obtain rfl : fault = none := h
  cases remark with
  | nothing => exact ⟨rfl, rfl, (List.append_nil _).symm⟩
  | misuse id misuse => exact ⟨rfl, rfl, reported_cons _ _⟩
  | fault fault => exact ⟨rfl, rfl, (List.append_nil _).symm⟩

theorem remark_run {remark : Remark} {errors : List Diagnostic} (h : remark.errors? = some errors) :
    ∃ new, reported new = errors ∧ ∀ table events,
      Walk.remark remark ⟨table, events, none⟩ = ((), ⟨table, new ++ events, none⟩) := by
  cases remark with
  | nothing => exact ⟨[], Option.some.inj h, fun _ _ => rfl⟩
  | misuse id misuse => exact ⟨[.reported (.about id misuse)], Option.some.inj h, fun _ _ => rfl⟩
  | fault => cases h

theorem look_eq (kept : α) (answer : Table → α × Remark) (table : Table) (events : List Event) :
    look kept answer ⟨table, events, none⟩ =
      (do remark (answer table).2; pure (answer table).1 : Walk α) ⟨table, events, none⟩ := rfl

/-- An action that looks at the table gives its answer to what it finds there. -/
theorem look_run {kept : α} {answer : Table → α × Remark} {table : Table}
    {errors : List Diagnostic} (h : (answer table).2.errors? = some errors) :
    ∃ new, reported new = errors ∧ ∀ events, look kept answer ⟨table, events, none⟩ =
      ((answer table).1, ⟨table, new ++ events, none⟩) := by
  obtain ⟨new, herrors, hrun⟩ := remark_run h
  refine ⟨new, herrors, fun events => ?_⟩
  rw [look_eq, bind_run (hrun table events)]
  rfl

/-- A name that is bound enters the innermost scope. -/
theorem bind_entered (scope : Scope) (scopes : List Scope) (id : Ident) (symbol : Option Symbol) :
    ∃ new, (scope.enter id symbol).2.errors? = some (reported new) ∧ ∀ events,
      bind id symbol ⟨⟨scope :: scopes⟩, events, none⟩ =
        ((scope.enter id symbol).1.1,
          ⟨⟨(scope.enter id symbol).1.2 :: scopes⟩, new ++ events, none⟩) := by
  obtain ⟨errors, h⟩ := scope.enter_errors? id symbol
  obtain ⟨new, rfl, hrun⟩ := remark_run h
  refine ⟨new, h, fun events => ?_⟩
  show (remark (scope.enter id symbol).2 >>= fun _ => do
    modify fun state => { state with table := ⟨(scope.enter id symbol).1.2 :: scopes⟩ }
    Pure.pure (scope.enter id symbol).1.1) _ = _
  rw [bind_run (hrun ⟨scope :: scopes⟩ events)]
  rfl

/-! ### Actions that go through -/

/-- With no fault so far, the action goes through without one, and `post` holds of its result, of
what it reports and of the table that it leaves. -/
def Reports (action : Walk α) (table : Table) (post : α → List Diagnostic → Table → Prop) : Prop :=
  ∀ events, ∃ result errors after later,
    action ⟨table, events, none⟩ = (result, ⟨after, later, none⟩) ∧
      reported later = reported events ++ errors ∧ post result errors after

/-- The action reports `errors`, whatever its result is, and `post` holds of that and of the table
that it leaves. -/
def Runs (action : Walk α) (table : Table) (errors : List Diagnostic) (post : α → Table → Prop) :
    Prop :=
  Reports action table fun result found after => found = errors ∧ post result after

namespace Reports

variable {table : Table}

/-- What comes of the action does not depend on what happened before. -/
theorem of_run {action : Walk α} {result : α} {after : Table}
    {post : α → List Diagnostic → Table → Prop} (new : List Event)
    (h : ∀ events, action ⟨table, events, none⟩ = (result, ⟨after, new ++ events, none⟩))
    (hp : post result (reported new) after) : Reports action table post :=
  fun events => ⟨result, reported new, after, new ++ events, h events, reported_append new events,
    hp⟩

theorem pure {result : α} {post : α → List Diagnostic → Table → Prop} (h : post result [] table) :
    Reports (Pure.pure result) table post :=
  of_run [] (fun _ => rfl) h

theorem bind {action : Walk α} {next : α → Walk β} {mid : α → List Diagnostic → Table → Prop}
    {post : β → List Diagnostic → Table → Prop} (h : Reports action table mid)
    (hn : ∀ result errors after, mid result errors after →
      Reports (next result) after fun result' more => post result' (errors ++ more)) :
    Reports (action >>= next) table post := by
  intro events
  obtain ⟨a, e, t, l, hrun, hrep, hmid⟩ := h events
  obtain ⟨b, e', t', l', hrun', hrep', hpost⟩ := hn a e t hmid l
  exact ⟨b, e ++ e', t', l', (bind_run hrun).trans hrun',
    by rw [hrep', hrep, List.append_assoc], hpost⟩

/-- The last action before a result. -/
theorem last {action : Walk α} {f : α → β} {mid : α → List Diagnostic → Table → Prop}
    {post : β → List Diagnostic → Table → Prop} (h : Reports action table mid)
    (hp : ∀ result errors after, mid result errors after → post (f result) errors after) :
    Reports (do let result ← action; Pure.pure (f result)) table post :=
  h.bind fun result errors after hm =>
    .pure (by simpa using hp result errors after hm)

theorem mono {action : Walk α} {mid post : α → List Diagnostic → Table → Prop}
    (h : Reports action table mid)
    (hp : ∀ result errors after, mid result errors after → post result errors after) :
    Reports action table post := by
  intro events
  obtain ⟨a, e, t, l, hrun, hrep, hmid⟩ := h events
  exact ⟨a, e, t, l, hrun, hrep, hp a e t hmid⟩

theorem look {kept : α} {answer : Table → α × Remark} {post : α → List Diagnostic → Table → Prop}
    (h : ∃ errors, (answer table).2.errors? = some errors ∧ post (answer table).1 errors table) :
    Reports (look kept answer) table post := by
  obtain ⟨errors, herrors, hpost⟩ := h
  obtain ⟨new, rfl, hrun⟩ := look_run herrors
  exact of_run new hrun hpost

/-- A name that is bound in the innermost scope. -/
theorem enter {scope : Scope} {scopes : List Scope} {id : Ident} {symbol : Option Symbol}
    {post : Ident → List Diagnostic → Table → Prop}
    (h : ∃ errors, (scope.enter id symbol).2.errors? = some errors ∧
      post (scope.enter id symbol).1.1 errors ⟨(scope.enter id symbol).1.2 :: scopes⟩) :
    Reports (Walk.bind id symbol) ⟨scope :: scopes⟩ post := by
  obtain ⟨errors, herrors, hpost⟩ := h
  obtain ⟨new, hnew, hrun⟩ := bind_entered scope scopes id symbol
  obtain rfl : errors = reported new := Option.some.inj (herrors.symm.trans hnew)
  exact of_run new hrun hpost

/-- An action in a scope of its own: what it declares there is gone afterwards. -/
theorem inScope {action : Walk α} {post : α → List Diagnostic → Prop}
    (h : Reports action table.push fun result errors after =>
      post result errors ∧ ∃ inner, after.scopes = inner :: table.scopes) :
    Reports (inScope action) table fun result errors after =>
      post result errors ∧ after = table := by
  intro events
  obtain ⟨a, e, ⟨t⟩, l, hrun, hrep, hpost, inner, ht⟩ := h (.opened table.push.depth :: events)
  obtain rfl : t = inner :: table.scopes := ht
  refine ⟨a, e, table, .closed table.depth :: l, inScope_run hrun, ?_, hpost, rfl⟩
  rw [reported_cons, hrep, reported_cons]
  simp [reported]

end Reports

namespace Runs

variable {table : Table} {errors : List Diagnostic}

theorem pure {result : α} {post : α → Table → Prop} (h : post result table) :
    Runs (Pure.pure result) table [] post :=
  Reports.pure ⟨rfl, h⟩

theorem bind {action : Walk α} {next : α → Walk β} {more : List Diagnostic}
    {mid : α → Table → Prop} {post : β → Table → Prop} (h : Runs action table errors mid)
    (hn : ∀ result after, mid result after → Runs (next result) after more post) :
    Runs (action >>= next) table (errors ++ more) post :=
  Reports.bind h fun result _ after ⟨he, hmid⟩ =>
    (hn result after hmid).mono fun _ _ _ ⟨he', hpost⟩ => ⟨by rw [he, he'], hpost⟩

/-- The last action before a result. -/
theorem last {action : Walk α} {f : α → β} {mid : α → Table → Prop} {post : β → Table → Prop}
    (h : Runs action table errors mid)
    (hp : ∀ result after, mid result after → post (f result) after) :
    Runs (do let result ← action; Pure.pure (f result)) table errors post :=
  Reports.last h fun result _ after => And.imp_right (hp result after)

theorem mono {action : Walk α} {mid post : α → Table → Prop} (h : Runs action table errors mid)
    (hp : ∀ result after, mid result after → post result after) : Runs action table errors post :=
  Reports.mono h fun result _ after => And.imp_right (hp result after)

/-- What reports the same whatever comes of it. -/
theorem reports {action : Walk α} {mid : α → Table → Prop}
    {post : α → List Diagnostic → Table → Prop} (h : Runs action table errors mid)
    (hp : ∀ result after, mid result after → post result errors after) :
    Reports action table post :=
  Reports.mono h fun result _ after ⟨he, hmid⟩ => he ▸ hp result after hmid

theorem look {kept : α} {answer : Table → α × Remark} {post : α → Table → Prop}
    (h : (answer table).2.errors? = some errors ∧ post (answer table).1 table) :
    Runs (look kept answer) table errors post :=
  Reports.look ⟨errors, h.1, rfl, h.2⟩

/-- An action in a scope of its own. -/
theorem inScope {action : Walk α} {post : α → Prop}
    (h : Runs action table.push errors fun result after =>
      post result ∧ ∃ inner, after.scopes = inner :: table.scopes) :
    Runs (inScope action) table errors fun result after => post result ∧ after = table := by
  have hinner : Reports action table.push fun result found after =>
      (found = errors ∧ post result) ∧ ∃ inner, after.scopes = inner :: table.scopes :=
    Reports.mono h fun _ _ _ ⟨he, hpost, hscopes⟩ => ⟨⟨he, hpost⟩, hscopes⟩
  exact hinner.inScope.mono fun _ _ _ ⟨⟨he, hpost⟩, hafter⟩ => ⟨he, hpost, hafter⟩

end Runs

/-- Something that no diagnostic comes of. -/
theorem note_runs (event : Event) (table : Table) (h : reported [event] = []) :
    Runs (note event) table [] fun _ after => after = table :=
  Reports.of_run [event] (fun _ => rfl) ⟨h, rfl⟩

theorem report_runs (id : Ident) (misuse : Misuse) (table : Table) :
    Runs (report id misuse) table [.about id misuse] fun _ after => after = table :=
  Reports.of_run [.reported (.about id misuse)] (fun _ => rfl) ⟨rfl, rfl⟩

/-! ### Names -/

theorem resolve_runs (id : Ident) (table : Table) :
    Runs (resolve id) table (id.resolveIn table.env).2.errors fun result after =>
      after = table ∧ result.2.map Symbol.meaning = (id.resolveIn table.env).1 ∧
        [(Occurrence.ident result.1).use] = (id.resolveIn table.env).2.uses ∧
        result.1.loc = id.loc := by
  have hfind := find?_env table id.name
  refine .look ?_
  unfold Ident.resolveIn
  cases hl : table.lookup id.name with
  | none =>
    simp only [hl, Option.map_none] at hfind
    rw [hfind]
    exact ⟨rfl, rfl, rfl, by rw [use_ident]; rfl, rfl⟩
  | some symbol =>
    simp only [hl, Option.map_some] at hfind
    rw [hfind]
    exact ⟨rfl, rfl, rfl, by rw [use_ident]; rfl, rfl⟩

theorem resolveTag_runs (tag : Ident) (table : Table) (h : tag.symbol = none) :
    Runs (resolveTag tag) table (tagIn table.env tag).2.errors fun result after =>
      after = table ∧ result.2.map StructType.meanings = (tagIn table.env tag).1 ∧
        [(Occurrence.ident result.1).use] = (tagIn table.env tag).2.uses := by
  have hfind := find?_env table tag.name
  refine .look ?_
  unfold tagIn
  rcases hl : table.lookup tag.name with _ | _ | _ | definition | _ <;>
    simp only [hl, Option.map_none, Option.map_some, Symbol.meaning] at hfind <;>
    rw [hfind]
  case some.structType => exact ⟨rfl, rfl, rfl, by rw [use_ident]; rfl⟩
  all_goals exact ⟨rfl, rfl, rfl, by rw [use_unset tag h]⟩

end Walk

/-- A name that is declared in a scope stands for what the scope then says. -/
theorem Scope.enter_declares (scope : Scope) (id : Ident) (symbol : Option Symbol) :
    let entered := scope.enter id symbol
    let declared := (Scope.meanings scope).declare id (symbol.map Symbol.meaning)
    entered.2.errors? = some declared.2 ∧ Scope.meanings entered.1.2 = declared.1 ∧
      (Occurrence.ident entered.1.1).use =
        id.asUse ((Scope.meanings entered.1.2).lookup id.name) := by
  cases symbol with
  | none => exact ⟨rfl, rfl, by simp [use_ident, lookup_meanings]⟩
  | some symbol =>
    have hlook := lookup_meanings scope id.name
    cases hf : scope.find? id.name with
    | none =>
      rw [hf, Option.map_none] at hlook
      rw [enter_new hf, Option.map_some, Names.declare, hlook]
      exact ⟨rfl, meanings_append _ _, by rw [use_ident, lookup_meanings, find?_snoc_self hf]⟩
    | some old =>
      rw [hf, Option.map_some] at hlook
      rw [enter_old hf, Option.map_some, Names.declare, hlook]
      exact ⟨rfl, rfl, by rw [use_ident, hlook]; rfl⟩

namespace Walk

theorem bindMember_runs (members : Scope) (id : Ident) (symbol : Option Symbol) (table : Table) :
    Runs (bindMember members id symbol) table
      ((Scope.meanings members).declare id (symbol.map Symbol.meaning)).2 fun result after =>
      after = table ∧
        Scope.meanings result.2 = ((Scope.meanings members).declare id (symbol.map Symbol.meaning)).1 ∧
        (Occurrence.ident result.1).use = id.asUse ((Scope.meanings result.2).lookup id.name) := by
  obtain ⟨herrors, hmeanings, huse⟩ := members.enter_declares id symbol
  exact .look ⟨herrors, rfl, hmeanings, huse⟩

theorem bind_runs (scope : Scope) (scopes : List Scope) (id : Ident) (symbol : Option Symbol) :
    Runs (bind id symbol) ⟨scope :: scopes⟩
      ((Scope.meanings scope).declare id (symbol.map Symbol.meaning)).2 fun result after =>
      ∃ inner, after = ⟨inner :: scopes⟩ ∧
        Scope.meanings inner = ((Scope.meanings scope).declare id (symbol.map Symbol.meaning)).1 ∧
        (Occurrence.ident result).use = id.asUse ((Scope.meanings inner).lookup id.name) := by
  obtain ⟨herrors, hmeanings, huse⟩ := scope.enter_declares id symbol
  exact .enter ⟨_, herrors, rfl, _, rfl, hmeanings, huse⟩

end Walk

end Moo
