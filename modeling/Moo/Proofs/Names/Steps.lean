import Moo.Proofs.Names.Frame
import Moo.Proofs.Names.Walk
import Moo.Proofs.Tree.Shape

/-!
# What every part of the walk does

`Walk.Steps` says once, for every action of name analysis, what becomes of the
state that it starts in, whatever is in the tree:

* After a fault it does nothing, and gives back what it was given.
* Without one it adds some names at the end of the innermost scope, none of
  which that scope had, and adds to what happened. It keeps all other scopes.
  All this depends on the scopes alone, and not on what happened before.
* It may give up, but never over the number of scopes; and if what it works on
  is well formed it does not, as long as there is a scope for its names.

There is one rule for each way to put actions together, and one lemma for each
function that walks over a part of a program. What is said elsewhere of tables
and of faults is derived from these.
-/
namespace Moo

/-! ## How a table may change -/

namespace Table

/-- The table with some more names at the end of its innermost scope, if it has a scope. -/
def extend (table : Table) (new : Scope) : Table :=
  ⟨table.scopes.modifyHead (· ++ new)⟩

@[simp]
theorem extend_nil (table : Table) : table.extend [] = table := by
  obtain ⟨scopes⟩ := table
  cases scopes <;> simp [extend]

@[simp]
theorem extend_extend (table : Table) (a b : Scope) :
    (table.extend a).extend b = table.extend (a ++ b) := by
  obtain ⟨scopes⟩ := table
  cases scopes <;> simp [extend]

@[simp]
theorem depth_extend (table : Table) (new : Scope) : (table.extend new).depth = table.depth := by
  simp [extend, depth]

theorem scopes_extend_eq_nil {table : Table} {new : Scope} :
    (table.extend new).scopes = [] ↔ table.scopes = [] := by
  simp [extend]

/-- What is not in the scope with more names is not in the scope. -/
theorem lookupLocal_of_extend {table : Table} {new : Scope} {name : String}
    (h : (table.extend new).lookupLocal name = none) : table.lookupLocal name = none := by
  obtain ⟨scopes⟩ := table
  cases scopes with
  | nil => rfl
  | cons scope scopes =>
    have happend : List.lookup name (scope ++ new) = none := h
    rw [List.lookup_append] at happend
    exact (Option.or_eq_none_iff.1 happend).1

end Table

/-! ## Faults -/

theorem Stray.remark_ne_depth (thing : Stray) (misuse : Misuse) (n : Nat) :
    thing.remark misuse ≠ .fault (.depth n) := by
  unfold Stray.remark
  split
  · nofun
  next hloc =>
    obtain ⟨kind, rfl⟩ := Stray.loc_eq_error hloc
    nofun

theorem Expr.blame?_ne_depth (object : Expr) {remark : Remark} {n : Nat}
    (h : remark ≠ .fault (.depth n)) : object.blame?.getD remark ≠ .fault (.depth n) := by
  cases object with
  | name | dot => nofun
  | strayDot _ thing => exact thing.remark_ne_depth _ n
  | _ => exact h

/-- A wrong dot behind a well-formed expression is a misuse of an identifier. -/
theorem Expr.WellFormed.blames {object : Expr} (h : object.WellFormed) (field : Ident) :
    object.blame?.getD (.misuse field .notAStruct) =
      .misuse (dotAnchor object field) .notAStruct := by
  cases object with
  | strayDot => exact h.elim
  | _ => rfl

/-! ## Well-formed trees stay so -/

open Walk

theorem Expr.resolve_wellFormed (expr : Expr) :
    Yields expr.resolve fun result => result.1.WellFormed ↔ expr.WellFormed :=
  expr.resolve_forget.mono fun _ h => by
    rw [← Expr.wellFormed_relabel .forget, h, Expr.wellFormed_relabel]

theorem TypeExpr.resolveReturn_wellFormed (returns : TypeExpr) :
    Yields returns.resolveReturn fun result => result.WellFormed ↔ returns.WellFormed :=
  (resolveReturn_forget returns).mono fun _ h => by
    rw [← TypeExpr.wellFormed_relabel .forget, h, TypeExpr.wellFormed_relabel]

/-! ## Symbols of functions -/

/-- The types of a well-formed function have names, so it gets its symbol. -/
theorem functionSymbol_isOk (origin : Origin) (returns : TypeExpr) (formals : List Decl)
    (hr : returns.WellFormed) (hf : ∀ formal ∈ formals, formal.IsFormal) :
    ∃ name params, functionSymbol origin returns formals = .ok (.function origin name params) := by
  have hname (type : TypeExpr) (hw : type.WellFormed) : ∃ name, type.name? = some name := by
    cases type with
    | primitive name => exact ⟨name, rfl⟩
    | struct tag => exact ⟨tag.name, rfl⟩
    | stray => exact hw.elim
  have hparams : ∃ params, formals.mapM Decl.formalType = .ok params := by
    induction formals with
    | nil => exact ⟨[], rfl⟩
    | cons formal formals ih =>
      obtain ⟨params, hp⟩ := ih fun f hm => hf f (by simp [hm])
      have hform := hf formal (by simp)
      cases formal with
      | formal type id =>
        obtain ⟨name, hn⟩ := hname type hform
        refine ⟨name :: params, ?_⟩
        simp only [List.mapM_cons, Decl.formalType, hn, hp]
        rfl
      | _ => exact hform.elim
  obtain ⟨params, hp⟩ := hparams
  obtain ⟨name, hn⟩ := hname returns hr
  refine ⟨name, params, ?_⟩
  simp only [functionSymbol, hp, hn]
  rfl

theorem formalType_ne_depth {decl : Decl} {fault : Fault} (h : decl.formalType = .error fault)
    (n : Nat) : fault ≠ .depth n := by
  unfold Decl.formalType at h
  split at h
  case h_3 => cases h; nofun
  all_goals
    split at h
    · cases h
    · cases h; nofun

/-- A function whose symbol cannot be made lacks a part somewhere. -/
theorem functionSymbol_ne_depth {origin : Origin} {returns : TypeExpr} {formals : List Decl}
    {fault : Fault} (h : functionSymbol origin returns formals = .error fault) (n : Nat) :
    fault ≠ .depth n := by
  have hmap : ∀ formals : List Decl, formals.mapM Decl.formalType = .error fault →
      fault ≠ .depth n := by
    intro formals
    induction formals with
    | nil => intro h; cases h
    | cons formal formals ih =>
      rw [List.mapM_cons]
      cases hf : formal.formalType with
      | error e =>
        intro h
        cases h
        exact formalType_ne_depth hf n
      | ok name =>
        cases hfs : formals.mapM Decl.formalType with
        | error e =>
          intro h
          cases h
          exact ih hfs
        | ok names => intro h; cases h
  unfold functionSymbol at h
  cases hf : formals.mapM Decl.formalType with
  | error e =>
    rw [hf] at h
    cases h
    exact hmap formals hf
  | ok params =>
    rw [hf] at h
    cases hn : returns.name? with
    | some name => simp [hn, Bind.bind, Except.bind] at h
    | none =>
      simp only [hn, Bind.bind, Except.bind, Except.error.injEq] at h
      subst h
      nofun

/-! ## Actions -/

/-- A name is added to a scope that does not have it, or to none. -/
theorem Scope.enter_scope (scope : Scope) (id : Ident) (symbol : Option Symbol) :
    ∃ new : Scope, new.length ≤ 1 ∧ (∀ entry ∈ new, scope.find? entry.1 = none) ∧
      (scope.enter id symbol).1.2 = scope ++ new := by
  cases symbol with
  | none => exact ⟨[], by simp⟩
  | some symbol =>
    cases hf : scope.find? id.name with
    | none => exact ⟨[(id.name, symbol)], by simp, by simpa using hf, by rw [enter_new hf]⟩
    | some old => exact ⟨[], by simp [enter_old hf]⟩

namespace Walk

variable {α β : Type} {whole : Prop} {count more : Nat} {scopes : List Scope} {names : Scope}

/-- What can come of an action besides its result and what is seen of it, where these scopes are
open: `count` names at most, and perhaps a fault. If `whole`, the only reason for one can be that
there is no scope for the names. -/
structure Comes (whole : Prop) (count : Nat) (scopes : List Scope) (names : Scope)
    (fault : Option Fault) : Prop where
  few : names.length ≤ count
  fresh : ∀ entry ∈ names, Table.lookupLocal ⟨scopes⟩ entry.1 = none
  reason : ∀ n, fault ≠ some (.depth n)
  through : whole → count = 0 ∨ scopes ≠ [] → fault = none

theorem Comes.nothing : Comes whole 0 scopes [] none :=
  ⟨le_rfl, nofun, nofun, fun _ _ => rfl⟩

/-- One action behind another. -/
theorem Comes.append {names' : Scope} {fault : Option Fault}
    (h : Comes whole count scopes names none)
    (h' : Comes whole more (Table.extend ⟨scopes⟩ names).scopes names' fault) :
    Comes whole (count + more) scopes (names ++ names') fault where
  few := by
    rw [List.length_append]
    exact Nat.add_le_add h.few h'.few
  fresh := List.forall_mem_append.2
    ⟨h.fresh, fun entry hm => Table.lookupLocal_of_extend (h'.fresh entry hm)⟩
  reason := h'.reason
  through hw hroom := h'.through hw <| hroom.imp Nat.eq_zero_of_add_eq_zero_left
    (mt Table.scopes_extend_eq_nil.1)

/-- After a fault the action leaves all as it is, and its result is this value. -/
def Idle (action : Walk α) (value : α) : Prop :=
  ∀ state, state.fault.isSome → action state = (value, state)

/-- What an action does to the state that it starts in. After a fault its result is `kept`. -/
structure Steps (whole : Prop) (count : Nat) (action : Walk α) (kept : α) : Prop where
  idle : Idle action kept
  run : ∀ scopes, ∃ result names new fault, Comes whole count scopes names fault ∧
    ∀ events, action ⟨⟨scopes⟩, events, none⟩ =
      (result, ⟨Table.extend ⟨scopes⟩ names, new ++ events, fault⟩)

namespace Steps

variable {action : Walk α} {kept : α}

theorem pure (a : α) : Steps whole 0 (Pure.pure a : Walk α) a where
  idle _ _ := rfl
  run scopes := ⟨a, [], [], none, .nothing, fun _ => by rw [Table.extend_nil]; rfl⟩

theorem mono {whole' : Prop} (h : Steps whole count action kept) (hw : whole' → whole) :
    Steps whole' count action kept where
  idle := h.idle
  run scopes := by
    obtain ⟨result, names, new, fault, hc, hrun⟩ := h.run scopes
    exact ⟨result, names, new, fault,
      ⟨hc.few, hc.fresh, hc.reason, fun h => hc.through (hw h)⟩, hrun⟩

/-- Room for more names than there are. -/
theorem le (h : Steps whole count action kept) (hle : count ≤ more) :
    Steps whole more action kept where
  idle := h.idle
  run scopes := by
    obtain ⟨result, names, new, fault, hc, hrun⟩ := h.run scopes
    refine ⟨result, names, new, fault, ⟨hc.few.trans hle, hc.fresh, hc.reason, fun hw hroom => ?_⟩,
      hrun⟩
    exact hc.through hw (hroom.imp_left fun h0 => by omega)

/-- One action behind another, where something is known of the result of the first. -/
theorem bindOf {next : α → Walk β} {rest : α → β} {post : α → Prop}
    (h : Steps whole count action kept) (hy : Yields action post)
    (hn : ∀ a, post a → Steps whole more (next a) (rest a)) :
    Steps whole (count + more) (action >>= next) (rest kept) where
  idle state hf := by
    have hstart := h.idle state hf
    have hpost := hy.result state
    rw [hstart] at hpost
    exact (bind_run hstart).trans ((hn kept hpost).idle state hf)
  run scopes := by
    obtain ⟨a, names, new, fault, hc, hrun⟩ := h.run scopes
    have hpost := hy.result ⟨⟨scopes⟩, [], none⟩
    rw [hrun] at hpost
    cases fault with
    | some fault =>
      refine ⟨rest a, names, new, some fault, ⟨hc.few.trans (Nat.le_add_right ..), hc.fresh,
        hc.reason, fun hw hroom => ?_⟩, fun events => ?_⟩
      · exact hc.through hw (hroom.imp_left Nat.eq_zero_of_add_eq_zero_right)
      · exact (bind_run (hrun events)).trans ((hn a hpost).idle _ rfl)
    | none =>
      obtain ⟨b, names', new', fault, hc', hrun'⟩ :=
        (hn a hpost).run (Table.extend ⟨scopes⟩ names).scopes
      refine ⟨b, names ++ names', new' ++ new, fault, hc.append hc', fun events => ?_⟩
      rw [bind_run (hrun events), hrun', List.append_assoc, Table.extend_extend]

theorem bind {next : α → Walk β} {rest : α → β} (h : Steps whole count action kept)
    (hn : ∀ a, Steps whole more (next a) (rest a)) :
    Steps whole (count + more) (action >>= next) (rest kept) :=
  h.bindOf (.of fun _ => trivial) fun a (_ : True) => hn a

/-- An action behind one that adds no names. -/
theorem afterOf {next : α → Walk β} {rest : α → β} {post : α → Prop}
    (h : Steps whole 0 action kept) (hy : Yields action post)
    (hn : ∀ a, post a → Steps whole count (next a) (rest a)) :
    Steps whole count (action >>= next) (rest kept) := by
  simpa using h.bindOf hy hn

theorem after {next : α → Walk β} {rest : α → β} (h : Steps whole 0 action kept)
    (hn : ∀ a, Steps whole count (next a) (rest a)) :
    Steps whole count (action >>= next) (rest kept) := by
  simpa using h.bind hn

/-- The last action before a result. -/
theorem last {f : α → β} (h : Steps whole count action kept) :
    Steps whole count (do let a ← action; Pure.pure (f a)) (f kept) :=
  h.bind fun a => .pure (f a)

/-- What is left out after a fault only has to do something without one. -/
theorem unlessFaulted
    (h : ∀ scopes, ∃ result names new fault, Comes whole count scopes names fault ∧
      ∀ events, action ⟨⟨scopes⟩, events, none⟩ =
        (result, ⟨Table.extend ⟨scopes⟩ names, new ++ events, fault⟩)) :
    Steps whole count (unlessFaulted kept action) kept :=
  ⟨fun _ hf => if_pos hf, h⟩

/-- What is declared in a scope of its own is gone with it. -/
theorem inScope (h : Steps whole count action kept) : Steps whole 0 (inScope action) kept where
  idle state hf := (if_pos hf).trans (h.idle state hf)
  run scopes := by
    obtain ⟨result, names, new, fault, hc, hrun⟩ := h.run ([] :: scopes)
    refine ⟨result, [], .closed scopes.length :: new ++ [.opened (scopes.length + 1)], fault,
      ⟨le_rfl, nofun, hc.reason, fun hw _ => hc.through hw (.inr (List.cons_ne_nil _ _))⟩,
      fun events => ?_⟩
    rw [inScope_run (hrun _), Table.extend_nil, List.append_assoc]
    rfl

/-! ### What follows -/

theorem table (h : Steps whole count action kept) (state : WalkState) :
    ∃ names : Scope, names.length ≤ count ∧
      (∀ entry ∈ names, state.table.lookupLocal entry.1 = none) ∧
      (action state).2.table = state.table.extend names := by
  obtain ⟨⟨scopes⟩, events, fault⟩ := state
  cases fault with
  | some fault =>
    rw [h.idle _ rfl]
    exact ⟨[], Nat.zero_le _, nofun, (Table.extend_nil _).symm⟩
  | none =>
    obtain ⟨result, names, new, fault, hc, hrun⟩ := h.run scopes
    rw [hrun]
    exact ⟨names, hc.few, hc.fresh, rfl⟩

theorem table_eq (h : Steps whole 0 action kept) (state : WalkState) :
    (action state).2.table = state.table := by
  obtain ⟨names, hfew, -, htable⟩ := h.table state
  obtain rfl : names = [] := List.eq_nil_of_length_eq_zero (Nat.le_zero.1 hfew)
  rw [htable, Table.extend_nil]

theorem fault_ne_depth (h : Steps whole count action kept) (state : WalkState)
    (hf : state.fault = none) (n : Nat) : (action state).2.fault ≠ some (.depth n) := by
  obtain ⟨⟨scopes⟩, events, fault⟩ := state
  obtain rfl : fault = none := hf
  obtain ⟨result, names, new, fault, hc, hrun⟩ := h.run scopes
  rw [hrun]
  exact hc.reason n

/-- Where a scope is open, the walk over a well-formed part of a program goes through. What it
gives, what becomes of the innermost scope and what happens depend on the scopes alone. -/
theorem settles (h : Steps whole count action kept) (hw : whole) (scope : Scope)
    (scopes : List Scope) :
    ∃ result inner new, ∀ events, action ⟨⟨scope :: scopes⟩, events, none⟩ =
      (result, ⟨⟨inner :: scopes⟩, new ++ events, none⟩) := by
  obtain ⟨result, names, new, fault, hc, hrun⟩ := h.run (scope :: scopes)
  obtain rfl : fault = none := hc.through hw (.inr (List.cons_ne_nil _ _))
  exact ⟨result, scope ++ names, new, hrun⟩

/-- What needs no scope goes through without one. -/
theorem fault_eq (h : Steps whole 0 action kept) (hw : whole) (state : WalkState) :
    (action state).2.fault = state.fault := by
  obtain ⟨⟨scopes⟩, events, fault⟩ := state
  cases fault with
  | some fault => rw [h.idle _ rfl]
  | none =>
    obtain ⟨result, names, new, fault, hc, hrun⟩ := h.run scopes
    rw [hrun]
    exact hc.through hw (.inl rfl)

/-- What adds no names leaves the table as it is. -/
theorem unchanged (h : Steps whole 0 action kept) (hw : whole) (table : Table) :
    Reports action table fun _ _ after => after = table := by
  obtain ⟨scopes⟩ := table
  obtain ⟨result, names, new, fault, hc, hrun⟩ := h.run scopes
  obtain rfl : names = [] := List.eq_nil_of_length_eq_zero (Nat.le_zero.1 hc.few)
  obtain rfl : fault = none := hc.through hw (.inl rfl)
  rw [Table.extend_nil] at hrun
  exact .of_run new hrun rfl

end Steps

/-- What is known of all results of an action is known of this one. -/
theorem Reports.yields {action : Walk α} {table : Table} {known : α → Prop}
    {post : α → List Diagnostic → Table → Prop} (h : Reports action table post)
    (hk : Yields action known) :
    Reports action table fun result errors after => known result ∧ post result errors after := by
  intro events
  obtain ⟨result, errors, after, later, hrun, hrep, hpost⟩ := h events
  have hresult := hk.result ⟨table, events, none⟩
  rw [hrun] at hresult
  exact ⟨result, errors, after, later, hrun, hrep, hresult, hpost⟩

theorem Runs.yields {action : Walk α} {table : Table} {errors : List Diagnostic}
    {known : α → Prop} {post : α → Table → Prop} (h : Runs action table errors post)
    (hk : Yields action known) :
    Runs action table errors fun result after => known result ∧ post result after :=
  (Reports.yields h hk).mono fun _ _ _ ⟨hknown, he, hpost⟩ => ⟨he, hknown, hpost⟩

theorem note_steps (event : Event) : Steps whole 0 (note event) () :=
  .unlessFaulted fun scopes =>
    ⟨(), [], [event], none, .nothing, fun _ => by rw [Table.extend_nil]; rfl⟩

theorem report_steps (id : Ident) (misuse : Misuse) : Steps whole 0 (report id misuse) () :=
  note_steps _

theorem fail_steps {fault : Fault} (hw : ¬ whole) (hf : ∀ n, fault ≠ .depth n) :
    Steps whole 0 (fail fault) () := by
  refine .unlessFaulted fun scopes => ⟨(), [], [], some fault, ⟨le_rfl, nofun, fun n => ?_,
    (absurd · hw)⟩, fun _ => by rw [Table.extend_nil]; rfl⟩
  exact mt Option.some.inj (hf n)

theorem remark_steps {remark : Remark} (hw : whole → ∀ fault, remark ≠ .fault fault)
    (hf : ∀ n, remark ≠ .fault (.depth n)) : Steps whole 0 (Walk.remark remark) () := by
  cases remark with
  | nothing => exact .pure ()
  | misuse id misuse => exact report_steps id misuse
  | fault fault => exact fail_steps (fun h => hw h fault rfl) fun n => mt (congrArg _) (hf n)

theorem look_steps {kept : α} {answer : Table → α × Remark}
    (hw : whole → ∀ table fault, (answer table).2 ≠ .fault fault)
    (hf : ∀ table n, (answer table).2 ≠ .fault (.depth n)) :
    Steps whole 0 (look kept answer) kept :=
  .unlessFaulted fun scopes =>
    let table : Table := ⟨scopes⟩
    have hremark := remark_steps (fun h => hw h table) (hf table)
    (hremark.last (f := fun _ => (answer table).1)).run scopes

theorem resolve_steps (id : Ident) : Steps whole 0 (resolve id) (id, none) :=
  look_steps (fun _ _ _ => by split <;> nofun) fun _ _ => by split <;> nofun

theorem resolveTag_steps (tag : Ident) : Steps whole 0 (resolveTag tag) (tag, none) :=
  look_steps (fun _ _ _ => by split <;> nofun) fun _ _ => by split <;> nofun

theorem resolveStray_steps (thing : Stray) (given : Option Symbol) :
    Steps False 0 (resolveStray thing given) given := by
  refine look_steps False.elim fun _ n => ?_
  split
  next hname =>
    rw [Stray.name_eq_error hname]
    nofun
  next =>
    split
    · nofun
    · exact thing.remark_ne_depth _ n

theorem enter_ne_fault (scope : Scope) (id : Ident) (symbol : Option Symbol) (fault : Fault) :
    (scope.enter id symbol).2 ≠ .fault fault := by
  obtain ⟨errors, h⟩ := scope.enter_errors? id symbol
  intro hfault
  rw [hfault] at h
  cases h

theorem bindMember_steps (members : Scope) (id : Ident) (symbol : Option Symbol) :
    Steps whole 0 (bindMember members id symbol) (id, members) :=
  look_steps (fun _ _ => enter_ne_fault members id symbol) fun _ _ =>
    enter_ne_fault members id symbol _

theorem bind_steps (id : Ident) (symbol : Option Symbol) :
    Steps whole 1 (Walk.bind id symbol) id := by
  refine .unlessFaulted fun scopes => ?_
  cases scopes with
  | nil =>
    have hnone : Comes whole 1 [] [] none := ⟨Nat.zero_le 1, nofun, nofun, fun _ _ => rfl⟩
    cases symbol with
    | none => exact ⟨_, [], [], none, hnone, fun _ => rfl⟩
    | some symbol =>
      refine ⟨_, [], [], some _, ⟨Nat.zero_le 1, nofun, by simp, fun _ hroom => ?_⟩, fun _ => rfl⟩
      simp at hroom
  | cons scope scopes =>
    obtain ⟨names, hlen, hfresh, hscope⟩ := scope.enter_scope id symbol
    obtain ⟨new, -, hrun⟩ := bind_entered scope scopes id symbol
    rw [hscope] at hrun
    exact ⟨_, names, new, none, ⟨hlen, hfresh, nofun, fun _ _ => rfl⟩, hrun⟩

end Walk

open Walk

/-! ## Expressions -/

theorem narrow_steps (object : Expr) (base : Option Symbol) (field : Ident)
    (old : Option Symbol) :
    Steps object.WellFormed 0 (narrow object base field old) (field, old, none) := by
  refine look_steps (fun h _ fault => ?_) fun _ n => ?_
  · split
    · split <;> nofun
    · rw [h.blames]
      nofun
  · split
    · split <;> nofun
    · exact object.blame?_ne_depth nofun

theorem narrowStray_steps (object : Expr) (base : Option Symbol) (field : Stray)
    (given old : Option Symbol) :
    Steps False 0 (narrowStray object base field given old) (given, old, none) := by
  refine look_steps False.elim fun _ n => ?_
  split
  · split
    next hname =>
      rw [Stray.name_eq_error hname]
      nofun
    next =>
      split
      · nofun
      · exact field.remark_ne_depth _ n
  · exact object.blame?_ne_depth (field.remark_ne_depth _ n)

mutual

theorem Expr.resolve_steps : ∀ expr : Expr, Steps expr.WellFormed 0 expr.resolve (expr, none)
  | .int .. | .str .. | .bool .. => .pure _
  | .name id => (Walk.resolve_steps id).last
  | .dot object field symbol => by
    have hobject : Steps object.WellFormed 0 object.resolve (object, none) := object.resolve_steps
    exact hobject.afterOf object.resolve_wellFormed fun _ hw =>
      ((narrow_steps _ _ field symbol).mono hw.2).last
  | .assign target value =>
    (target.resolve_steps.mono And.left).after fun _ => (value.resolve_steps.mono And.right).last
  | .call callee args =>
    (Walk.resolve_steps callee).after fun _ => (Expr.resolveAll_steps args).last
  | .unary _ operand => operand.resolve_steps.last
  | .binary _ left right =>
    (left.resolve_steps.mono And.left).after fun _ => (right.resolve_steps.mono And.right).last
  | .strayDot object field given symbol =>
    (object.resolve_steps.mono False.elim).after fun object =>
      (narrowStray_steps _ _ field given symbol).last
  | .strayCall callee given args =>
    (resolveStray_steps callee given).after fun _ =>
      ((Expr.resolveAll_steps args).mono False.elim).last
  | .stray _ => (fail_steps id (by simp)).last

theorem Expr.resolveAll_steps : ∀ exprs : List Expr,
    Steps (Expr.WellFormedAll exprs) 0 (Expr.resolveAll exprs) exprs
  | [] => .pure _
  | expr :: exprs =>
    (expr.resolve_steps.mono And.left).after fun _ =>
      ((Expr.resolveAll_steps exprs).mono And.right).last

end

/-! ## Variables -/

/-- A type is given back, whatever symbol comes with it. -/
theorem TypeExpr.resolve_steps (origin : Origin) (id : Ident) (type : TypeExpr) :
    ∃ symbol, Steps type.WellFormed 0 (type.resolve origin id) (type, symbol) := by
  cases type with
  | primitive name =>
    simp only [TypeExpr.resolve]
    split
    · exact ⟨_, (report_steps id .voidVariable).last⟩
    · exact ⟨_, .pure _⟩
  | struct tag => exact ⟨_, (resolveTag_steps tag).last⟩
  | stray thing => exact ⟨_, (fail_steps (fun h => h) (by simp)).last⟩

theorem Decl.analyzeVariable_steps (origin : Origin) (decl : Decl) :
    Steps (decl.IsVariable ∨ decl.IsFormal) 1 (decl.analyzeVariable origin) decl := by
  cases decl with
  | var type id | formal type id =>
    obtain ⟨symbol, htype⟩ := type.resolve_steps origin id
    exact (htype.mono (by simp [Decl.IsVariable, Decl.IsFormal])).after fun _ =>
      (bind_steps id _).last
  | _ =>
    exact (fail_steps (by simp [Decl.IsVariable, Decl.IsFormal]) (by simp)).last.le (Nat.zero_le 1)

theorem Decl.analyzeVariables_steps (path : Origin) (part : Part) (decls : List Decl)
    (index : Nat) :
    Steps (∀ decl ∈ decls, decl.IsVariable ∨ decl.IsFormal) decls.length
      (Decl.analyzeVariables path part index decls) decls := by
  induction decls generalizing index with
  | nil => exact .pure _
  | cons decl decls ih =>
    rw [List.length_cons, Nat.add_comm]
    exact ((decl.analyzeVariable_steps _).mono fun h => h decl List.mem_cons_self).bind fun _ =>
      ((ih (index + 1)).mono fun h => (List.forall_mem_cons.1 h).2).last

theorem Decl.analyzeField_steps (origin : Origin) (members : Scope) (field : Decl) :
    Steps field.IsVariable 0 (field.analyzeField origin members) (field, members) := by
  cases field with
  | var type id | formal type id =>
    obtain ⟨symbol, htype⟩ := type.resolve_steps origin id
    exact (htype.mono (by simp [Decl.IsVariable])).after fun _ =>
      (bindMember_steps members id _).last
  | _ => exact (fail_steps (by simp [Decl.IsVariable]) (by simp)).last

theorem Decl.analyzeFields_steps (path : Origin) (fields : List Decl) (index : Nat)
    (members : Scope) :
    Steps (∀ field ∈ fields, field.IsVariable) 0 (Decl.analyzeFields path index members fields)
      (fields, members) := by
  induction fields generalizing index members with
  | nil => exact .pure _
  | cons field fields ih =>
    exact ((field.analyzeField_steps _ members).mono fun h => h field List.mem_cons_self).after
      fun _ => ((ih (index + 1) _).mono fun h => (List.forall_mem_cons.1 h).2).last

/-! ## Statements -/

/-- The declarations and statements of a block, whatever is made of them. -/
theorem block_steps {γ : Type} {whole : Prop} (path : Origin) (inDecls inStmts : Part)
    {decls : List Decl} {stmts : List Stmt} (make : List Decl → List Stmt → γ)
    (hd : whole → ∀ decl ∈ decls, decl.IsVariable)
    (hs : Steps whole 0 (Stmt.analyzeAll path inStmts 0 stmts) stmts) :
    Steps whole decls.length (do
      let decls ← Decl.analyzeVariables path inDecls 0 decls
      let stmts ← Stmt.analyzeAll path inStmts 0 stmts
      pure (make decls stmts)) (make decls stmts) :=
  ((Decl.analyzeVariables_steps path inDecls decls 0).mono fun h decl hm =>
    .inl (hd h decl hm)).bind fun _ => hs.last

mutual

theorem Stmt.analyze_steps (path : Origin) : ∀ stmt : Stmt,
    Steps stmt.WellFormed 0 (stmt.analyze path) stmt
  | .assign expr | .increment expr | .decrement expr | .read expr | .write expr | .call expr
  | .returnValue expr => expr.resolve_steps.last
  | .ifThen condition decls stmts | .loop condition decls stmts =>
    (condition.resolve_steps.mono And.left).after fun _ => .inScope <|
      block_steps path .decls .stmts _ (fun h => h.2.1)
        ((Stmt.analyzeAll_steps path .stmts stmts 0).mono fun h => h.2.2)
  | .ifElse condition thenDecls thenStmts elseDecls elseStmts =>
    (condition.resolve_steps.mono And.left).after fun _ =>
      (block_steps path .decls .stmts Prod.mk (fun h => h.2.1.1)
        ((Stmt.analyzeAll_steps path .stmts thenStmts 0).mono fun h => h.2.1.2)).inScope.after
      fun _ => .inScope <|
        block_steps path .elseDecls .elseStmts _ (fun h => h.2.2.1)
          ((Stmt.analyzeAll_steps path .elseStmts elseStmts 0).mono fun h => h.2.2.2)
  | .returnNothing => .pure _
  | .stray _ => (fail_steps (fun h => h) (by simp)).last

theorem Stmt.analyzeAll_steps (path : Origin) (part : Part) : ∀ (stmts : List Stmt) (index : Nat),
    Steps (Stmt.WellFormedAll stmts) 0 (Stmt.analyzeAll path part index stmts) stmts
  | [], _ => .pure _
  | stmt :: stmts, index =>
    ((Stmt.analyze_steps _ stmt).mono And.left).after fun _ =>
      ((Stmt.analyzeAll_steps path part stmts (index + 1)).mono And.right).last

end

/-! ## Declarations at top level -/

theorem TypeExpr.resolveReturn_steps {whole : Prop} (returns : TypeExpr) :
    Steps whole 0 returns.resolveReturn returns := by
  cases returns with
  | struct tag => exact (resolveTag_steps tag).last
  | _ => exact .pure _

theorem bindFunction_steps (origin : Origin) (id : Ident) (returns : TypeExpr)
    (formals : List Decl) :
    Steps (returns.WellFormed ∧ ∀ formal ∈ formals, formal.IsFormal) 1
      (bindFunction origin id returns formals) id := by
  unfold bindFunction
  cases hs : functionSymbol origin returns formals with
  | ok symbol => exact (bind_steps id _).bind fun bound => (note_steps (.entered bound.name)).last
  | error fault =>
    refine (fail_steps (fun ⟨hr, hf⟩ => ?_) (functionSymbol_ne_depth hs)).last.le (Nat.zero_le 1)
    obtain ⟨name, params, hok⟩ := functionSymbol_isOk origin returns formals hr hf
    rw [hs] at hok
    cases hok

theorem Decl.analyze_steps (origin : Origin) (decl : Decl) :
    Steps decl.WellFormed 1 (decl.analyze origin) decl := by
  cases decl with
  | var type id => exact (Decl.analyzeVariable_steps origin (.var type id)).mono .inl
  | function returns id formals decls stmts =>
    have hformals := (Decl.analyzeVariables_steps origin .formals formals 0).mono
      fun (h : (Decl.function returns id formals decls stmts).WellFormed) formal hm =>
        .inr (h.2.1 formal hm)
    have hbody (make : List Decl → List Stmt → Decl) :=
      block_steps origin .decls .stmts make
        (fun h : (Decl.function returns id formals decls stmts).WellFormed => h.2.2.1)
        ((Stmt.analyzeAll_steps origin .stmts stmts 0).mono fun h => h.2.2.2)
    exact returns.resolveReturn_steps.afterOf returns.resolveReturn_wellFormed fun _ hw =>
      ((bindFunction_steps origin id _ formals).mono fun h => ⟨hw.2 h.1, h.2.1⟩).bind fun _ =>
        (hformals.bind fun _ => hbody _).inScope
  | struct tag fields =>
    exact (Decl.analyzeFields_steps origin fields 0 []).after fun _ => (bind_steps tag _).last
  | _ => exact (fail_steps (fun h => h) (by simp)).last.le (Nat.zero_le 1)

theorem Decl.analyzeAll_steps (decls : List Decl) (clock : Nat) :
    Steps (∀ decl ∈ decls, decl.WellFormed) decls.length (Decl.analyzeAll clock decls) decls := by
  induction decls generalizing clock with
  | nil => exact .pure _
  | cons decl decls ih =>
    rw [List.length_cons, Nat.add_comm]
    exact ((decl.analyze_steps _).mono fun h => h decl List.mem_cons_self).bind fun _ =>
      ((ih (clock + 1)).mono fun h => (List.forall_mem_cons.1 h).2).last

end Moo
