import Mathlib.Order.Bounds.Defs
import Moo.Proofs.Names.Sites
import Moo.Proofs.Names.Walk

/-!
# Chains of field accesses

A chain is a name and any number of accesses behind it. Its base is looked up
in the table, and each field among the members of what stands in front of
its dot. The first symbol that is no struct's, or is missing, ends this: all
dots further right are wrong.

* `Chain.symbol?`: the symbols along a chain, said without the walk.
* `Chain.diagnostics`: what is wrong with a chain, from the left to the right.
* `chain_resolved`: resolving a chain, on any table.
-/
namespace Moo

/-- A field behind a dot, and the symbol of the whole access. -/
structure Access where
  field : Ident
  symbol : Option Symbol

/-- A name and the accesses behind it, leftmost first. -/
structure Chain where
  base : Ident
  accesses : List Access

/-- Whether a symbol is that of a name that holds a struct. -/
def holdsStruct : Option Symbol → Prop
  | some (.structValue ..) => True
  | _ => False

namespace Access

/-- The field and the access get a symbol, if there is one. -/
def resolved (access : Access) : Option Symbol → Access
  | some symbol => ⟨{ access.field with symbol := some symbol }, some symbol⟩
  | none => access

end Access

namespace Chain

def length (chain : Chain) : Nat :=
  chain.accesses.length

def expr (chain : Chain) : Expr :=
  chain.accesses.foldl (fun object access => .dot object access.field access.symbol)
    (.name chain.base)

/-- The names of a chain, counted from its base. -/
def name (chain : Chain) (i : Nat) : Ident :=
  ((chain.base :: chain.accesses.map Access.field)[i]?).getD chain.base

/-- What the first `i` accesses lead to: each is a member of what the ones before it lead to. -/
def symbol? (chain : Chain) (table : Table) (i : Nat) : Option Symbol :=
  (chain.accesses.take i).foldl (fun symbol access => symbol.bind (·.member? access.field.name))
    (table.lookup chain.base.name)

/-- The chain with the symbols of its base and of its first `stop` accesses. -/
def resolved (chain : Chain) (table : Table) (stop : Nat) : Chain where
  base := { chain.base with symbol := chain.symbol? table 0 }
  accesses := chain.accesses.mapIdx fun i access =>
    if i < stop then access.resolved (chain.symbol? table (i + 1)) else access

/-- What is wrong with a chain whose accesses lead on up to `stop`: that nothing is found there, and
every dot behind it. -/
def diagnostics (chain : Chain) (table : Table) (stop : Nat) : List Diagnostic :=
  (if (chain.symbol? table stop).isNone then
    [.about (chain.name stop) (if stop = 0 then .undeclared else .unknownField)] else []) ++
  (List.range' stop (chain.length - stop)).map fun i => .about (chain.name i) .notAStruct

/-- The first place where no further access can lead on. -/
def IsStop (chain : Chain) (table : Table) : Nat → Prop :=
  IsLeast {i | i = chain.length ∨ ¬ holdsStruct (chain.symbol? table i)}

/-- One more access behind the others. -/
def snoc (chain : Chain) (access : Access) : Chain :=
  { chain with accesses := chain.accesses ++ [access] }

variable (chain : Chain) (access : Access) (table : Table)

@[simp]
theorem length_snoc : (chain.snoc access).length = chain.length + 1 := by
  simp [length, snoc]

@[simp]
theorem expr_snoc : (chain.snoc access).expr = .dot chain.expr access.field access.symbol := by
  simp [expr, snoc]

theorem name_snoc {i : Nat} (h : i ≤ chain.length) :
    (chain.snoc access).name i = chain.name i := by
  cases i with
  | zero => rfl
  | succ i =>
    have hi : i < chain.accesses.length := h
    simp [name, snoc, List.getElem?_append_left, hi]

@[simp]
theorem name_snoc_last : (chain.snoc access).name (chain.length + 1) = access.field := by
  simp [name, snoc, length]

theorem symbol?_snoc {i : Nat} (h : i ≤ chain.length) :
    (chain.snoc access).symbol? table i = chain.symbol? table i := by
  have hi : i ≤ chain.accesses.length := h
  simp only [symbol?, snoc, List.take_append_of_le_length hi]

/-- The last access leads to a member of what the others lead to. -/
theorem symbol?_snoc_last : (chain.snoc access).symbol? table (chain.length + 1) =
    (chain.symbol? table chain.length).bind (·.member? access.field.name) := by
  have hall : (chain.accesses ++ [access]).take (chain.accesses.length + 1) =
      chain.accesses ++ [access] :=
    List.take_of_length_le (by simp)
  simp [symbol?, snoc, length, hall]

theorem resolved_snoc {stop : Nat} (h : stop ≤ chain.length) :
    (chain.snoc access).resolved table stop = (chain.resolved table stop).snoc access := by
  have hfront : ∀ i a, (if i < stop then
        a.resolved ((chain.snoc access).symbol? table (i + 1)) else a : Access) =
      if i < stop then a.resolved (chain.symbol? table (i + 1)) else a := by
    intro i a
    split
    · rw [symbol?_snoc chain access table (by omega)]
    · rfl
  have hlast : ¬ chain.accesses.length < stop := Nat.not_lt.2 h
  simp only [resolved, hfront, symbol?_snoc chain access table (Nat.zero_le _)]
  simp [snoc, hlast]

/-- Where all accesses lead on, the last one gets its symbol too. -/
theorem resolved_snoc_last : (chain.snoc access).resolved table (chain.length + 1) =
    (chain.resolved table chain.length).snoc
      (access.resolved ((chain.snoc access).symbol? table (chain.length + 1))) := by
  have hfront : chain.accesses.mapIdx (fun i a => if i < chain.length + 1 then
        a.resolved ((chain.snoc access).symbol? table (i + 1)) else a) =
      chain.accesses.mapIdx fun i a => if i < chain.length then
        a.resolved (chain.symbol? table (i + 1)) else a := by
    refine List.ext_getElem? fun i => ?_
    simp only [List.getElem?_mapIdx]
    by_cases hi : i < chain.accesses.length
    · have hi' : i < chain.length := hi
      simp only [Nat.lt_succ_of_lt hi', hi', if_true, symbol?_snoc chain access table hi']
    · simp [List.getElem?_eq_none (Nat.not_lt.1 hi)]
  have hlast : (chain.snoc access).accesses = chain.accesses ++ [access] := rfl
  simp only [resolved, hlast, List.mapIdx_concat, hfront,
    symbol?_snoc chain access table (Nat.zero_le _)]
  simp [snoc, length]

theorem loc_name_resolved (stop i : Nat) :
    ((chain.resolved table stop).name i).loc = (chain.name i).loc := by
  have hstep (access : Access) (symbol : Option Symbol) :
      (access.resolved symbol).field.loc = access.field.loc := by
    cases symbol <;> rfl
  cases i with
  | zero => rfl
  | succ i =>
    simp only [name, resolved, List.getElem?_cons_succ, List.getElem?_map, List.getElem?_mapIdx]
    cases chain.accesses[i]? with
    | none => rfl
    | some access =>
      simp only [Option.map_some, Option.getD_some]
      split
      · exact hstep access _
      · rfl

/-- The name at the right end. -/
theorem lastIdent?_expr : chain.expr.lastIdent? = some (chain.name chain.length) := by
  obtain ⟨base, accesses⟩ := chain
  induction accesses using List.reverseRecOn with
  | nil => rfl
  | append_singleton front access =>
    have hsnoc : Chain.mk base (front ++ [access]) = (Chain.mk base front).snoc access := rfl
    rw [hsnoc, expr_snoc, length_snoc, name_snoc_last]
    rfl

end Chain

/-! ## Where a chain stops -/

namespace Chain.IsStop

variable {chain : Chain} {table : Table} {stop : Nat}

theorem le (h : chain.IsStop table stop) : stop ≤ chain.length :=
  h.2 (.inl rfl)

/-- Behind a place that leads nowhere nothing changes that. -/
theorem stay (h : chain.IsStop table stop) (hs : ¬ holdsStruct (chain.symbol? table stop))
    (access : Access) : (chain.snoc access).IsStop table stop := by
  refine ⟨.inr (by rwa [symbol?_snoc chain access table h.le]), fun i hi => ?_⟩
  by_contra hlt
  have hle : i ≤ chain.length := by have := h.le; omega
  rcases hi with hi | hi
  · rw [length_snoc] at hi
    omega
  · rw [symbol?_snoc chain access table hle] at hi
    exact hlt (h.2 (.inr hi))

/-- A place that leads on is the end of the chain, and so one more access leads to its new end. -/
theorem advance (h : chain.IsStop table stop) (hs : holdsStruct (chain.symbol? table stop))
    (access : Access) :
    stop = chain.length ∧ (chain.snoc access).IsStop table (chain.length + 1) := by
  obtain rfl : stop = chain.length := h.1.resolve_right fun hn => hn hs
  refine ⟨rfl, .inl (length_snoc chain access).symm, fun i hi => ?_⟩
  by_contra hlt
  have hle : i ≤ chain.length := by omega
  rcases hi with hi | hi
  · rw [length_snoc] at hi
    omega
  · rw [symbol?_snoc chain access table hle] at hi
    have hend : i = chain.length := le_antisymm hle (h.2 (.inr hi))
    exact hi (hend ▸ hs)

end Chain.IsStop

namespace Chain

variable (chain : Chain) (access : Access) (table : Table)

/-- A dot behind a chain that has stopped is wrong too. -/
theorem diagnostics_stay {stop : Nat} (h : stop ≤ chain.length) :
    (chain.snoc access).diagnostics table stop =
      chain.diagnostics table stop ++ [.about (chain.name chain.length) .notAStruct] := by
  have hcount : chain.length + 1 - stop = (chain.length - stop) + 1 := by omega
  have hend : stop + (chain.length - stop) = chain.length := by omega
  have hnames : (List.range' stop (chain.length - stop)).map
        (fun i => Diagnostic.about ((chain.snoc access).name i) .notAStruct) =
      (List.range' stop (chain.length - stop)).map fun i => .about (chain.name i) .notAStruct := by
    refine List.map_congr_left fun i hi => ?_
    rw [name_snoc chain access]
    have := List.mem_range'_1.1 hi
    omega
  rw [diagnostics, diagnostics, length_snoc, hcount, List.range'_1_concat, List.map_append, hnames,
    hend, symbol?_snoc chain access table h, name_snoc chain access h]
  simp [name_snoc chain access le_rfl]

/-- A chain that leads on up to its end has nothing wrong. -/
theorem diagnostics_whole (h : holdsStruct (chain.symbol? table chain.length)) :
    chain.diagnostics table chain.length = [] := by
  cases hs : chain.symbol? table chain.length with
  | none => exact (hs ▸ h).elim
  | some symbol => simp [diagnostics, hs]

theorem diagnostics_advance : (chain.snoc access).diagnostics table (chain.length + 1) =
    if ((chain.snoc access).symbol? table (chain.length + 1)).isNone then
      [.about access.field .unknownField] else [] := by
  simp [diagnostics]

end Chain

/-! ## Resolving a chain -/

section

variable {object : Expr} {base : Option Symbol} (access : Access) (table : Table)
  (events : List Event)

/-- A step behind something that ends in a name, but is no struct. -/
theorem narrow_astray {last : Ident} (hl : object.lastIdent? = some last)
    (h : ¬ holdsStruct base) :
    narrow object base access.field access.symbol ⟨table, events, none⟩ =
      ((access.field, access.symbol, none), ⟨table,
        .reported (.about last .notAStruct) :: events, none⟩) := by
  have hblame : object.blame? = some (.misuse last .notAStruct) := by
    cases object with
    | name | dot => cases hl; rfl
    | _ => cases hl
  rcases base with _ | _ | _ | _ | _
  case some.structValue => exact absurd trivial h
  all_goals
    simp only [narrow, hblame]
    rfl

/-- A step behind a struct. -/
theorem narrow_inside {found : Option Symbol} (h : holdsStruct base)
    (hf : base.bind (·.member? access.field.name) = found) :
    narrow object base access.field access.symbol ⟨table, events, none⟩ =
      (((access.resolved found).field, (access.resolved found).symbol, found), ⟨table,
        (if found.isNone then [.reported (.about access.field .unknownField)] else []) ++ events,
        none⟩) := by
  subst hf
  rcases base with _ | _ | _ | _ | ⟨origin, type, definition⟩
  case some.structValue =>
    cases hf : Scope.find? definition.members access.field.name with
    | none =>
      simp only [narrow, Option.bind_some, Symbol.member?, hf]
      rfl
    | some symbol =>
      simp only [narrow, Option.bind_some, Symbol.member?, hf]
      rfl
  all_goals exact h.elim

end

/-- A name is looked up, and reported if it is not found. -/
theorem Walk.resolve_run (id : Ident) (table : Table) (events : List Event) :
    Walk.resolve id ⟨table, events, none⟩ =
      (({ id with symbol := table.lookup id.name }, table.lookup id.name), ⟨table,
        (if (table.lookup id.name).isNone then [.reported (.about id .undeclared)] else []) ++ events,
        none⟩) := by
  rw [Walk.resolve, Walk.look_eq]
  cases table.lookup id.name <;> rfl

/-- Resolving one more dot behind an expression. -/
theorem Expr.resolve_dot {object before : Expr} {base denoted : Option Symbol}
    {access next : Access} {state after last : WalkState}
    (h : object.resolve state = ((before, base), after))
    (hn : narrow before base access.field access.symbol after =
      ((next.field, next.symbol, denoted), last)) :
    (Expr.dot object access.field access.symbol).resolve state =
      ((.dot before next.field next.symbol, denoted), last) := by
  rw [Expr.resolve]
  exact (Walk.bind_run h).trans ((Walk.bind_run hn).trans rfl)

/-- A chain of field accesses is resolved up to the first symbol that is no struct's, on any table.
The base and each access up to there get the symbols that are found, and nothing else gets one. What
is reported is that the last of these is missing, if it is, and then every dot behind it, from left to
right. The chain denotes the symbol at its end, if that is where it stops. -/
theorem chain_resolved (chain : Chain) (table : Table) (events : List Event) :
    ∃ stop, chain.IsStop table stop ∧ chain.expr.resolve ⟨table, events, none⟩ =
      (((chain.resolved table stop).expr,
        if stop = chain.length then chain.symbol? table chain.length else none),
      ⟨table, ((chain.diagnostics table stop).map .reported).reverse ++ events, none⟩) := by
  obtain ⟨base, accesses⟩ := chain
  induction accesses using List.reverseRecOn with
  | nil =>
    refine ⟨0, ⟨.inl rfl, fun _ _ => Nat.zero_le _⟩, ?_⟩
    show (Expr.name base).resolve ⟨table, events, none⟩ = _
    rw [Expr.resolve, Walk.bind_run (Walk.resolve_run base table events)]
    show ((_, table.lookup base.name), _) = ((_, table.lookup base.name), _)
    have hsymbol : (Chain.mk base []).symbol? table 0 = table.lookup base.name := rfl
    have hexpr : ((Chain.mk base []).resolved table 0).expr =
        .name { base with symbol := table.lookup base.name } := rfl
    simp only [Chain.diagnostics, hsymbol, hexpr, if_true]
    cases table.lookup base.name <;> rfl
  | append_singleton front access ih =>
    have hsnoc : Chain.mk base (front ++ [access]) = (Chain.mk base front).snoc access := rfl
    rw [hsnoc]
    generalize Chain.mk base front = chain at ih ⊢
    obtain ⟨stop, hstop, hrun⟩ := ih
    rw [Chain.expr_snoc]
    by_cases hs : holdsStruct (chain.symbol? table stop)
    · -- the chain has led on so far
      obtain ⟨rfl, hstop'⟩ := hstop.advance hs access
      refine ⟨_, hstop', ?_⟩
      rw [chain.diagnostics_whole table hs, if_pos rfl] at hrun
      have hfound := (chain.symbol?_snoc_last access table).symm
      refine (Expr.resolve_dot hrun (narrow_inside access table _ hs hfound)).trans ?_
      rw [chain.resolved_snoc_last access, Chain.expr_snoc, chain.diagnostics_advance access,
        Chain.length_snoc, if_pos rfl]
      cases (chain.snoc access).symbol? table (chain.length + 1) <;> rfl
    · refine ⟨stop, hstop.stay hs access, ?_⟩
      have hbase : ¬ holdsStruct
          (if stop = chain.length then chain.symbol? table chain.length else none) := by
        split
        · next heq => exact heq ▸ hs
        · exact id
      have hlast : Diagnostic.about ((chain.resolved table stop).name
          (chain.resolved table stop).length) .notAStruct =
            .about (chain.name chain.length) .notAStruct := by
        have hlength : (chain.resolved table stop).length = chain.length := by
          simp [Chain.length, Chain.resolved]
        rw [hlength, Diagnostic.about, chain.loc_name_resolved]
        rfl
      refine (Expr.resolve_dot hrun
        (narrow_astray access table _ (Chain.lastIdent?_expr _) hbase)).trans ?_
      rw [chain.resolved_snoc access table hstop.le, Chain.expr_snoc,
        chain.diagnostics_stay access table hstop.le, hlast, Chain.length_snoc,
        if_neg (by have := hstop.le; omega)]
      simp

end Moo
