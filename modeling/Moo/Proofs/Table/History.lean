import Moo.Table
import Mathlib.Data.List.Basic
import Mathlib.Data.List.Induction

/-!
# The table and the history of its calls

Nothing of how a table is stored shows: whatever was asked of it so far, also
in vain, it answers as the history of the calls says.

The history knows of no scopes, only of how many were open after each call. A
binding counts for as long as the number of open scopes has not fallen below
what it was when the binding was made: only then has its scope been closed.

* `History.InForce`: a binding that was made, in a scope that is open still.
* `History.bindings`: all those at one depth, in the order in which they were
  made.
* `Tells.serve`: one more call. The scopes of a table stay the bindings of
  the history.
* `Recalls`: what a table answers, by its history.
* `table_recalls`: so does every table, whatever was asked of it before; and
  what is done in a scope of its own leaves no trace.
-/
namespace Moo

/-! ## Calls and answers -/

namespace Table

inductive Call
  | push
  | pop
  | declare (name : String) (symbol : Symbol)
  | lookupLocal (name : String)
  | lookup (name : String)

inductive Answer
  | done
  /-- The scope that was closed. -/
  | closed (scope : Scope)
  | found (symbol : Option Symbol)
  | refused (error : TableError)

/-- The answer to a call, and the table afterwards. -/
def serve (table : Table) : Call → Answer × Table
  | .push => (.done, table.push)
  | .pop =>
    match table.pop with
    | .ok (scope, table) => (.closed scope, table)
    | .error error => (.refused error, table)
  | .declare name symbol =>
    match table.declare name symbol with
    | .ok table => (.done, table)
    | .error error => (.refused error, table)
  | .lookupLocal name => (.found (table.lookupLocal name), table)
  | .lookup name => (.found (table.lookup name), table)

end Table

/-- Calls and the answers to them, oldest first. -/
abbrev History := List (Table.Call × Table.Answer)

/-- The history of these calls, and the table after them. -/
def Table.serveAll (table : Table) : List Table.Call → History × Table
  | [] => ([], table)
  | call :: calls =>
    let first := table.serve call
    let others := first.2.serveAll calls
    ((call, first.1) :: others.1, others.2)

theorem Table.serveAll_append (table : Table) (before calls : List Table.Call) :
    table.serveAll (before ++ calls) =
      ((table.serveAll before).1 ++ ((table.serveAll before).2.serveAll calls).1,
        ((table.serveAll before).2.serveAll calls).2) := by
  induction before generalizing table with
  | nil => rfl
  | cons call before ih => simp [serveAll, ih]

theorem Table.serveAll_length (table : Table) (calls : List Table.Call) :
    (table.serveAll calls).1.length = calls.length := by
  induction calls generalizing table with
  | nil => rfl
  | cons call calls ih => simp [serveAll, ih]

/-! ## What a history says -/

namespace History

open Table (Call Answer)

/-- How a call changes the number of open scopes. -/
def stepDepth (depth : Nat) : Call × Answer → Nat
  | (.push, .done) => depth + 1
  | (.pop, .closed _) => depth - 1
  | _ => depth

/-- How many scopes are open in the end. A new table has one. -/
def depth (history : History) : Nat :=
  history.foldl stepDepth 1

/-- How many scopes are open after so many calls. -/
def depthAt (history : History) (index : Nat) : Nat :=
  depth (history.take index)

/-- The innermost scope after so many calls is open still. -/
def StillOpen (history : History) (index : Nat) : Prop :=
  ∀ later ≤ history.length, index ≤ later → history.depthAt index ≤ history.depthAt later

instance (history : History) (index : Nat) : Decidable (history.StillOpen index) :=
  inferInstanceAs (Decidable (∀ later ≤ history.length, _ → _))

/-- A name was bound by the call behind so many others, in a scope that is open still. -/
def InForce (history : History) (index : Nat) (name : String) (symbol : Symbol) : Prop :=
  history[index]? = some (.declare name symbol, .done) ∧ history.StillOpen index

/-- The binding that a call made. -/
def made : Call × Answer → Scope
  | (.declare name symbol, .done) => [(name, symbol)]
  | _ => []

theorem nodup_made (event : Call × Answer) : ((made event).map Prod.fst).Nodup := by
  unfold made
  split <;> simp

/-- The bindings in force that were made at one depth, in the order in which they were made. -/
def bindings (history : History) (depth : Nat) : Scope :=
  (List.range history.length).flatMap fun index =>
    if history.depthAt index = depth ∧ history.StillOpen index then
      (history[index]?.map made).getD []
    else []

/-- The bindings at all depths from one on outwards. -/
def scopes (history : History) : Nat → List Scope
  | 0 => []
  | depth + 1 => history.bindings (depth + 1) :: history.scopes depth

variable {history : History} {event : Call × Answer} {index level : Nat}

theorem depthAt_length : history.depthAt history.length = history.depth := by
  rw [depthAt, List.take_length]

theorem depth_snoc : (history ++ [event]).depth = stepDepth history.depth event := by
  simp [depth]

theorem depthAt_snoc (h : index ≤ history.length) :
    (history ++ [event]).depthAt index = history.depthAt index := by
  rw [depthAt, List.take_append_of_le_length h, depthAt]

theorem depthAt_snoc_length :
    (history ++ [event]).depthAt (history.length + 1) = (history ++ [event]).depth := by
  rw [← depthAt_length, List.length_append, List.length_singleton]

theorem StillOpen.le_depth (h : history.StillOpen index) (hi : index ≤ history.length) :
    history.depthAt index ≤ history.depth :=
  depthAt_length ▸ h history.length (Nat.le_refl _) hi

theorem stillOpen_snoc (h : index ≤ history.length) :
    (history ++ [event]).StillOpen index ↔
      history.StillOpen index ∧ history.depthAt index ≤ (history ++ [event]).depth := by
  have hlength : (history ++ [event]).length = history.length + 1 := by simp
  constructor
  · intro hopen
    refine ⟨fun later hl hi => ?_, ?_⟩
    · have hdepth := hopen later (by omega) hi
      rwa [depthAt_snoc h, depthAt_snoc hl] at hdepth
    · have hdepth := hopen (history.length + 1) (by omega) (by omega)
      rwa [depthAt_snoc h, depthAt_snoc_length] at hdepth
  · rintro ⟨hopen, hdepth⟩ later hl hi
    rw [depthAt_snoc h]
    obtain hold | rfl : later ≤ history.length ∨ later = history.length + 1 := by omega
    · rw [depthAt_snoc hold]
      exact hopen later hold hi
    · rwa [depthAt_snoc_length]

/-- The call that comes last is made in the scope that is innermost then. -/
theorem stillOpen_snoc_length :
    (history ++ [event]).StillOpen history.length ↔
      history.depth ≤ (history ++ [event]).depth := by
  rw [stillOpen_snoc (Nat.le_refl _), depthAt_length]
  refine and_iff_right fun later hl hi => ?_
  obtain rfl : later = history.length := Nat.le_antisymm hl hi
  exact Nat.le_refl _

theorem mem_bindings {name : String} {symbol : Symbol} :
    (name, symbol) ∈ history.bindings level ↔
      ∃ index, history.InForce index name symbol ∧ history.depthAt index = level := by
  have hmade (event : Call × Answer) :
      (name, symbol) ∈ made event ↔ event = (.declare name symbol, .done) := by
    unfold made
    split
    · simp [eq_comm]
    · next hno =>
      simp only [List.not_mem_nil, false_iff]
      exact fun he => hno name symbol he
  simp only [bindings, List.mem_flatMap, List.mem_range, InForce]
  constructor
  · rintro ⟨index, hi, hmem⟩
    split at hmem
    · next hat =>
      rw [List.getElem?_eq_getElem hi, Option.map_some, Option.getD_some, hmade] at hmem
      exact ⟨index, ⟨by rw [List.getElem?_eq_getElem hi, hmem], hat.2⟩, hat.1⟩
    · simp at hmem
  · rintro ⟨index, ⟨hget, hopen⟩, hat⟩
    refine ⟨index, (List.getElem?_eq_some_iff.1 hget).1, ?_⟩
    rw [if_pos ⟨hat, hopen⟩, hget, Option.map_some, Option.getD_some, hmade]

/-- No binding is in force in a scope that is not there. -/
theorem bindings_of_lt (h : history.depth < level) : history.bindings level = [] := by
  rw [List.eq_nil_iff_forall_not_mem]
  rintro ⟨name, symbol⟩ hmem
  obtain ⟨index, ⟨hget, hopen⟩, rfl⟩ := mem_bindings.1 hmem
  have hi := (List.getElem?_eq_some_iff.1 hget).1
  exact absurd (hopen.le_depth (Nat.le_of_lt hi)) (Nat.not_le.2 h)

/-- One more call adds to the innermost scope, and only to that. -/
theorem bindings_snoc (h : level ≤ (history ++ [event]).depth) :
    (history ++ [event]).bindings level =
      history.bindings level ++ if history.depth = level then made event else [] := by
  have hlength : (history ++ [event]).length = history.length + 1 := by simp
  simp only [bindings, hlength, List.range_succ, List.flatMap_append, List.flatMap_singleton]
  congr 1
  · refine List.flatMap_congr fun index hi => ?_
    have hi : index < history.length := List.mem_range.1 hi
    rw [depthAt_snoc (Nat.le_of_lt hi), List.getElem?_append_left hi]
    refine if_congr (and_congr_right fun hat => ?_) rfl rfl
    rw [stillOpen_snoc (Nat.le_of_lt hi)]
    exact and_iff_left (hat.symm ▸ h)
  · rw [depthAt_snoc (Nat.le_refl _), depthAt_length]
    refine if_congr (and_iff_left_of_imp fun hat => ?_) (by simp) rfl
    exact stillOpen_snoc_length.2 (hat.symm ▸ h)

/-- While the scope that was innermost is open, the bindings outside of it stay. -/
theorem bindings_outside {rest : History} (hopen : (history ++ rest).StillOpen history.length)
    (hl : level < history.depth) :
    (history ++ rest).bindings level = history.bindings level := by
  induction rest using List.reverseRecOn with
  | nil => rw [List.append_nil]
  | append_singleton rest event ih =>
    rw [← List.append_assoc] at hopen ⊢
    have hwithin : history.length ≤ (history ++ rest).length := by simp
    have hat : (history ++ rest).depthAt history.length = history.depth := by
      rw [depthAt, List.take_left, depth]
    obtain ⟨hrest, hlast⟩ := (stillOpen_snoc hwithin).1 hopen
    have hin := hrest.le_depth hwithin
    rw [hat] at hlast hin
    rw [bindings_snoc (by omega), if_neg (by omega), List.append_nil, ih hrest]

theorem scopes_congr {other : History} {depth : Nat}
    (h : ∀ level ≤ depth, history.bindings level = other.bindings level) :
    history.scopes depth = other.scopes depth := by
  induction depth with
  | zero => rfl
  | succ depth ih =>
    rw [scopes, scopes, h _ (Nat.le_refl _), ih fun level hl => h level (Nat.le_succ_of_le hl)]

end History

/-! ## The scopes of a table -/

namespace Table

variable {history : History} {table : Table}

/-- The scopes of the table are the bindings that are in force. -/
structure Tells (history : History) (table : Table) : Prop where
  scopes : table.scopes = history.scopes history.depth
  /-- Without a scope there was no place for a binding. -/
  outside : history.bindings 0 = []
  distinct : ∀ level, ((history.bindings level).map Prod.fst).Nodup

theorem tells_new : Tells [] .new :=
  ⟨rfl, rfl, fun _ => List.nodup_nil⟩

namespace Tells

theorem locals (h : Tells history table) : table.locals = history.bindings history.depth := by
  rw [Table.locals, h.scopes]
  cases hd : history.depth with
  | zero => exact h.outside.symm
  | succ depth => rfl

theorem lookupLocal_eq_some_iff (h : Tells history table) {name : String} {symbol : Symbol} :
    table.lookupLocal name = some symbol ↔
      ∃ index, history.InForce index name symbol ∧ history.depthAt index = history.depth := by
  rw [Table.lookupLocal, h.locals, Scope.find?_eq_some_iff (h.distinct _), History.mem_bindings]

theorem lookupLocal_isSome_iff (h : Tells history table) {name : String} :
    (table.lookupLocal name).isSome ↔ ∃ index symbol, history.InForce index name symbol ∧
      history.depthAt index = history.depth := by
  simp only [Option.isSome_iff_exists, h.lookupLocal_eq_some_iff]
  exact exists_comm

/-- One more event, if the scopes change as it says and it binds no name twice. -/
theorem snoc (h : Tells history table) {event : Call × Answer} {after : Table}
    (hscopes : after.scopes = (history ++ [event]).scopes (history ++ [event]).depth)
    (hmade : ∀ entry ∈ History.made event,
      history.depth ≠ 0 ∧ table.lookupLocal entry.1 = none) :
    Tells (history ++ [event]) after := by
  refine ⟨hscopes, ?_, fun level => ?_⟩
  · rw [History.bindings_snoc (Nat.zero_le _), h.outside, List.nil_append]
    split
    · next hd =>
      exact List.eq_nil_iff_forall_not_mem.2 fun entry hentry => (hmade entry hentry).1 hd
    · rfl
  · rcases Nat.lt_or_ge (history ++ [event]).depth level with hlt | hle
    · rw [History.bindings_of_lt hlt]
      exact List.nodup_nil
    · rw [History.bindings_snoc hle]
      split
      · next hd =>
        subst hd
        rw [List.map_append]
        refine List.nodup_append.2 ⟨h.distinct _, History.nodup_made event, ?_⟩
        rintro own hown _ hname rfl
        obtain ⟨⟨_, old⟩, hold, rfl⟩ := List.mem_map.1 hown
        obtain ⟨⟨_, new⟩, hnew, rfl⟩ := List.mem_map.1 hname
        have hfree := (hmade _ hnew).2
        rw [Table.lookupLocal, h.locals] at hfree
        exact absurd ((Scope.find?_eq_some_iff (h.distinct _)).2 hold) (by simp [hfree])
      · rw [List.append_nil]
        exact h.distinct level

/-- An event that binds nothing and opens and closes no scope. -/
theorem quiet (h : Tells history table) {event : Call × Answer} (hm : History.made event = [])
    (hd : History.stepDepth history.depth event = history.depth) :
    Tells (history ++ [event]) table := by
  have hdepth : (history ++ [event]).depth = history.depth := History.depth_snoc.trans hd
  refine h.snoc ?_ (by simp [hm])
  rw [h.scopes, hdepth]
  refine History.scopes_congr fun level hl => ?_
  rw [History.bindings_snoc (hdepth.symm ▸ hl), hm, ite_self, List.append_nil]

theorem push (h : Tells history table) :
    Tells (history ++ [(Call.push, Answer.done)]) table.push := by
  have hdepth : (history ++ [(Call.push, Answer.done)]).depth = history.depth + 1 :=
    History.depth_snoc
  have hsame (level : Nat) (hl : level ≤ history.depth + 1) :
      history.bindings level = (history ++ [(Call.push, Answer.done)]).bindings level := by
    rw [History.bindings_snoc (hdepth.symm ▸ hl)]
    simp [History.made]
  refine h.snoc ?_ (by simp [History.made])
  rw [hdepth, ← History.scopes_congr hsame, History.scopes,
    History.bindings_of_lt (Nat.lt_succ_self _), ← h.scopes]
  rfl

theorem pop (h : Tells history table) {scope : Scope} {after : Table}
    (hpop : table.pop = .ok (scope, after)) :
    Tells (history ++ [(Call.pop, Answer.closed scope)]) after := by
  have hscopes := h.scopes
  unfold Table.pop at hpop
  split at hpop
  · cases hpop
  · next inner outer htable =>
    cases hpop
    cases hd : history.depth with
    | zero => simp [htable, hd, History.scopes] at hscopes
    | succ outside =>
      rw [htable, hd, History.scopes] at hscopes
      have hdepth : (history ++ [(Call.pop, Answer.closed scope)]).depth = outside := by
        rw [History.depth_snoc, hd]
        rfl
      refine h.snoc ?_ (by simp [History.made])
      rw [hdepth, (List.cons_eq_cons.1 hscopes).2]
      refine History.scopes_congr fun level hl => ?_
      rw [History.bindings_snoc (hdepth.symm ▸ hl), if_neg (by omega), List.append_nil]

theorem declare (h : Tells history table) {name : String} {symbol : Symbol} {after : Table}
    (hdeclare : table.declare name symbol = .ok after) :
    Tells (history ++ [(Call.declare name symbol, Answer.done)]) after := by
  have hscopes := h.scopes
  unfold Table.declare at hdeclare
  split at hdeclare
  · cases hdeclare
  · next inner outer htable =>
    split at hdeclare
    · cases hdeclare
    · next scope hadd =>
      cases hdeclare
      obtain ⟨hfree, rfl⟩ := Scope.declare?_eq_some_iff.1 hadd
      obtain ⟨scopes⟩ := table
      obtain rfl : scopes = inner :: outer := htable
      cases hd : history.depth with
      | zero => simp [hd, History.scopes] at hscopes
      | succ outside =>
        rw [hd, History.scopes] at hscopes
        obtain ⟨rfl, rfl⟩ := List.cons_eq_cons.1 hscopes
        have hdepth : (history ++ [(Call.declare name symbol, Answer.done)]).depth =
            outside + 1 := History.depth_snoc.trans hd
        refine h.snoc ?_ ?_
        · rw [hdepth, History.scopes, History.bindings_snoc (hdepth.symm ▸ Nat.le_refl _),
            if_pos hd]
          refine congrArg (_ :: ·) (History.scopes_congr fun level hl => ?_)
          rw [History.bindings_snoc (by omega), if_neg (by omega), List.append_nil]
        · intro entry hentry
          obtain rfl : entry = (name, symbol) := by simpa [History.made] using hentry
          exact ⟨by omega, hfree⟩

/-- One more call. -/
theorem serve (h : Tells history table) (call : Call) :
    Tells (history ++ [(call, (table.serve call).1)]) (table.serve call).2 := by
  cases call with
  | push => exact h.push
  | lookupLocal name => exact h.quiet rfl rfl
  | lookup name => exact h.quiet rfl rfl
  | pop =>
    cases hpop : table.pop with
    | ok result =>
      simp only [Table.serve, hpop]
      exact h.pop hpop
    | error error =>
      simp only [Table.serve, hpop]
      exact h.quiet rfl rfl
  | declare name symbol =>
    cases hdeclare : table.declare name symbol with
    | ok after =>
      simp only [Table.serve, hdeclare]
      exact h.declare hdeclare
    | error error =>
      simp only [Table.serve, hdeclare]
      exact h.quiet rfl rfl

theorem serveAll (calls : List Call) :
    Tells (Table.new.serveAll calls).1 (Table.new.serveAll calls).2 := by
  induction calls using List.reverseRecOn with
  | nil => exact tells_new
  | append_singleton calls call ih =>
    rw [serveAll_append]
    exact ih.serve call

/-! ## Answers -/

/-- A name stands for its binding in the innermost scope that has one. -/
theorem findSome?_scopes (h : Tells history table) {name : String} {symbol : Symbol} (depth : Nat) :
    (history.scopes depth).findSome? (·.find? name) = some symbol ↔
      ∃ level ≤ depth, 0 < level ∧ (name, symbol) ∈ history.bindings level ∧
        ∀ inner ≤ depth, level < inner → ∀ other, (name, other) ∉ history.bindings inner := by
  induction depth with
  | zero =>
    simp only [History.scopes, List.findSome?_nil, reduceCtorEq, false_iff]
    rintro ⟨level, hl, hpos, -⟩
    omega
  | succ depth ih =>
    rw [History.scopes, List.findSome?_cons]
    cases hf : (history.bindings (depth + 1)).find? name with
    | some found =>
      have hmem : (name, found) ∈ history.bindings (depth + 1) :=
        (Scope.find?_eq_some_iff (h.distinct _)).1 hf
      constructor
      · rintro ⟨⟩
        exact ⟨depth + 1, Nat.le_refl _, Nat.succ_pos _, hmem, fun inner hi hl => by omega⟩
      · rintro ⟨level, hl, -, hin, hno⟩
        obtain rfl : level = depth + 1 := by
          by_contra hne
          exact hno (depth + 1) (Nat.le_refl _) (by omega) found hmem
        exact hf.symm.trans ((Scope.find?_eq_some_iff (h.distinct _)).2 hin)
    | none =>
      have hno (other : Symbol) : (name, other) ∉ history.bindings (depth + 1) := by
        rw [← Scope.find?_eq_some_iff (h.distinct _), hf]
        exact nofun
      rw [ih]
      constructor
      · rintro ⟨level, hl, hpos, hin, habove⟩
        refine ⟨level, by omega, hpos, hin, fun inner hi hlt => ?_⟩
        obtain hle | rfl : inner ≤ depth ∨ inner = depth + 1 := by omega
        · exact habove inner hle hlt
        · exact hno
      · rintro ⟨level, hl, hpos, hin, habove⟩
        have hne : level ≠ depth + 1 := fun he => hno symbol (he ▸ hin)
        exact ⟨level, by omega, hpos, hin, fun inner hi hlt => habove inner (by omega) hlt⟩

theorem lookup_eq_some_iff (h : Tells history table) {name : String} {symbol : Symbol} :
    table.lookup name = some symbol ↔ ∃ index, history.InForce index name symbol ∧
      ∀ index' other, history.InForce index' name other →
        history.depthAt index' ≤ history.depthAt index := by
  have hwithin {index : Nat} {other : Symbol} (hin : history.InForce index name other) :
      history.depthAt index ≤ history.depth :=
    hin.2.le_depth (Nat.le_of_lt (List.getElem?_eq_some_iff.1 hin.1).1)
  rw [Table.lookup, h.scopes, h.findSome?_scopes]
  constructor
  · rintro ⟨level, hl, hpos, hmem, hno⟩
    obtain ⟨index, hin, rfl⟩ := History.mem_bindings.1 hmem
    refine ⟨index, hin, fun index' other hin' => ?_⟩
    by_contra hlt
    exact hno (history.depthAt index') (hwithin hin') (by omega) other
      (History.mem_bindings.2 ⟨index', hin', rfl⟩)
  · rintro ⟨index, hin, hmost⟩
    have hmem := History.mem_bindings.2 ⟨index, hin, rfl⟩
    refine ⟨history.depthAt index, hwithin hin, Nat.pos_of_ne_zero fun h0 => ?_, hmem,
      fun inner hi hlt other hother => ?_⟩
    · rw [h0, h.outside] at hmem
      exact List.not_mem_nil hmem
    · obtain ⟨index', hin', rfl⟩ := History.mem_bindings.1 hother
      exact absurd (hmost index' other hin') (Nat.not_le.2 hlt)

theorem depth_eq (h : Tells history table) : table.scopes.length = history.depth := by
  have hlength (depth : Nat) : (history.scopes depth).length = depth := by
    induction depth with
    | zero => rfl
    | succ depth ih => rw [History.scopes, List.length_cons, ih]
  rw [h.scopes, hlength]

theorem serve_declare (h : Tells history table) (name : String) (symbol : Symbol) :
    (table.serve (.declare name symbol)).1 =
      if history.depth = 0 then .refused (.nowhereToDeclare name)
      else if (table.lookupLocal name).isSome then .refused (.duplicate name) else .done := by
  have hdepth := h.depth_eq
  obtain ⟨_ | ⟨scope, scopes⟩⟩ := table
  · simp [← hdepth, Table.serve, Table.declare]
  · have hpos : history.depth ≠ 0 := by
      rw [← hdepth]
      exact Nat.succ_ne_zero _
    cases hf : scope.find? name with
    | none => simp [hpos, Table.serve, Table.declare, Scope.declare?, lookupLocal, Table.locals, hf]
    | some old =>
      simp [hpos, Table.serve, Table.declare, Scope.declare?, lookupLocal, Table.locals, hf]

theorem serve_pop (h : Tells history table) :
    (table.serve .pop).1 = if history.depth = 0 then .refused .nothingToClose
      else .closed (history.bindings history.depth) := by
  have hdepth := h.depth_eq
  have hlocals := h.locals
  obtain ⟨_ | ⟨scope, scopes⟩⟩ := table
  · simp [← hdepth, Table.serve, Table.pop]
  · have hpos : history.depth ≠ 0 := by
      rw [← hdepth]
      exact Nat.succ_ne_zero _
    rw [if_neg hpos, ← hlocals]
    rfl

end Tells

/-- What a table answers to each call, by the history of the calls before. -/
structure Recalls (history : History) (table : Table) : Prop where
  /-- The binding in force that was made in the innermost scope. -/
  lookup : ∀ name, ∃ found, (table.serve (.lookup name)).1 = .found found ∧
    ∀ symbol, found = some symbol ↔ ∃ index, history.InForce index name symbol ∧
      ∀ index' other, history.InForce index' name other →
        history.depthAt index' ≤ history.depthAt index
  lookupLocal : ∀ name, ∃ found, (table.serve (.lookupLocal name)).1 = .found found ∧
    ∀ symbol, found = some symbol ↔
      ∃ index, history.InForce index name symbol ∧ history.depthAt index = history.depth
  nowhere : ∀ name symbol, (table.serve (.declare name symbol)).1 =
    .refused (.nowhereToDeclare name) ↔ history.depth = 0
  duplicate : ∀ name symbol, (table.serve (.declare name symbol)).1 =
    .refused (.duplicate name) ↔
      ∃ index other, history.InForce index name other ∧ history.depthAt index = history.depth
  /-- There is no other reason to refuse a declaration. -/
  declared : ∀ name symbol, (table.serve (.declare name symbol)).1 = .done ↔ history.depth ≠ 0 ∧
    ¬ ∃ index other, history.InForce index name other ∧ history.depthAt index = history.depth
  closed : history.depth ≠ 0 →
    (table.serve .pop).1 = .closed (history.bindings history.depth)
  nothing : history.depth = 0 → (table.serve .pop).1 = .refused .nothingToClose
  unchanged : ∀ call error, (table.serve call).1 = .refused error → (table.serve call).2 = table

/-- A call that is refused changes nothing. -/
theorem serve_refused (table : Table) (call : Call) (error : TableError)
    (h : (table.serve call).1 = .refused error) : (table.serve call).2 = table := by
  cases call with
  | push => cases h
  | lookupLocal => rfl
  | lookup => rfl
  | pop =>
    cases hpop : table.pop with
    | ok result => simp [serve, hpop] at h
    | error error => simp only [serve, hpop]
  | declare name symbol =>
    cases hdeclare : table.declare name symbol with
    | ok after => simp [serve, hdeclare] at h
    | error error => simp only [serve, hdeclare]

theorem Tells.recalls (h : Tells history table) : Recalls history table := by
  have hlocal {name : String} : (table.lookupLocal name).isSome ↔ ∃ index symbol,
      history.InForce index name symbol ∧ history.depthAt index = history.depth :=
    h.lookupLocal_isSome_iff
  -- a binding in force at depth zero would have been made without a scope
  have hnone {name : String} (h0 : history.depth = 0) : table.lookupLocal name = none := by
    rw [Table.lookupLocal, h.locals, h0, h.outside]
    rfl
  refine ⟨fun name => ⟨_, rfl, fun symbol => h.lookup_eq_some_iff⟩,
    fun name => ⟨_, rfl, fun symbol => h.lookupLocal_eq_some_iff⟩, fun name symbol => ?_,
    fun name symbol => ?_, fun name symbol => ?_, fun hd => ?_, fun hd => ?_, table.serve_refused⟩
  · rw [h.serve_declare]
    by_cases hd : history.depth = 0
    · simp [hd]
    · by_cases hs : (table.lookupLocal name).isSome <;> simp [hd, hs]
  · rw [h.serve_declare, ← hlocal]
    by_cases hd : history.depth = 0
    · simp [hd, hnone hd]
    · by_cases hs : (table.lookupLocal name).isSome <;> simp [hd, hs]
  · rw [h.serve_declare, ← hlocal]
    by_cases hd : history.depth = 0
    · simp [hd]
    · by_cases hs : (table.lookupLocal name).isSome <;> simp [hd, hs]
  · rw [h.serve_pop, if_neg hd]
  · rw [h.serve_pop, if_pos hd]

/-- What was called in a scope of its own, up to the call that closes it, leaves no trace. -/
theorem Tells.enclosed {inside rest : History} {after : Table} {scope : Scope}
    (h : Tells history table) (hinside : inside = history ++ [(Call.push, Answer.done)] ++ rest)
    (hopen : inside.StillOpen (history.length + 1)) (hdepth : inside.depth = history.depth + 1)
    (hafter : Tells (inside ++ [(Call.pop, Answer.closed scope)]) after) : after = table := by
  subst hinside
  have hopened : (history ++ [(Call.push, Answer.done)]).depth = history.depth + 1 :=
    History.depth_snoc
  have hclosed : (history ++ [(Call.push, Answer.done)] ++ rest
      ++ [(Call.pop, Answer.closed scope)]).depth = history.depth := by
    rw [History.depth_snoc, hdepth]
    rfl
  have houter (level : Nat) (hl : level ≤ history.depth) :
      (history ++ [(Call.push, Answer.done)]).bindings level = history.bindings level := by
    rw [History.bindings_snoc (hopened ▸ Nat.le_succ_of_le hl)]
    simp [History.made]
  have hlength : (history ++ [(Call.push, Answer.done)]).length = history.length + 1 := by simp
  have hscopes : after.scopes = table.scopes := by
    rw [hafter.scopes, h.scopes, hclosed]
    refine History.scopes_congr fun level hl => ?_
    rw [History.bindings_snoc (hclosed ▸ hl), if_neg (by omega), List.append_nil,
      History.bindings_outside (hlength ▸ hopen) (by omega), houter level hl]
  obtain ⟨scopes⟩ := table
  exact congrArg Table.mk hscopes

/-- Whatever was asked of a new table, it answers as the history of the calls says. What was
called between opening a scope and closing that very scope makes no difference to any name. -/
theorem table_recalls (calls : List Call) :
    Recalls (Table.new.serveAll calls).1 (Table.new.serveAll calls).2 ∧
      ∀ stretch, let inside := (Table.new.serveAll (calls ++ .push :: stretch)).1
        inside.StillOpen (calls.length + 1) →
        inside.depth = inside.depthAt (calls.length + 1) →
        ∀ name, let before := (Table.new.serveAll calls).2
          let after := (Table.new.serveAll (calls ++ .push :: stretch ++ [.pop])).2
          after.lookup name = before.lookup name ∧
            after.lookupLocal name = before.lookupLocal name := by
  have hbefore := Tells.serveAll calls
  refine ⟨hbefore.recalls, fun stretch => ?_⟩
  intro inside hopen hdepth name before after
  let history := (Table.new.serveAll calls).1
  have hinside : inside =
      history ++ [(Call.push, Answer.done)] ++ (before.push.serveAll stretch).1 := by
    simp only [inside, Table.serveAll_append, history, List.append_assoc]
    rfl
  have hlength : calls.length = history.length := (Table.new.serveAll_length calls).symm
  have hone : inside.depth = history.depth + 1 := by
    rw [hdepth, hinside, hlength, History.depthAt, List.take_left' (by simp)]
    exact History.depth_snoc
  have htells : Tells inside _ := Tells.serveAll (calls ++ .push :: stretch)
  have hpop := htells.serve_pop
  rw [if_neg (by omega)] at hpop
  have hlast := htells.serve .pop
  rw [hpop] at hlast
  have hafter : after = ((Table.new.serveAll (calls ++ .push :: stretch)).2.serve .pop).2 := by
    simp only [after, Table.serveAll_append]
    rfl
  have hsame : after = before :=
    hafter.trans (hbefore.enclosed hinside (hlength ▸ hopen) hone hlast)
  rw [hsame]
  exact ⟨rfl, rfl⟩

/-- `x` is bound once more inside of a scope and then refused there. A scope inside of that one
binds it again, which does not show when it is closed. -/
theorem table_recalls_shadowed :
    let outer : Symbol := .value (.top 0) "int"
    let inner : Symbol := .value (.top 1) "bool"
    let calls : List Call := [.declare "x" outer, .push, .declare "x" inner, .declare "x" outer]
    let stretch : List Call := [.declare "x" outer, .declare "y" outer, .push, .pop]
    let history := (Table.new.serveAll calls).1
    let table := (Table.new.serveAll calls).2
    let inside := (Table.new.serveAll (calls ++ .push :: stretch)).1
    let after := (Table.new.serveAll (calls ++ .push :: stretch ++ [.pop])).2
    history.InForce 2 "x" inner ∧ history.depthAt 2 = history.depth ∧
      (table.serve (.lookupLocal "x")).1 = .found (some inner) ∧
      (table.serve (.declare "x" outer)).1 = .refused (.duplicate "x") ∧
      (table.serve .pop).1 = .closed [("x", inner)] ∧
      inside.StillOpen 5 ∧ inside.depth = inside.depthAt 5 ∧
      after.lookup "x" = table.lookup "x" ∧ after.lookup "y" = none := by
  intro outer inner calls stretch history table inside after
  obtain ⟨hrecalls, hscope⟩ := table_recalls calls
  have hforce : history.InForce 2 "x" inner := ⟨rfl, by decide⟩
  have hdepth : history.depthAt 2 = history.depth := rfl
  have hopen : inside.StillOpen 5 := by decide
  have hclosing : inside.depth = inside.depthAt 5 := rfl
  obtain ⟨found, hfound, hrule⟩ := hrecalls.lookupLocal "x"
  obtain rfl : found = some inner := (hrule inner).2 ⟨2, hforce, hdepth⟩
  exact ⟨hforce, hdepth, hfound, (hrecalls.duplicate "x" outer).2 ⟨2, inner, hforce, hdepth⟩,
    hrecalls.closed (by decide), hopen, hclosing, (hscope stretch hopen hclosing "x").1,
    (hscope stretch hopen hclosing "y").1.trans rfl⟩

end Table

end Moo
