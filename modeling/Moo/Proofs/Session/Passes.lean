import Moo.Proofs.Names.Accounts
import Moo.Proofs.Names.Isolation
import Moo.Proofs.Names.Lockstep
import Moo.Proofs.Names.Scopes
import Moo.Session

/-!
# Analysing a program again and again

On a table that an earlier pass has filled, a pass finds names that were
declared only later in the program. Two passes are enough to fill the table:

* The first pass enters all names but those of variables whose struct type
  comes later, if at all. What it enters stays.
* The second pass enters the variables that the first one left out, unless
  there is no such struct type. It makes no new struct type known.
* From then on no pass enters anything, and all of them report the same.

What a declaration does to the global scope depends on its `Demand` alone:
`Demand.Meets` says how, `Demand.MeetsAll` for the declarations of a program
one after the other. What is reported depends on no label and no origin
(`Program.diagnostics_forget`).
-/
namespace Moo

/-! ## Demands -/

def Symbol.IsStructType (symbol : Symbol) : Prop :=
  ∃ definition, symbol = .structType definition

/-- The name stands for a struct type. -/
def Scope.HasType (scope : Scope) (tag : String) : Prop :=
  ∃ symbol ∈ scope.find? tag, symbol.IsStructType

/-- What a declaration at top level would enter in the global scope, and what it needs for that. -/
structure Demand where
  name : String
  /-- The struct type of a variable. -/
  tag : Option String

namespace Demand

/-- The name is not taken, and the struct type is known. -/
structure Open (demand : Demand) (scope : Scope) : Prop where
  new : scope.find? demand.name = none
  known : ∀ tag ∈ demand.tag, scope.HasType tag

/-- The global scope in front of the declaration and behind it. -/
inductive Meets (demand : Demand) : Scope → Scope → Prop
  | barred {scope : Scope} (h : ¬ demand.Open scope) : Meets demand scope scope
  | entered {scope : Scope} (h : demand.Open scope) (symbol : Symbol)
      (plain : demand.tag.isSome → ¬ symbol.IsStructType) :
      Meets demand scope (scope ++ [(demand.name, symbol)])

/-- The global scope in front of some declarations and behind them. -/
inductive MeetsAll : List Demand → Scope → Scope → Prop
  | nil (scope : Scope) : MeetsAll [] scope scope
  | cons {demand : Demand} {demands : List Demand} {before mid after : Scope}
      (first : demand.Meets before mid) (others : MeetsAll demands mid after) :
      MeetsAll (demand :: demands) before after

end Demand

theorem Scope.find?_append (scope more : Scope) (name : String) :
    Scope.find? (scope ++ more) name = (scope.find? name).or (more.find? name) :=
  List.lookup_append

/-- Names that are there keep what they stand for. -/
theorem Scope.find?_of_prefix {scope after : Scope} (h : scope <+: after) {name : String}
    {symbol : Symbol} (hs : scope.find? name = some symbol) : after.find? name = some symbol := by
  obtain ⟨more, rfl⟩ := h
  rw [Scope.find?_append, hs, Option.some_or]

namespace Demand

variable {demand : Demand} {demands : List Demand} {before after : Scope}

theorem Meets.grows (h : demand.Meets before after) : before <+: after := by
  cases h with
  | barred => exact List.prefix_rfl
  | entered => exact List.prefix_append _ _

theorem MeetsAll.grows (h : MeetsAll demands before after) : before <+: after := by
  induction h with
  | nil => exact List.prefix_rfl
  | cons first _ ih => exact first.grows.trans ih

/-- What a declaration could enter it has entered. -/
theorem Meets.not_open (h : demand.Meets before after) : ¬ demand.Open after := by
  cases h with
  | barred h => exact h
  | entered h symbol =>
    intro hopen
    have hnew := hopen.new
    rw [Scope.find?_append, h.new] at hnew
    simp [Scope.find?] at hnew

/-- It stays so, as long as no struct type becomes known. -/
theorem Open.of_grown (h : demand.Open after) (hgrows : before <+: after)
    (htypes : ∀ tag ∈ demand.tag, after.HasType tag → before.HasType tag) :
    demand.Open before := by
  refine ⟨?_, fun tag htag => htypes tag htag (h.known tag htag)⟩
  cases hf : before.find? demand.name with
  | none => rfl
  | some symbol =>
    have hnew := h.new
    rw [Scope.find?_of_prefix hgrows hf] at hnew
    cases hnew

/-- Names that need no struct type are entered in the first pass. -/
theorem MeetsAll.not_open_of_plain (h : MeetsAll demands before after) :
    ∀ demand ∈ demands, demand.tag = none → ¬ demand.Open after := by
  induction h with
  | nil => nofun
  | cons hfirst hothers ih =>
    intro demand hmem hplain hopen
    rcases List.mem_cons.1 hmem with rfl | hmem
    · exact hfirst.not_open (hopen.of_grown hothers.grows (by simp [hplain]))
    · exact ih demand hmem hplain hopen

/-- Only variables are left, and they make no struct type known. -/
theorem Meets.types (h : demand.Meets before after)
    (hplain : demand.tag = none → ¬ demand.Open before) {tag : String} (htag : after.HasType tag) :
    before.HasType tag := by
  cases h with
  | barred => exact htag
  | entered hopen symbol hvariable =>
    obtain ⟨found, hf, htype⟩ := htag
    rw [Scope.find?_append] at hf
    cases hb : before.find? tag with
    | some old =>
      rw [hb, Option.some_or] at hf
      exact ⟨found, hb.trans hf, htype⟩
    | none =>
      rw [hb, Option.none_or] at hf
      have hsome : demand.tag.isSome := by
        cases ht : demand.tag with
        | none => exact absurd hopen (hplain ht)
        | some => rfl
      obtain rfl : symbol = found := by
        simp only [Scope.find?, List.lookup_cons] at hf
        split at hf
        · exact Option.some.inj hf
        · cases hf
      exact absurd htype (hvariable hsome)

theorem Meets.not_open_of_plain (h : demand.Meets before after) {other : Demand}
    (hplain : other.tag = none → ¬ other.Open before) : other.tag = none → ¬ other.Open after :=
  fun ht hopen => hplain ht (hopen.of_grown h.grows (by simp [ht]))

theorem MeetsAll.types (h : MeetsAll demands before after)
    (hplain : ∀ demand ∈ demands, demand.tag = none → ¬ demand.Open before) {tag : String}
    (htag : after.HasType tag) : before.HasType tag := by
  induction h with
  | nil => exact htag
  | cons first _ ih =>
    obtain ⟨hfirst, hothers⟩ := List.forall_mem_cons.1 hplain
    exact first.types hfirst
      (ih (fun other hm => first.not_open_of_plain (hothers other hm)) htag)

/-- All that can be entered is entered in the second pass. -/
theorem MeetsAll.not_open (h : MeetsAll demands before after)
    (hplain : ∀ demand ∈ demands, demand.tag = none → ¬ demand.Open before) :
    ∀ demand ∈ demands, ¬ demand.Open after := by
  induction h with
  | nil => nofun
  | cons first others ih =>
    obtain ⟨hfirst, hothers⟩ := List.forall_mem_cons.1 hplain
    have hrest := fun other hm => first.not_open_of_plain (hothers other hm)
    refine List.forall_mem_cons.2 ⟨fun hopen => ?_, ih hrest⟩
    exact first.not_open (hopen.of_grown others.grows fun _ _ => others.types hrest)

/-- Then nothing more is entered. -/
theorem MeetsAll.eq (h : MeetsAll demands before after)
    (hdone : ∀ demand ∈ demands, ¬ demand.Open before) : after = before := by
  induction h with
  | nil => rfl
  | cons first others ih =>
    obtain ⟨hfirst, hothers⟩ := List.forall_mem_cons.1 hdone
    cases first with
    | barred => exact ih hothers
    | entered hopen => exact absurd hopen hfirst

end Demand

/-! ## What analysis does to the global scope -/

def TypeExpr.tag? : TypeExpr → Option String
  | .struct tag => some tag.name
  | _ => none

/-- What a declaration at top level demands; there are no formals there. -/
def Decl.demand? : Decl → Option Demand
  | .var type id => some ⟨id.name, type.tag?⟩
  | .function _ id _ _ _ => some ⟨id.name, none⟩
  | .struct tag _ => some ⟨tag.name, none⟩
  | .formal .. | .stray _ => none

def Program.demands (program : Program) : List Demand :=
  program.decls.filterMap Decl.demand?

theorem TypeExpr.tag?_relabel (r : Relabel) (type : TypeExpr) :
    (type.relabel r).tag? = type.tag? := by
  cases type <;> rfl

theorem Decl.demand?_relabel (r : Relabel) (decl : Decl) :
    (decl.relabel r).demand? = decl.demand? := by
  cases decl with
  | var type id => simp only [Decl.relabel, Decl.demand?, type.tag?_relabel, Ident.relabel]
  | _ => rfl

theorem Program.demands_relabel (r : Relabel) (program : Program) :
    (program.relabel r).demands = program.demands := by
  simp only [Program.demands, Program.relabel, Decl.relabelAll_eq_map, List.filterMap_map]
  exact List.filterMap_congr fun decl _ => decl.demand?_relabel r

namespace Walk

variable {α : Type} {global : Scope}

theorem lookup_single (global : Scope) (name : String) :
    Table.lookup ⟨[global]⟩ name = global.find? name := by
  simp only [Table.lookup, List.findSome?_cons, List.findSome?_nil]
  cases global.find? name <;> rfl

theorem resolveTag_types (tag : Ident) :
    Reports (resolveTag tag) ⟨[global]⟩ fun result _ after => after = ⟨[global]⟩ ∧
      (result.2.isSome ↔ global.HasType tag.name) := by
  refine .look ?_
  rw [lookup_single]
  split
  · next definition hf => exact ⟨_, rfl, rfl, iff_of_true rfl ⟨_, hf, definition, rfl⟩⟩
  · next hno =>
    refine ⟨_, rfl, rfl, iff_of_false (by simp) ?_⟩
    rintro ⟨symbol, hf, definition, rfl⟩
    exact hno definition hf

/-- The innermost scope gets the name, unless it has it. -/
theorem bind_demands (id : Ident) {tag : Option String} {symbol : Option Symbol}
    (hknown : symbol.isSome ↔ ∀ name ∈ tag, global.HasType name)
    (hplain : ∀ s ∈ symbol, tag.isSome → ¬ s.IsStructType) :
    Reports (bind id symbol) ⟨[global]⟩ fun _ _ after =>
      ∃ next, after = ⟨[next]⟩ ∧ Demand.Meets ⟨id.name, tag⟩ global next := by
  obtain ⟨errors, herrors⟩ := global.enter_errors? id symbol
  refine .enter ⟨errors, herrors, _, rfl, ?_⟩
  cases symbol with
  | none => exact .barred fun hopen => by simpa using hknown.2 hopen.known
  | some symbol =>
    cases hf : global.find? id.name with
    | none =>
      rw [Scope.enter_new hf]
      exact .entered ⟨hf, hknown.1 rfl⟩ symbol (hplain symbol rfl)
    | some old =>
      rw [Scope.enter_old hf]
      refine .barred fun hopen => ?_
      have hnew : global.find? id.name = none := hopen.new
      rw [hnew] at hf
      cases hf

end Walk

open Walk

/-- A variable gets a symbol if its struct type is known. -/
theorem TypeExpr.resolve_demands {type : TypeExpr} (h : type.WellFormed) (origin : Origin)
    (id : Ident) (global : Scope) :
    Reports (type.resolve origin id) ⟨[global]⟩ fun result _ after => after = ⟨[global]⟩ ∧
      (result.2.isSome ↔ ∀ tag ∈ type.tag?, global.HasType tag) ∧
      ∀ symbol ∈ result.2, ¬ symbol.IsStructType := by
  cases type with
  | primitive name =>
    have hvalue (name : String) : ∀ symbol ∈ some (Symbol.value origin name),
        ¬ symbol.IsStructType := by
      rintro _ ⟨⟩ ⟨_, h⟩
      cases h
    simp only [TypeExpr.resolve]
    split
    · exact ((report_steps id .voidVariable).unchanged trivial ⟨[global]⟩).last
        fun _ _ _ hafter => ⟨hafter, by simp [TypeExpr.tag?], hvalue _⟩
    · exact .pure ⟨rfl, by simp [TypeExpr.tag?], hvalue _⟩
  | struct tag =>
    refine (resolveTag_types tag).last fun result _ after h => ⟨h.1, ?_, ?_⟩
    · simpa [TypeExpr.tag?] using h.2
    · intro symbol hs
      obtain ⟨definition, -, rfl⟩ := Option.map_eq_some_iff.1 hs
      rintro ⟨_, h⟩
      cases h
  | stray => exact h.elim

theorem bindFunction_demands (origin : Origin) (id : Ident) {returns : TypeExpr}
    {formals : List Decl} (hr : returns.WellFormed) (hf : ∀ formal ∈ formals, formal.IsFormal)
    (global : Scope) :
    Reports (bindFunction origin id returns formals) ⟨[global]⟩ fun _ _ after =>
      ∃ next, after = ⟨[next]⟩ ∧ Demand.Meets ⟨id.name, none⟩ global next := by
  obtain ⟨name, params, hsymbol⟩ := functionSymbol_isOk origin returns formals hr hf
  simp only [bindFunction, hsymbol]
  have hbind : Reports (Walk.bind id (some (.function origin name params))) ⟨[global]⟩
      fun _ _ after => ∃ next, after = ⟨[next]⟩ ∧ Demand.Meets ⟨id.name, none⟩ global next :=
    bind_demands id (by simp) (by simp)
  refine hbind.bind ?_
  rintro bound _ _ ⟨next, rfl, hmeets⟩
  exact ((note_steps _).unchanged trivial ⟨[next]⟩).last fun _ _ _ hafter => ⟨next, hafter, hmeets⟩

/-- What a function declares in its own scope does not matter outside. -/
theorem function_unchanged {γ : Type} (origin : Origin) {formals decls : List Decl}
    {stmts : List Stmt} (make : List Decl → List Decl → List Stmt → γ)
    (hf : ∀ formal ∈ formals, formal.IsFormal) (hd : ∀ decl ∈ decls, decl.IsVariable)
    (hs : Stmt.WellFormedAll stmts) (global : Scope) :
    Reports (inScope do
        let formals ← Decl.analyzeVariables origin .formals 0 formals
        let decls ← Decl.analyzeVariables origin .decls 0 decls
        let stmts ← Stmt.analyzeAll origin .stmts 0 stmts
        pure (make formals decls stmts)) ⟨[global]⟩ fun _ _ after => after = ⟨[global]⟩ := by
  have hformals := (Decl.analyzeVariables_steps origin .formals formals 0).mono
    fun (_ : True) formal hm => .inr (hf formal hm)
  have hstmts := (Stmt.analyzeAll_steps origin .stmts stmts 0).mono
    fun (_ : True) => hs
  have hbody (formals : List Decl) :=
    block_steps origin .decls .stmts (make formals) (fun _ => hd) hstmts
  exact (hformals.bind hbody).inScope.unchanged trivial ⟨[global]⟩

theorem Decl.analyze_demands {decl : Decl} (h : decl.WellFormed) (origin : Origin)
    (global : Scope) :
    ∃ demand, decl.demand? = some demand ∧
      Reports (decl.analyze origin) ⟨[global]⟩ fun _ _ after =>
        ∃ next, after = ⟨[next]⟩ ∧ demand.Meets global next := by
  cases decl with
  | var type id =>
    refine ⟨_, rfl, ?_⟩
    refine (TypeExpr.resolve_demands h origin id global).bind ?_
    rintro result _ _ ⟨rfl, hknown, hplain⟩
    exact (bind_demands id hknown fun s hs _ => hplain s hs).last fun _ _ _ hafter => hafter
  | function returns id formals decls stmts =>
    obtain ⟨hr, hf, hd, hs⟩ := h
    refine ⟨_, rfl, ?_⟩
    refine ((returns.resolveReturn_steps.unchanged trivial ⟨[global]⟩).yields
      returns.resolveReturn_wellFormed).bind ?_
    rintro returns' _ _ ⟨hr', rfl⟩
    refine (bindFunction_demands origin id (hr'.2 hr) hf global).bind ?_
    rintro id' _ _ ⟨next, rfl, hmeets⟩
    exact (function_unchanged origin (Decl.function returns' id') hf hd hs next).mono
      fun _ _ _ hafter => ⟨next, hafter, hmeets⟩
  | struct tag fields =>
    refine ⟨_, rfl, ?_⟩
    refine ((Decl.analyzeFields_steps origin fields 0 []).unchanged h ⟨[global]⟩).bind ?_
    rintro result _ _ rfl
    exact (bind_demands tag (by simp) (by simp)).last fun _ _ _ hafter => hafter
  | _ => exact h.elim

theorem Decl.analyzeAll_demands {decls : List Decl} (h : ∀ decl ∈ decls, decl.WellFormed)
    (clock : Nat) (global : Scope) :
    Reports (Decl.analyzeAll clock decls) ⟨[global]⟩ fun _ _ after =>
      ∃ next, after = ⟨[next]⟩ ∧
        Demand.MeetsAll (decls.filterMap Decl.demand?) global next := by
  induction decls generalizing clock global with
  | nil => exact .pure ⟨global, rfl, .nil global⟩
  | cons decl decls ih =>
    obtain ⟨hd, hds⟩ := List.forall_mem_cons.1 h
    obtain ⟨demand, hdemand, hdecl⟩ := Decl.analyze_demands hd (.top clock) global
    refine hdecl.bind ?_
    rintro first _ _ ⟨mid, rfl, hmid⟩
    refine (ih hds (clock + 1) mid).last ?_
    rintro others _ _ ⟨next, rfl, hnext⟩
    rw [List.filterMap_cons_some hdemand]
    exact ⟨next, rfl, .cons hmid hnext⟩

/-- On a global scope alone, a well-formed program is analysed without a fault. -/
theorem Program.analyzeWith_demands {program : Program} (h : program.WellFormed) (clock : Nat)
    (global : Scope) :
    (program.analyzeWith ⟨[global]⟩ clock).fault = none ∧
      ∃ next, (program.analyzeWith ⟨[global]⟩ clock).table = ⟨[next]⟩ ∧
        Demand.MeetsAll program.demands global next := by
  obtain ⟨result, errors, _, later, hrun, -, next, rfl, hmeets⟩ :=
    Decl.analyzeAll_demands h clock global []
  simp only [Program.analyzeWith, hrun]
  exact ⟨rfl, next, rfl, hmeets⟩

/-! ## What is reported -/

/-- Symbols of any declarations, and any labels on the tree. -/
def Likeness.anywhere : Likeness where
  origins _ _ := True
  child _ _ _ := trivial
  labels _ := none
  inside := True

mutual

theorem Symbol.like_refl {like : Likeness} (h : ∀ origin, like.origins origin origin) :
    ∀ symbol : Symbol, symbol.Like like symbol
  | .value origin type => .value (h origin) type
  | .function origin returns params => .function (h origin) returns params
  | .structType (.mk origin _ members) =>
    .structType (h origin) rfl (fun _ => rfl) fun _ => Scope.symbols_refl h members
  | .structValue origin type (.mk other _ members) =>
    .structValue (h origin) type <|
      .structType (h other) rfl (fun _ => rfl) fun _ => Scope.symbols_refl h members

theorem Scope.symbols_refl {like : Likeness} (h : ∀ origin, like.origins origin origin) :
    ∀ scope : List (String × Symbol),
      List.Forall₂ (Symbol.Like like) (scope.map Prod.snd) (scope.map Prod.snd)
  | [] => .nil
  | (_, symbol) :: scope => .cons (Symbol.like_refl h symbol) (Scope.symbols_refl h scope)

end

/-- Two analyses that start with the same table. -/
theorem WalkState.Like.start {like : Likeness} (h : ∀ origin, like.origins origin origin)
    (table : Table) : WalkState.Like like ⟨table, [], none⟩ ⟨table, [], none⟩ :=
  ⟨List.forall₂_same.2 fun scope _ => ⟨rfl, Scope.symbols_refl h scope⟩, rfl, fun _ => rfl⟩

/-- What is reported depends neither on the symbols that are on the tree nor on the declarations
that were analysed before, but for the table. -/
theorem Program.diagnostics_forget (program : Program) (table : Table) (clock clock' : Nat) :
    (program.analyzeWith table clock).diagnostics =
      ((program.relabel .forget).analyzeWith table clock').diagnostics := by
  have hstart : WalkState.Like .anywhere ⟨table, [], none⟩ ⟨table, [], none⟩ :=
    .start (fun _ => trivial) table
  exact (Decl.analyzeAll_lockstep program.decls (.inl trivial) (fun _ => trivial) _ _
    hstart).1.errors trivial

/-! ## Passes -/

namespace Session

/-- The session after so many passes over its program, the first of them on a new table. -/
def passes (session : Session) : Nat → Session
  | 0 => session.restart
  | count + 1 => (session.passes count).analyze.2

/-- What the passes come to, counted from zero. -/
def pass (session : Session) (index : Nat) : Analysis :=
  (session.passes index).analyze.1

variable {session : Session}

theorem passes_forget (session : Session) (count : Nat) :
    (session.passes count).program.relabel .forget = session.program.relabel .forget := by
  induction count with
  | zero => rfl
  | succ count ih => exact (Program.analyzeWith_forget _ _ _).trans ih

theorem passes_wellFormed (h : session.program.WellFormed) (count : Nat) :
    (session.passes count).program.WellFormed := by
  rw [← Program.wellFormed_relabel .forget, session.passes_forget,
    Program.wellFormed_relabel .forget]
  exact h

theorem passes_demands (session : Session) (count : Nat) :
    (session.passes count).program.demands = session.program.demands := by
  rw [← Program.demands_relabel .forget, session.passes_forget, Program.demands_relabel .forget]

/-- One more pass over a global scope. -/
theorem pass_meets (h : session.program.WellFormed) (count : Nat) {global : Scope}
    (ht : (session.passes count).table = ⟨[global]⟩) :
    (session.pass count).fault = none ∧
      ∃ next, (session.passes (count + 1)).table = ⟨[next]⟩ ∧
        Demand.MeetsAll session.program.demands global next := by
  have hpass := Program.analyzeWith_demands (passes_wellFormed h count)
    (session.passes count).clock global
  rw [passes_demands, ← ht] at hpass
  exact hpass

theorem pass_diagnostics (session : Session) (count : Nat) :
    (session.pass count).diagnostics = ((session.program.relabel .forget).analyzeWith
      (session.passes count).table 0).diagnostics := by
  rw [← session.passes_forget count]
  exact Program.diagnostics_forget _ _ _ _

/-- The table in front of a pass is filled in two passes, and keeps what the first one entered. -/
theorem passes_table (h : session.program.WellFormed) :
    ∃ first last, (session.passes 1).table = ⟨[first]⟩ ∧ first <+: last ∧
      ∀ index, (session.passes (index + 2)).table = ⟨[last]⟩ := by
  obtain ⟨-, first, hfirst, hfill⟩ := pass_meets h 0 rfl
  obtain ⟨-, last, hlast, hrest⟩ := pass_meets h 1 hfirst
  have hdone := hrest.not_open hfill.not_open_of_plain
  refine ⟨first, last, hfirst, hrest.grows, fun index => ?_⟩
  induction index with
  | zero => exact hlast
  | succ index ih =>
    obtain ⟨-, next, hnext, hmore⟩ := pass_meets h (index + 2) ih
    rw [hnext, hmore.eq hdone]

/-- Passes over a well-formed program all go through. What a name stands for after the first one it
stands for ever after, the table after the second one stays as it is, and from the third one on all
of them report the same. -/
theorem passes_converge (session : Session) (h : session.program.WellFormed) :
    (∀ index, (session.pass index).fault = none) ∧
      (∃ first last, (session.passes 1).table = ⟨[first]⟩ ∧ first <+: last ∧
        ∀ index, (session.passes (index + 2)).table = ⟨[last]⟩) ∧
      (∀ name symbol, (session.passes 1).table.lookup name = some symbol →
        ∀ index, (session.passes (index + 1)).table.lookup name = some symbol) ∧
      ∀ index, (session.pass (index + 2)).diagnostics = (session.pass 2).diagnostics := by
  obtain ⟨first, last, hfirst, hgrows, hlast⟩ := passes_table h
  refine ⟨fun index => ?_, ⟨first, last, hfirst, hgrows, hlast⟩, fun name symbol hs index => ?_,
    fun index => ?_⟩
  · match index with
    | 0 => exact (pass_meets h 0 rfl).1
    | 1 => exact (pass_meets h 1 hfirst).1
    | index + 2 => exact (pass_meets h (index + 2) (hlast index)).1
  · match index with
    | 0 => exact hs
    | index + 1 =>
      rw [hfirst, lookup_single] at hs
      rw [hlast, lookup_single]
      exact Scope.find?_of_prefix hgrows hs
  · rw [pass_diagnostics, pass_diagnostics, hlast, ← hlast 0]

/-- `struct S x; struct S { int a; }; void f() { x.a = 1; }`, a line for each declaration. -/
def early : Session :=
  start.load ⟨[.var (.struct ⟨"S", some ⟨1, 8⟩, none⟩) ⟨"x", some ⟨1, 10⟩, none⟩,
    .struct ⟨"S", some ⟨2, 8⟩, none⟩ [.var (.primitive "int") ⟨"a", some ⟨2, 16⟩, none⟩],
    .function (.primitive "void") ⟨"f", some ⟨3, 6⟩, none⟩ [] []
      [.assign (.assign (.dot (.name ⟨"x", some ⟨3, 12⟩, none⟩) ⟨"a", some ⟨3, 14⟩, none⟩ none)
        (.int 1 (some ⟨3, 18⟩)))]]⟩

/-- The first pass leaves `x` out, the second one declares it, and to the third one all names are
taken. -/
theorem passes_converge_early :
    early.program.WellFormed ∧
      (early.pass 0).diagnostics =
        [⟨⟨1, 8⟩, .unknownStruct⟩, ⟨⟨3, 12⟩, .undeclared⟩, ⟨⟨3, 12⟩, .notAStruct⟩] ∧
      (early.pass 1).diagnostics = [⟨⟨2, 8⟩, .redeclared⟩, ⟨⟨3, 6⟩, .redeclared⟩] ∧
      ∀ index, (early.pass (index + 2)).diagnostics =
        [⟨⟨1, 10⟩, .redeclared⟩, ⟨⟨2, 8⟩, .redeclared⟩, ⟨⟨3, 6⟩, .redeclared⟩] := by
  have h : early.program.WellFormed := by
    simp [early, load, Program.WellFormed, Decl.WellFormed, TypeExpr.WellFormed, Stmt.WellFormed,
      Stmt.WellFormedAll, Expr.WellFormed, Decl.IsVariable]
  obtain ⟨-, -, -, hsame⟩ := passes_converge early h
  exact ⟨h, by decide +kernel, by decide +kernel,
    fun index => (hsame index).trans (by decide +kernel)⟩

end Session

end Moo
