import Moo.Proofs.Names.Accounts
import Moo.Proofs.Names.Lockstep

/-!
# What a scope binds when it is closed

A scope is told by its declarations alone. Each of them makes a symbol, or
none if it is a variable of an unknown struct type, and the scope keeps the
first symbol of each name. So what went before a declaration decides what its
name stands for, and nothing that was skipped does.

The declarations are those of the analysed tree, where a tag has the struct
type that it names. Scopes other than the global one are gone when analysis
is through: `Program.finals` runs the same actions and looks at each scope
when it is closed.

* `Decl.symbol?`: the symbol that a declaration makes.
* `bindings`: what the declarations of a scope come to.
* `Program.scopes`: the declarations of all scopes, outer ones first.
* `Scope.Holds.snoc`: one more declaration in a scope.
* `Stmt.analyze_holds`, `Decl.analyze_holds`: one part of a program.
* `analysis_holds`: a whole program.
-/
namespace Moo

/-! ## Declarations and their symbols -/

/-- A declaration, and the origin of the symbol that it makes. -/
abbrev Declared := Origin × Decl

/-- The declarations of a list from an index on, where `origin` tells the origin at each index. -/
def listed (origin : Nat → Origin) : Nat → List Decl → List Declared
  | _, [] => []
  | index, decl :: decls => (origin index, decl) :: listed origin (index + 1) decls

/-- The identifier that is declared. -/
def Decl.id? : Decl → Option Ident
  | .var _ id | .formal _ id | .function _ id _ _ _ | .struct id _ => some id
  | .stray _ => none

/-- The struct type that a tag stands for. -/
def Symbol.definition? : Symbol → Option StructType
  | .structType definition => some definition
  | _ => none

/-- The symbol of a variable of a type, in an analysed tree. -/
def TypeExpr.valueOf? (origin : Origin) : TypeExpr → Option Symbol
  | .primitive name => some (.value origin (if name = "void" then Symbol.errorType else name))
  | .struct tag => (tag.symbol.bind Symbol.definition?).map fun definition =>
    .structValue origin definition.name definition
  | .stray _ => none

/-- The first entry of each name. -/
def firsts : List (String × Symbol) → Scope
  | [] => []
  | entry :: entries => entry :: (firsts entries).filter (·.1 ≠ entry.1)

mutual

/-- The symbol that a declaration of an analysed tree makes, if it makes one. -/
def Decl.symbol? (origin : Origin) : Decl → Option Symbol
  | .var type _ | .formal type _ => type.valueOf? origin
  | .function returns _ formals _ _ => (functionSymbol origin returns formals).toOption
  | .struct tag fields =>
    some (.structType (.mk origin tag.name (firsts (Decl.fieldEntries origin 0 fields))))
  | .stray _ => none

/-- The names and symbols of the fields of the struct at `path`. -/
def Decl.fieldEntries (path : Origin) (index : Nat) : List Decl → List (String × Symbol)
  | [] => []
  | field :: fields =>
    (field.id?.bind fun id => (field.symbol? (path.child .fields index)).map (id.name, ·)).toList ++
      Decl.fieldEntries path (index + 1) fields

end

namespace Declared

/-- The declared name with the symbol that is made for it. -/
def entry? (declared : Declared) : Option (String × Symbol) :=
  declared.2.id?.bind fun id => (declared.2.symbol? declared.1).map (id.name, ·)

end Declared

/-- The names and symbols of the declarations that make one. -/
def entries (scope : List Declared) : List (String × Symbol) :=
  scope.filterMap Declared.entry?

/-- What a scope of these declarations binds: the first symbol of each name. -/
def bindings (scope : List Declared) : Scope :=
  firsts (entries scope)

@[simp]
theorem listed_decls (origin : Nat → Origin) (index : Nat) (decls : List Decl) :
    (listed origin index decls).map Prod.snd = decls := by
  induction decls generalizing index with
  | nil => rfl
  | cons decl decls ih => simp [listed, ih]

theorem Decl.fieldEntries_eq (path : Origin) (index : Nat) (fields : List Decl) :
    Decl.fieldEntries path index fields = entries (listed (path.child .fields) index fields) := by
  induction fields generalizing index with
  | nil => simp [Decl.fieldEntries, listed, entries]
  | cons field fields ih =>
    rw [Decl.fieldEntries, ih, listed, entries, entries, List.filterMap_cons]
    show (Declared.entry? (path.child .fields index, field)).toList ++ _ = _
    cases Declared.entry? (path.child .fields index, field) <;> rfl

@[simp]
theorem entries_snoc (before : List Declared) (declared : Declared) :
    entries (before ++ [declared]) = entries before ++ declared.entry?.toList := by
  simp only [entries, List.filterMap_append, List.filterMap_cons, List.filterMap_nil]
  cases declared.entry? <;> rfl

/-! ## First entries -/

theorem find?_filter_ne (scope : Scope) {own name : String} (h : name ≠ own) :
    Scope.find? (scope.filter (·.1 ≠ own)) name = scope.find? name := by
  induction scope with
  | nil => rfl
  | cons entry scope ih =>
    obtain ⟨key, symbol⟩ := entry
    rw [Scope.find?, Scope.find?] at ih ⊢
    by_cases hkey : key = own
    · have hne : (name == own) = false := by simpa using h
      rw [List.filter_cons_of_neg (by simp [hkey]), ih, List.lookup_cons, hkey, hne]
    · rw [List.filter_cons_of_pos (by simp [hkey]), List.lookup_cons, List.lookup_cons, ih]

/-- In the first entries a name is found as in all entries. -/
theorem find?_firsts (entries : List (String × Symbol)) (name : String) :
    (firsts entries).find? name = entries.lookup name := by
  induction entries with
  | nil => rfl
  | cons entry entries ih =>
    obtain ⟨own, symbol⟩ := entry
    rw [firsts, Scope.find?, List.lookup_cons, List.lookup_cons]
    by_cases h : name = own
    · simp [h]
    · have hbeq : (name == own) = false := by simpa using h
      simp only [hbeq]
      exact (find?_filter_ne (firsts entries) h).trans ih

/-- One more entry is kept if it is the first of its name. -/
theorem firsts_snoc (entries : List (String × Symbol)) (name : String) (symbol : Symbol) :
    firsts (entries ++ [(name, symbol)]) =
      if (entries.lookup name).isSome then firsts entries
      else firsts entries ++ [(name, symbol)] := by
  induction entries with
  | nil => rfl
  | cons entry entries ih =>
    obtain ⟨own, first⟩ := entry
    rw [List.cons_append, firsts, ih, firsts, List.lookup_cons]
    by_cases h : name = own
    · subst h
      cases entries.lookup name <;> simp
    · have hbeq : (name == own) = false := by simpa using h
      cases entries.lookup name <;> simp [hbeq, h]

/-! ## One more declaration -/

/-- Whether the declaration enters its name. -/
def Decl.isKnown : Decl → Bool
  | .var type _ | .formal type _ => type.isKnown
  | .function .. | .struct .. => true
  | .stray _ => false

/-- A declaration behind others of its scope. It makes a symbol if it enters its name, and what it
declares has the first symbol made for its name up to and including its own. -/
structure Declared.Settled (before : List Declared) (declared : Declared) : Prop where
  known : (declared.2.symbol? declared.1).isSome = declared.2.isKnown
  symbol : ∃ id, declared.2.id? = some id ∧
    id.symbol = (entries (before ++ [declared])).lookup id.name

/-- The scope has what the declarations bind, and these are settled. -/
structure Scope.Holds (inner : Scope) (scope : List Declared) : Prop where
  bindings : inner = bindings scope
  settled : ∀ before declared, before ++ [declared] <+: scope → declared.Settled before

theorem Scope.holds_nil : Scope.Holds [] [] :=
  ⟨rfl, by simp⟩

/-- What becomes of a scope of these entries and of an identifier that is declared there with a
symbol, if there is one. -/
structure Binds (entries : List (String × Symbol)) (symbol : Option Symbol) (id : Ident)
    (inner : Scope) : Prop where
  scope : inner = firsts (entries ++ (symbol.map (id.name, ·)).toList)
  symbol : id.symbol = (entries ++ (symbol.map (id.name, ·)).toList).lookup id.name

theorem Scope.Holds.snoc {inner after : Scope} {before : List Declared} {declared : Declared}
    {id : Ident} {symbol : Option Symbol} (h : inner.Holds before)
    (hid : declared.2.id? = some id) (hsymbol : declared.2.symbol? declared.1 = symbol)
    (hknown : symbol.isSome = declared.2.isKnown)
    (hbinds : Binds (entries before) symbol id after) :
    after.Holds (before ++ [declared]) := by
  have hentry : declared.entry? = symbol.map (id.name, ·) := by
    simp [Declared.entry?, hid, hsymbol]
  refine ⟨?_, fun front last hfront => ?_⟩
  · rw [Moo.bindings, entries_snoc, hentry]
    exact hbinds.scope
  · rcases List.prefix_concat_iff.1 hfront with hlast | hfront
    · obtain ⟨rfl, rfl⟩ : front = before ∧ last = declared := by simpa using hlast
      refine ⟨hsymbol ▸ hknown, id, hid, ?_⟩
      rw [entries_snoc, hentry]
      exact hbinds.symbol
    · exact h.settled front last hfront

/-! ## Actions -/

namespace Walk

variable {α : Type} {table : Table}

theorem resolveTag_finds (tag : Ident) (table : Table) (h : tag.symbol = none) :
    Reports (resolveTag tag) table fun result _ after =>
      after = table ∧ result.2 = result.1.symbol.bind Symbol.definition? ∧
        result.2.isSome = result.1.symbol.isSome := by
  refine .look ?_
  obtain ⟨name, loc, symbol⟩ := tag
  obtain rfl : symbol = none := h
  rcases table.lookup name with _ | _ | _ | definition | _ <;> exact ⟨_, rfl, rfl, rfl, rfl⟩

theorem enter_binds (entries : List (String × Symbol)) (id : Ident) (symbol : Option Symbol) :
    ((firsts entries).enter id symbol).1.1.name = id.name ∧
      Binds entries symbol ((firsts entries).enter id symbol).1.1
        ((firsts entries).enter id symbol).1.2 := by
  have hscope : ((firsts entries).enter id symbol).1.2 =
      firsts (entries ++ (symbol.map (id.name, ·)).toList) := by
    cases symbol with
    | none => simp
    | some symbol =>
      have hsnoc := firsts_snoc entries id.name symbol
      have hfind := find?_firsts entries id.name
      cases hl : entries.lookup id.name with
      | none =>
        rw [hl] at hsnoc hfind
        rw [Scope.enter_new hfind]
        exact hsnoc.symm
      | some old =>
        rw [hl] at hsnoc hfind
        rw [Scope.enter_old hfind]
        exact hsnoc.symm
  rw [Scope.enter_ident, hscope]
  exact ⟨rfl, rfl, find?_firsts _ _⟩

theorem bindMember_binds (entries : List (String × Symbol)) (id : Ident)
    (symbol : Option Symbol) (table : Table) :
    Reports (bindMember (firsts entries) id symbol) table fun result _ after =>
      after = table ∧ result.1.name = id.name ∧ Binds entries symbol result.1 result.2 := by
  obtain ⟨errors, herrors⟩ := (firsts entries).enter_errors? id symbol
  exact .look ⟨errors, herrors, rfl, enter_binds entries id symbol⟩

theorem bind_binds (entries : List (String × Symbol)) (scopes : List Scope) (id : Ident)
    (symbol : Option Symbol) :
    Reports (bind id symbol) ⟨firsts entries :: scopes⟩ fun result _ after =>
      ∃ inner, after = ⟨inner :: scopes⟩ ∧ result.name = id.name ∧
        Binds entries symbol result inner := by
  obtain ⟨errors, herrors⟩ := (firsts entries).enter_errors? id symbol
  exact .enter ⟨errors, herrors, _, rfl, enter_binds entries id symbol⟩

end Walk

open Walk

/-! ## Variables -/

/-- The symbol found for a variable is the one that its analysed type makes. -/
theorem TypeExpr.resolve_binds (origin : Origin) (id : Ident) (type : TypeExpr) (table : Table)
    (hw : type.WellFormed) (hs : Unresolved type.occurrences) :
    Reports (type.resolve origin id) table fun result _ after =>
      after = table ∧ result.1.valueOf? origin = result.2 ∧ result.2.isSome = result.1.isKnown := by
  cases type with
  | stray thing => exact hw.elim
  | primitive name =>
    unfold TypeExpr.resolve
    by_cases hv : name = "void"
    · simp only [hv, if_true]
      refine (report_reports id .voidVariable table).last ?_
      rintro - _ _ ⟨-, rfl⟩
      exact ⟨rfl, rfl, rfl⟩
    · simp only [hv, if_false]
      exact .pure ⟨rfl, by simp [TypeExpr.valueOf?, hv], rfl⟩
  | struct tag =>
    simp only [TypeExpr.occurrences, unresolved_cons, Occurrence.symbol] at hs
    refine (resolveTag_finds tag table hs.1).last ?_
    rintro ⟨tag', definition⟩ _ after ⟨ha, hdefinition, hsome⟩
    obtain rfl : definition = tag'.symbol.bind Symbol.definition? := hdefinition
    exact ⟨ha, rfl, Option.isSome_map.trans hsome⟩

/-- A declaration that resolves its type and then binds its name by `bindAs`, wherever that puts the
name: `Puts` tells the scope that it is in afterwards. -/
theorem declaration_holds {γ δ : Type} (origin : Origin) (type : TypeExpr) (id : Ident)
    {scope : Scope} {before : List Declared} (table : Table) (hl : scope.Holds before)
    (hw : type.WellFormed) (hs : Unresolved type.occurrences) (bindAs : Option Symbol → Walk γ)
    (idOf : γ → Ident) (make : TypeExpr → γ → δ) {decl : TypeExpr → Ident → Decl}
    (hdecl : decl = .var ∨ decl = .formal) (Puts : γ → Table → Scope → Prop)
    (hb : ∀ symbol, Reports (bindAs symbol) table fun result _ after =>
      ∃ inner, Puts result after inner ∧ Binds (entries before) symbol (idOf result) inner) :
    Reports (do
        let type ← type.resolve origin id
        let bound ← bindAs type.2
        pure (make type.1 bound)) table
      fun result _ after => ∃ type' bound inner, result = make type' bound ∧
        Puts bound after inner ∧ inner.Holds (before ++ [(origin, decl type' (idOf bound))]) := by
  refine (TypeExpr.resolve_binds origin id type table hw hs).bind ?_
  rintro ⟨type', symbol⟩ _ after ⟨rfl, hvalue, hsome⟩
  refine (hb symbol).last ?_
  rintro bound _ after ⟨inner, hputs, hbinds⟩
  refine ⟨type', bound, inner, rfl, hputs, ?_⟩
  rcases hdecl with rfl | rfl
  · exact hl.snoc rfl hvalue hsome hbinds
  · exact hl.snoc rfl hvalue hsome hbinds

/-- A variable or formal enters the innermost scope. -/
theorem Decl.analyzeVariable_holds (origin : Origin) (decl : Decl) {scope : Scope}
    {before : List Declared} (scopes : List Scope) (hl : scope.Holds before)
    (hw : decl.IsVariable ∨ decl.IsFormal) (hs : Unresolved decl.occurrences) :
    Reports (decl.analyzeVariable origin) ⟨scope :: scopes⟩ fun result _ after =>
      ∃ inner, after = ⟨inner :: scopes⟩ ∧ inner.Holds (before ++ [(origin, result)]) := by
  have key (type : TypeExpr) (id : Ident) (hw : type.WellFormed) (hs : Unresolved type.occurrences)
      {make : TypeExpr → Ident → Decl} (hmake : make = .var ∨ make = .formal) :
      Reports (do
          let type ← type.resolve origin id
          let id ← Walk.bind id type.2
          pure (make type.1 id)) ⟨scope :: scopes⟩ fun result _ after =>
        ∃ inner, after = ⟨inner :: scopes⟩ ∧ inner.Holds (before ++ [(origin, result)]) := by
    refine (declaration_holds origin type id ⟨scope :: scopes⟩ hl hw hs (Walk.bind id) (fun id => id)
      make hmake (fun _ after inner => after = ⟨inner :: scopes⟩) fun symbol => ?_).mono ?_
    · rw [hl.bindings]
      refine (bind_binds (entries before) scopes id symbol).mono ?_
      rintro result _ after ⟨inner, ha, -, hbinds⟩
      exact ⟨inner, ha, hbinds⟩
    · rintro _ _ after ⟨type', id', inner, rfl, ha, hholds⟩
      exact ⟨inner, ha, hholds⟩
  cases decl with
  | var type id =>
    simp only [Decl.occurrences, unresolved_append] at hs
    exact key type id (hw.resolve_right fun h => h) hs.1 (.inl rfl)
  | formal type id =>
    simp only [Decl.occurrences, unresolved_append] at hs
    exact key type id (hw.resolve_left fun h => h) hs.1 (.inr rfl)
  | function => exact hw.elim False.elim False.elim
  | struct => exact hw.elim False.elim False.elim
  | stray => exact hw.elim False.elim False.elim

theorem Decl.analyzeVariables_holds (path : Origin) (part : Part) (scopes : List Scope) :
    ∀ (decls : List Decl) (index : Nat) {scope : Scope} {before : List Declared},
      scope.Holds before → (∀ decl ∈ decls, decl.IsVariable ∨ decl.IsFormal) →
      Unresolved (Decl.occurrencesAll decls) →
      Reports (Decl.analyzeVariables path part index decls) ⟨scope :: scopes⟩
        fun result _ after => ∃ inner, after = ⟨inner :: scopes⟩ ∧
          inner.Holds (before ++ listed (path.child part) index result)
  | [], _, scope, _, hl, _, _ => .pure ⟨scope, rfl, by simpa [listed] using hl⟩
  | decl :: decls, index, _, before, hl, hw, hs => by
    obtain ⟨hwd, hws⟩ := List.forall_mem_cons.1 hw
    simp only [Decl.occurrencesAll, unresolved_append] at hs
    refine (decl.analyzeVariable_holds (path.child part index) scopes hl hwd hs.1).bind ?_
    rintro first _ _ ⟨inner, rfl, hfirst⟩
    refine (Decl.analyzeVariables_holds path part scopes decls (index + 1) hfirst hws hs.2).last ?_
    rintro others _ _ ⟨last, rfl, hlast⟩
    exact ⟨last, rfl, by simpa [listed] using hlast⟩

/-- A field enters the list of members, and no scope. -/
theorem Decl.analyzeField_holds (origin : Origin) (field : Decl) {members : Scope}
    {before : List Declared} (table : Table) (hl : members.Holds before) (hw : field.IsVariable)
    (hs : Unresolved field.occurrences) :
    Reports (field.analyzeField origin members) table fun result _ after =>
      after = table ∧ result.2.Holds (before ++ [(origin, result.1)]) := by
  cases field with
  | var type id =>
    simp only [Decl.occurrences, unresolved_append] at hs
    refine (declaration_holds origin type id table hl hw hs.1 (bindMember members id) Prod.fst
      (fun type bound => (Decl.var type bound.1, bound.2)) (.inl rfl)
      (fun bound after inner => after = table ∧ bound.2 = inner) fun symbol => ?_).mono ?_
    · rw [hl.bindings]
      refine (bindMember_binds (entries before) id symbol table).mono ?_
      rintro result _ after ⟨ha, -, hbinds⟩
      exact ⟨result.2, ⟨ha, rfl⟩, hbinds⟩
    · rintro _ _ after ⟨type', bound, _, rfl, ⟨ha, rfl⟩, hholds⟩
      exact ⟨ha, hholds⟩
  | formal => exact hw.elim
  | function => exact hw.elim
  | struct => exact hw.elim
  | stray => exact hw.elim

theorem Decl.analyzeFields_holds (path : Origin) (table : Table) :
    ∀ (fields : List Decl) (index : Nat) {members : Scope} {before : List Declared},
      members.Holds before → (∀ field ∈ fields, field.IsVariable) →
      Unresolved (Decl.occurrencesAll fields) →
      Reports (Decl.analyzeFields path index members fields) table fun result _ after =>
        after = table ∧ result.2.Holds (before ++ listed (path.child .fields) index result.1)
  | [], _, _, _, hl, _, _ => .pure ⟨rfl, by simpa [listed] using hl⟩
  | field :: fields, index, _, before, hl, hw, hs => by
    obtain ⟨hwf, hws⟩ := List.forall_mem_cons.1 hw
    simp only [Decl.occurrencesAll, unresolved_append] at hs
    refine (field.analyzeField_holds (path.child .fields index) table hl hwf hs.1).bind ?_
    rintro ⟨first, inner⟩ _ after ⟨rfl, hfirst⟩
    refine (Decl.analyzeFields_holds path _ fields (index + 1) hfirst hws hs.2).last ?_
    rintro ⟨others, last⟩ _ _ ⟨ha, hlast⟩
    exact ⟨ha, by simpa [listed] using hlast⟩

/-! ## Scopes as they are closed -/

mutual

/-- The declarations of the blocks in a statement, those of a block in front of those inside it. -/
def Stmt.scopes (path : Origin) : Stmt → List (List Declared)
  | .ifThen _ decls stmts | .loop _ decls stmts =>
    listed (path.child .decls) 0 decls :: Stmt.scopesAll path .stmts 0 stmts
  | .ifElse _ thenDecls thenStmts elseDecls elseStmts =>
    (listed (path.child .decls) 0 thenDecls :: Stmt.scopesAll path .stmts 0 thenStmts) ++
      listed (path.child .elseDecls) 0 elseDecls :: Stmt.scopesAll path .elseStmts 0 elseStmts
  | _ => []

def Stmt.scopesAll (path : Origin) (part : Part) (index : Nat) : List Stmt → List (List Declared)
  | [] => []
  | stmt :: stmts => stmt.scopes (path.child part index) ++ Stmt.scopesAll path part (index + 1) stmts

end

/-- The scopes inside a declaration at top level. The formals and the body of a function are one. -/
def Decl.scopes (origin : Origin) : Decl → List (List Declared)
  | .function _ _ formals decls stmts =>
    (listed (origin.child .formals) 0 formals ++ listed (origin.child .decls) 0 decls) ::
      Stmt.scopesAll origin .stmts 0 stmts
  | .struct _ fields => [listed (origin.child .fields) 0 fields]
  | _ => []

def Decl.scopesAll (clock : Nat) : List Decl → List (List Declared)
  | [] => []
  | decl :: decls => decl.scopes (.top clock) ++ Decl.scopesAll (clock + 1) decls

/-- The declarations of all scopes of a program, the global one first. -/
def Program.scopes (program : Program) : List (List Declared) :=
  listed .top 0 program.decls :: Decl.scopesAll 0 program.decls

/-- Some scopes that are looked at in a state, and others behind an action. -/
def seenBehind {α : Type} (scopes : WalkState → List Scope) (action : Walk α)
    (more : WalkState → List Scope) : WalkState → List Scope :=
  fun state => scopes state ++ more (action state).2

/-- A scope with these declarations, seen when the statements in it have been analysed, and the scopes
inside it. -/
def seenInside {α β : Type} (decls : Walk α) (stmts : Walk β) (inner : WalkState → List Scope) :
    WalkState → List Scope := fun state =>
  let inside := (decls (openScope state).2).2
  (stmts inside).2.table.locals :: inner inside

mutual

/-- Looks at the scopes that analysis of the statement opens, each when it is closed. -/
def Stmt.finals (path : Origin) : Stmt → WalkState → List Scope
  | .ifThen condition decls stmts | .loop condition decls stmts =>
    seenBehind (fun _ => []) condition.resolve <|
      seenInside (Decl.analyzeVariables path .decls 0 decls) (Stmt.analyzeAll path .stmts 0 stmts)
        (Stmt.finalsAll path .stmts 0 stmts)
  | .ifElse condition thenDecls thenStmts elseDecls elseStmts =>
    seenBehind (fun _ => []) condition.resolve <|
      seenBehind (seenInside (Decl.analyzeVariables path .decls 0 thenDecls)
          (Stmt.analyzeAll path .stmts 0 thenStmts) (Stmt.finalsAll path .stmts 0 thenStmts))
        (inScope do
          let decls ← Decl.analyzeVariables path .decls 0 thenDecls
          let stmts ← Stmt.analyzeAll path .stmts 0 thenStmts
          pure (decls, stmts)) <|
      seenInside (Decl.analyzeVariables path .elseDecls 0 elseDecls)
        (Stmt.analyzeAll path .elseStmts 0 elseStmts) (Stmt.finalsAll path .elseStmts 0 elseStmts)
  | _ => fun _ => []

def Stmt.finalsAll (path : Origin) (part : Part) (index : Nat) :
    List Stmt → WalkState → List Scope
  | [] => fun _ => []
  | stmt :: stmts =>
    seenBehind (stmt.finals (path.child part index)) (stmt.analyze (path.child part index))
      (Stmt.finalsAll path part (index + 1) stmts)

end

/-- The type and the name of a function. -/
def Decl.analyzeHead (origin : Origin) (returns : TypeExpr) (id : Ident) (formals : List Decl) :
    Walk (TypeExpr × Ident) := do
  let returns ← returns.resolveReturn
  let id ← bindFunction origin id returns formals
  pure (returns, id)

/-- The formals of a function and the declarations of its body. -/
def Decl.analyzeLocals (origin : Origin) (formals decls : List Decl) :
    Walk (List Decl × List Decl) := do
  let formals ← Decl.analyzeVariables origin .formals 0 formals
  let decls ← Decl.analyzeVariables origin .decls 0 decls
  pure (formals, decls)

/-- Looks at the scopes inside a declaration at top level, and at the members of a struct. -/
def Decl.finals (origin : Origin) : Decl → WalkState → List Scope
  | .function returns id formals decls stmts =>
    seenBehind (fun _ => []) (Decl.analyzeHead origin returns id formals) <|
      seenInside (Decl.analyzeLocals origin formals decls) (Stmt.analyzeAll origin .stmts 0 stmts)
        (Stmt.finalsAll origin .stmts 0 stmts)
  | .struct _ fields => fun state => [(Decl.analyzeFields origin 0 [] fields state).1.2]
  | _ => fun _ => []

def Decl.finalsAll (clock : Nat) : List Decl → WalkState → List Scope
  | [] => fun _ => []
  | decl :: decls =>
    seenBehind (decl.finals (.top clock)) (decl.analyze (.top clock))
      (Decl.finalsAll (clock + 1) decls)

/-- The scopes of a program, each as it is when it is closed, and the global one as it is in the
end. -/
def Program.finals (program : Program) : List Scope :=
  program.analyze.table.locals :: Decl.finalsAll 0 program.decls ⟨.new, [], none⟩

namespace Walk

variable {α β γ : Type} {table : Table}

/-- With no fault so far, the action goes through without one, and `post` holds of its result, of the
scopes that are looked at, and of the table that it leaves. -/
def Shows (action : Walk α) (finals : WalkState → List Scope) (table : Table)
    (post : α → List Scope → Table → Prop) : Prop :=
  ∀ events, ∃ result after later, action ⟨table, events, none⟩ = (result, ⟨after, later, none⟩) ∧
    post result (finals ⟨table, events, none⟩) after

namespace Shows

variable {action : Walk α} {finals : WalkState → List Scope} {mid : α → List Scope → Table → Prop}

/-- An action in which no scope is opened. -/
theorem ofReports {post : α → Table → Prop} (h : Reports action table fun result _ => post result) :
    Shows action (fun _ => []) table fun result scopes after => scopes = [] ∧ post result after := by
  intro events
  obtain ⟨result, errors, after, later, hrun, -, hpost⟩ := h events
  exact ⟨result, after, later, hrun, rfl, hpost⟩

theorem bind {next : α → Walk β} {more : WalkState → List Scope}
    {post : β → List Scope → Table → Prop} (h : Shows action finals table mid)
    (hn : ∀ result scopes after, mid result scopes after →
      Shows (next result) more after fun result' scopes' => post result' (scopes ++ scopes')) :
    Shows (action >>= next) (seenBehind finals action more) table post := by
  intro events
  obtain ⟨result, after, later, hrun, hmid⟩ := h events
  obtain ⟨result', last, end', hrun', hpost⟩ := hn result _ after hmid later
  refine ⟨result', last, end', (bind_run hrun).trans hrun', ?_⟩
  rw [seenBehind, hrun]
  exact hpost

theorem last {f : α → β} {post : β → List Scope → Table → Prop} (h : Shows action finals table mid)
    (hp : ∀ result scopes after, mid result scopes after → post (f result) scopes after) :
    Shows (do let result ← action; Pure.pure (f result)) finals table post := by
  intro events
  obtain ⟨result, after, later, hrun, hmid⟩ := h events
  exact ⟨f result, after, later, bind_run hrun, hp result _ after hmid⟩

theorem mono {post : α → List Scope → Table → Prop} (h : Shows action finals table mid)
    (hp : ∀ result scopes after, mid result scopes after → post result scopes after) :
    Shows action finals table post := by
  intro events
  obtain ⟨result, after, later, hrun, hmid⟩ := h events
  exact ⟨result, after, later, hrun, hp result _ after hmid⟩

/-- Declarations and statements in a scope of their own: it is seen as the declarations left it. -/
theorem inScope {decls : Walk α} {stmts : Walk β} {inner : WalkState → List Scope}
    {make : α → β → γ} (first : α → Scope → Prop) (second : β → List Scope → Prop)
    {post : γ → List Scope → Prop}
    (hd : Reports decls table.push fun result _ after =>
      ∃ own, after = ⟨own :: table.scopes⟩ ∧ first result own)
    (hs : ∀ own, Shows stmts inner ⟨own :: table.scopes⟩ fun result scopes after =>
      after = ⟨own :: table.scopes⟩ ∧ second result scopes)
    (hp : ∀ a own b scopes, first a own → second b scopes → post (make a b) (own :: scopes)) :
    Shows (inScope do
        let a ← decls
        let b ← stmts
        pure (make a b)) (seenInside decls stmts inner) table fun result scopes after =>
      post result scopes ∧ after = table := by
  intro events
  obtain ⟨a, errors, _, later, hdecls, -, own, rfl, hfirst⟩ :=
    hd (.opened table.push.depth :: events)
  obtain ⟨b, _, last, hstmts, rfl, hsecond⟩ := hs own later
  refine ⟨make a b, table, _, inScope_run ((bind_run hdecls).trans (bind_run hstmts)), ?_, rfl⟩
  have hopen : (openScope ⟨table, events, none⟩).2 =
      ⟨table.push, .opened table.push.depth :: events, none⟩ := rfl
  rw [seenInside, hopen, hdecls]
  dsimp only
  rw [hstmts]
  exact hp a own b _ hfirst hsecond

end Shows

end Walk

/-! ## Statements -/

/-- Each of the scopes holds what the declarations come to. -/
abbrev AllHold (finals : List Scope) (scopes : List (List Declared)) : Prop :=
  List.Forall₂ Scope.Holds finals scopes

theorem AllHold.append {finals more : List Scope} {scopes others : List (List Declared)}
    (h : AllHold finals scopes) (h' : AllHold more others) :
    AllHold (finals ++ more) (scopes ++ others) :=
  List.rel_append h h'

theorem AllHold.settled {finals : List Scope} {scopes : List (List Declared)}
    (h : AllHold finals scopes) {scope before : List Declared} (hscope : scope ∈ scopes)
    (declared : Declared) (hpart : before ++ [declared] <+: scope) :
    declared.Settled before := by
  induction h with
  | nil => cases hscope
  | cons hholds _ ih =>
    rcases List.mem_cons.1 hscope with rfl | hscope
    · exact hholds.settled before declared hpart
    · exact ih hscope

theorem AllHold.eq_map {finals : List Scope} {scopes : List (List Declared)}
    (h : AllHold finals scopes) : finals = scopes.map bindings := by
  induction h with
  | nil => rfl
  | cons hholds _ ih => rw [List.map_cons, ← hholds.bindings, ih]

/-- The declarations and statements of a block. -/
theorem block_shows {γ : Type} (path : Origin) (inDecls inStmts : Part) (table : Table)
    (decls : List Decl) (stmts : List Stmt) (make : List Decl → List Stmt → γ)
    (hd : ∀ decl ∈ decls, decl.IsVariable) (hs : Unresolved (Decl.occurrencesAll decls))
    (hstmts : ∀ table : Table, Shows (Stmt.analyzeAll path inStmts 0 stmts)
      (Stmt.finalsAll path inStmts 0 stmts) table fun result scopes after =>
        after = table ∧ AllHold scopes (Stmt.scopesAll path inStmts 0 result)) :
    Shows (inScope do
        let decls ← Decl.analyzeVariables path inDecls 0 decls
        let stmts ← Stmt.analyzeAll path inStmts 0 stmts
        pure (make decls stmts))
      (seenInside (Decl.analyzeVariables path inDecls 0 decls) (Stmt.analyzeAll path inStmts 0 stmts)
        (Stmt.finalsAll path inStmts 0 stmts)) table fun result scopes after =>
      (∃ decls' stmts', result = make decls' stmts' ∧
        AllHold scopes (listed (path.child inDecls) 0 decls' ::
          Stmt.scopesAll path inStmts 0 stmts')) ∧ after = table := by
  refine .inScope (fun decls' own => own.Holds (listed (path.child inDecls) 0 decls'))
    (fun stmts' scopes => AllHold scopes (Stmt.scopesAll path inStmts 0 stmts')) ?_ ?_ ?_
  · refine (Decl.analyzeVariables_holds path inDecls table.scopes decls 0 Scope.holds_nil
      (fun decl hm => .inl (hd decl hm)) hs).mono ?_
    rintro decls' _ _ ⟨inner, rfl, hinner⟩
    exact ⟨inner, rfl, by simpa using hinner⟩
  · exact fun own => hstmts _
  · exact fun decls' own stmts' scopes hown hscopes => ⟨decls', stmts', rfl, .cons hown hscopes⟩

/-- An expression opens no scope and leaves the table as it is. -/
theorem Expr.resolve_shows (expr : Expr) (table : Table) (hw : expr.WellFormed)
    (hs : Unresolved expr.occurrences) :
    Shows expr.resolve (fun _ => []) table fun _ scopes after => scopes = [] ∧ after = table :=
  .ofReports ((expr.resolve_reports table hw hs).mono fun _ _ _ h => h.1)

/-- A statement that holds an expression and nothing else. -/
theorem Expr.alone_shows (path : Origin) (expr : Expr) (make : Expr → Stmt) (table : Table)
    (hw : expr.WellFormed) (hs : Unresolved expr.occurrences)
    (hmake : ∀ expr, (make expr).scopes path = []) :
    Shows (do let result ← expr.resolve; pure (make result.1)) (fun _ => []) table
      fun result scopes after => after = table ∧ AllHold scopes (result.scopes path) := by
  refine (expr.resolve_shows table hw hs).last ?_
  rintro result _ after ⟨rfl, ha⟩
  exact ⟨ha, by rw [hmake]; exact .nil⟩

/-- A statement of a condition and one block. -/
theorem guarded_shows (path : Origin) (table : Table) (condition : Expr) (decls : List Decl)
    (stmts : List Stmt) (make : Expr → List Decl → List Stmt → Stmt) (hwc : condition.WellFormed)
    (hwd : ∀ decl ∈ decls, decl.IsVariable) (hc : Unresolved condition.occurrences)
    (hd : Unresolved (Decl.occurrencesAll decls))
    (hstmts : ∀ table : Table, Shows (Stmt.analyzeAll path .stmts 0 stmts)
      (Stmt.finalsAll path .stmts 0 stmts) table fun result scopes after =>
        after = table ∧ AllHold scopes (Stmt.scopesAll path .stmts 0 result))
    (hmake : ∀ condition decls stmts, (make condition decls stmts).scopes path =
      listed (path.child .decls) 0 decls :: Stmt.scopesAll path .stmts 0 stmts) :
    Shows (do
        let condition ← condition.resolve
        inScope do
          let decls ← Decl.analyzeVariables path .decls 0 decls
          let stmts ← Stmt.analyzeAll path .stmts 0 stmts
          pure (make condition.1 decls stmts))
      (seenBehind (fun _ => []) condition.resolve
        (seenInside (Decl.analyzeVariables path .decls 0 decls) (Stmt.analyzeAll path .stmts 0 stmts)
          (Stmt.finalsAll path .stmts 0 stmts))) table
      fun result scopes after => after = table ∧ AllHold scopes (result.scopes path) := by
  refine (condition.resolve_shows table hwc hc).bind ?_
  rintro first _ _ ⟨rfl, rfl⟩
  refine (block_shows path .decls .stmts _ decls stmts (make first.1) hwd hd hstmts).mono ?_
  rintro _ scopes _ ⟨⟨decls', stmts', rfl, hscopes⟩, ha⟩
  exact ⟨ha, by rw [hmake]; exact hscopes⟩

mutual

theorem Stmt.analyze_holds (path : Origin) : ∀ (stmt : Stmt) (table : Table), stmt.WellFormed →
    Unresolved stmt.occurrences → Shows (stmt.analyze path) (stmt.finals path) table
      fun result scopes after => after = table ∧ AllHold scopes (result.scopes path)
  | .assign expr, table, hw, hs => expr.alone_shows path .assign table hw hs fun _ => rfl
  | .increment expr, table, hw, hs => expr.alone_shows path .increment table hw hs fun _ => rfl
  | .decrement expr, table, hw, hs => expr.alone_shows path .decrement table hw hs fun _ => rfl
  | .read expr, table, hw, hs => expr.alone_shows path .read table hw hs fun _ => rfl
  | .write expr, table, hw, hs => expr.alone_shows path .write table hw hs fun _ => rfl
  | .call expr, table, hw, hs => expr.alone_shows path .call table hw hs fun _ => rfl
  | .returnValue expr, table, hw, hs => expr.alone_shows path .returnValue table hw hs fun _ => rfl
  | .returnNothing, _, _, _ => fun events => ⟨_, _, events, rfl, rfl, .nil⟩
  | .stray _, _, hw, _ => hw.elim
  | .ifThen condition decls stmts, table, ⟨hwc, hwd, hws⟩, hs => by
    simp only [Stmt.occurrences, unresolved_append] at hs
    exact guarded_shows path table condition decls stmts .ifThen hwc hwd hs.1.1 hs.1.2
      (fun table => Stmt.analyzeAll_holds path .stmts stmts 0 table hws hs.2) fun _ _ _ => rfl
  | .loop condition decls stmts, table, ⟨hwc, hwd, hws⟩, hs => by
    simp only [Stmt.occurrences, unresolved_append] at hs
    exact guarded_shows path table condition decls stmts .loop hwc hwd hs.1.1 hs.1.2
      (fun table => Stmt.analyzeAll_holds path .stmts stmts 0 table hws hs.2) fun _ _ _ => rfl
  | .ifElse condition thenDecls thenStmts elseDecls elseStmts, table,
      ⟨hwc, ⟨hwtd, hwts⟩, hwed, hwes⟩, hs => by
    simp only [Stmt.occurrences, unresolved_append] at hs
    obtain ⟨⟨⟨⟨hc, htd⟩, hts⟩, hed⟩, hes⟩ := hs
    refine (condition.resolve_shows table hwc hc).bind ?_
    rintro first _ _ ⟨rfl, rfl⟩
    refine (block_shows path .decls .stmts _ thenDecls thenStmts Prod.mk hwtd htd
      fun table => Stmt.analyzeAll_holds path .stmts thenStmts 0 table hwts hts).bind ?_
    rintro _ thenScopes _ ⟨⟨thenDecls', thenStmts', rfl, hthen⟩, rfl⟩
    refine (block_shows path .elseDecls .elseStmts _ elseDecls elseStmts _ hwed hed
      fun table => Stmt.analyzeAll_holds path .elseStmts elseStmts 0 table hwes hes).mono ?_
    rintro _ elseScopes _ ⟨⟨elseDecls', elseStmts', rfl, helse⟩, ha⟩
    exact ⟨ha, hthen.append helse⟩

theorem Stmt.analyzeAll_holds (path : Origin) (part : Part) : ∀ (stmts : List Stmt) (index : Nat)
    (table : Table), Stmt.WellFormedAll stmts → Unresolved (Stmt.occurrencesAll stmts) →
    Shows (Stmt.analyzeAll path part index stmts) (Stmt.finalsAll path part index stmts) table
      fun result scopes after => after = table ∧
        AllHold scopes (Stmt.scopesAll path part index result)
  | [], _, _, _, _ => fun events => ⟨_, _, events, rfl, rfl, .nil⟩
  | stmt :: stmts, index, table, ⟨hw, hws⟩, hs => by
    simp only [Stmt.occurrencesAll, unresolved_append] at hs
    refine (Stmt.analyze_holds (path.child part index) stmt table hw hs.1).bind ?_
    rintro first scopes _ ⟨rfl, hfirst⟩
    refine (Stmt.analyzeAll_holds path part stmts (index + 1) _ hws hs.2).last ?_
    rintro others more _ ⟨ha, hothers⟩
    exact ⟨ha, hfirst.append hothers⟩

end

/-! ## Declarations at top level -/

/-- The symbol of a function is that of the analysed function. -/
theorem Decl.analyzeVariables_formalTypes (path : Origin) (part : Part) (index : Nat)
    (formals : List Decl) :
    Yields (Decl.analyzeVariables path part index formals) fun result =>
      result.mapM Decl.formalType = formals.mapM Decl.formalType := by
  refine (Decl.analyzeVariables_forget path part formals index).mono fun result hsame => ?_
  rw [← mapM_formalType_relabel .forget, hsame, mapM_formalType_relabel]

theorem Decl.analyze_headed (origin : Origin) (returns : TypeExpr) (id : Ident)
    (formals decls : List Decl) (stmts : List Stmt) :
    (Decl.function returns id formals decls stmts).analyze origin = (do
      let head ← Decl.analyzeHead origin returns id formals
      inScope do
        let locals ← Decl.analyzeLocals origin formals decls
        let stmts ← Stmt.analyzeAll origin .stmts 0 stmts
        pure (.function head.1 head.2 locals.1 locals.2 stmts)) :=
  rfl

theorem Decl.analyzeHead_binds (origin : Origin) (returns : TypeExpr) (id : Ident)
    (formals : List Decl) {scope : Scope} {before : List Declared} (hl : scope.Holds before)
    (hr : returns.WellFormed) (hf : ∀ formal ∈ formals, formal.IsFormal)
    (hs : Unresolved returns.occurrences) :
    Reports (Decl.analyzeHead origin returns id formals) ⟨[scope]⟩ fun result _ after =>
      ∃ inner symbol, after = ⟨[inner]⟩ ∧ functionSymbol origin result.1 formals = .ok symbol ∧
        Binds (entries before) (some symbol) result.2 inner := by
  refine (resolveReturn_reports returns ⟨[scope]⟩ hr hs).bind ?_
  rintro returns' _ _ ⟨rfl, hr', -⟩
  obtain ⟨name, params, hsymbol⟩ := functionSymbol_isOk origin returns' formals hr' hf
  rw [hl.bindings]
  unfold bindFunction
  simp only [hsymbol]
  have hbind := bind_binds (entries before) [] id (some (.function origin name params))
  refine (hbind.bind ?_).last fun _ _ _ h => h
  rintro id' _ _ ⟨inner, rfl, -, hbinds⟩
  refine ((note_runs (.entered id'.name) _ rfl).reports fun _ after ha => ?_).last fun _ _ _ h => h
  exact ⟨inner, _, ha, hsymbol, hbinds⟩

theorem Decl.analyzeLocals_holds (origin : Origin) (formals decls : List Decl)
    (scopes : List Scope) (hf : ∀ formal ∈ formals, formal.IsFormal)
    (hd : ∀ decl ∈ decls, decl.IsVariable) (hsf : Unresolved (Decl.occurrencesAll formals))
    (hsd : Unresolved (Decl.occurrencesAll decls)) :
    Reports (Decl.analyzeLocals origin formals decls) ⟨[] :: scopes⟩ fun result _ after =>
      ∃ own, after = ⟨own :: scopes⟩ ∧
        result.1.mapM Decl.formalType = formals.mapM Decl.formalType ∧
        own.Holds (listed (origin.child .formals) 0 result.1 ++
          listed (origin.child .decls) 0 result.2) := by
  refine ((Decl.analyzeVariables_holds origin .formals scopes formals 0 Scope.holds_nil
    (fun d hm => .inr (hf d hm)) hsf).yields
      (Decl.analyzeVariables_formalTypes origin .formals 0 formals)).bind ?_
  rintro formals' _ _ ⟨htypes, inner, rfl, hinner⟩
  refine (Decl.analyzeVariables_holds origin .decls scopes decls 0 hinner
    (fun d hm => .inl (hd d hm)) hsd).last ?_
  rintro decls' _ _ ⟨own, rfl, hown⟩
  exact ⟨own, rfl, htypes, hown⟩

/-- The formals and the body of a function are one scope. -/
theorem body_shows {γ : Type} (origin : Origin) (table : Table) (formals decls : List Decl)
    (stmts : List Stmt) (make : List Decl → List Decl → List Stmt → γ)
    (hwf : ∀ formal ∈ formals, formal.IsFormal) (hwd : ∀ decl ∈ decls, decl.IsVariable)
    (hws : Stmt.WellFormedAll stmts) (hsf : Unresolved (Decl.occurrencesAll formals))
    (hsd : Unresolved (Decl.occurrencesAll decls)) (hss : Unresolved (Stmt.occurrencesAll stmts)) :
    Shows (inScope do
        let locals ← Decl.analyzeLocals origin formals decls
        let stmts ← Stmt.analyzeAll origin .stmts 0 stmts
        pure (make locals.1 locals.2 stmts))
      (seenInside (Decl.analyzeLocals origin formals decls) (Stmt.analyzeAll origin .stmts 0 stmts)
        (Stmt.finalsAll origin .stmts 0 stmts)) table fun result scopes after =>
      (∃ formals' decls' stmts', result = make formals' decls' stmts' ∧
        formals'.mapM Decl.formalType = formals.mapM Decl.formalType ∧
        AllHold scopes ((listed (origin.child .formals) 0 formals' ++
          listed (origin.child .decls) 0 decls') :: Stmt.scopesAll origin .stmts 0 stmts')) ∧
        after = table :=
  .inScope
    (fun (locals : List Decl × List Decl) own =>
      locals.1.mapM Decl.formalType = formals.mapM Decl.formalType ∧
      own.Holds (listed (origin.child .formals) 0 locals.1 ++
        listed (origin.child .decls) 0 locals.2))
    (fun stmts' scopes => AllHold scopes (Stmt.scopesAll origin .stmts 0 stmts'))
    (Decl.analyzeLocals_holds origin formals decls table.scopes hwf hwd hsf hsd)
    (fun _ => Stmt.analyzeAll_holds origin .stmts stmts 0 _ hws hss)
    fun locals _ stmts' _ ⟨htypes, hown⟩ hscopes =>
      ⟨locals.1, locals.2, stmts', rfl, htypes, .cons hown hscopes⟩

theorem Decl.analyze_holds (origin : Origin) (decl : Decl) {scope : Scope}
    {before : List Declared} (hl : scope.Holds before) (hw : decl.WellFormed)
    (hs : Unresolved decl.occurrences) :
    Shows (decl.analyze origin) (decl.finals origin) ⟨[scope]⟩ fun result scopes after =>
      ∃ inner, after = ⟨[inner]⟩ ∧ inner.Holds (before ++ [(origin, result)]) ∧
        AllHold scopes (result.scopes origin) := by
  cases decl with
  | formal => exact hw.elim
  | stray => exact hw.elim
  | var type id =>
    have hvar : Yields ((Decl.var type id).analyzeVariable origin) fun result =>
        result.scopes origin = [] :=
      .of fun _ => rfl
    refine (Shows.ofReports (((Decl.var type id).analyzeVariable_holds origin [] hl
      (.inl hw) hs).yields hvar)).mono ?_
    rintro result _ after ⟨rfl, hscopes, inner, ha, hinner⟩
    exact ⟨inner, ha, hinner, hscopes ▸ .nil⟩
  | struct tag fields =>
    simp only [Decl.occurrences, unresolved_cons] at hs
    intro events
    obtain ⟨⟨fields', members⟩, _, _, later, hfields, -, rfl, hmembers⟩ :=
      Decl.analyzeFields_holds origin ⟨[scope]⟩ fields 0 Scope.holds_nil hw hs.2 events
    obtain ⟨tag', _, _, last, hbind, -, inner, rfl, hname, hbinds⟩ :=
      bind_binds (entries before) [] tag (some (.structType (.mk origin tag.name members))) later
    rw [show firsts (entries before) = scope from hl.bindings.symm] at hbind
    refine ⟨.struct tag' fields', _, last, (bind_run hfields).trans ((bind_run hbind).trans rfl),
      inner, rfl, hl.snoc rfl ?_ rfl hbinds, ?_⟩
    · have hown : members = bindings (listed (origin.child .fields) 0 fields') := hmembers.bindings
      rw [Decl.symbol?, Decl.fieldEntries_eq, hname, hown]
      rfl
    · have hfinal :
          (Decl.analyzeFields origin 0 [] fields ⟨⟨[scope]⟩, events, none⟩).1.2 = members := by
        rw [hfields]
      exact .cons (hfinal ▸ hmembers) .nil
  | function returns id formals decls stmts =>
    obtain ⟨hwr, hwf, hwd, hws⟩ := hw
    simp only [Decl.occurrences, unresolved_append, unresolved_cons] at hs
    obtain ⟨⟨⟨hsr, -, hsf⟩, hsd⟩, hss⟩ := hs
    rw [Decl.analyze_headed]
    refine (Shows.ofReports
      (Decl.analyzeHead_binds origin returns id formals hl hwr hwf hsr)).bind ?_
    rintro ⟨returns', id'⟩ _ _ ⟨rfl, inner, symbol, rfl, hsymbol, hbinds⟩
    refine (body_shows origin ⟨[inner]⟩ formals decls stmts _ hwf hwd hws hsf hsd hss).mono ?_
    rintro _ scopes _ ⟨⟨formals', decls', stmts', rfl, htypes, hscopes⟩, rfl⟩
    refine ⟨inner, rfl, hl.snoc rfl ?_ rfl hbinds, hscopes⟩
    have hsame : functionSymbol origin returns' formals' = .ok symbol := by
      rw [← hsymbol, functionSymbol, functionSymbol, htypes]
    show (functionSymbol origin returns' formals').toOption = some symbol
    rw [hsame]
    rfl

theorem Decl.analyzeAll_holds : ∀ (decls : List Decl) (clock : Nat) {scope : Scope}
    {before : List Declared}, scope.Holds before → (∀ decl ∈ decls, decl.WellFormed) →
    Unresolved (Decl.occurrencesAll decls) →
    Shows (Decl.analyzeAll clock decls) (Decl.finalsAll clock decls) ⟨[scope]⟩
      fun result scopes after => ∃ inner, after = ⟨[inner]⟩ ∧
        inner.Holds (before ++ listed .top clock result) ∧
        AllHold scopes (Decl.scopesAll clock result)
  | [], _, scope, _, hl, _, _ =>
    fun events => ⟨_, _, events, rfl, scope, rfl, by simpa [listed] using hl, .nil⟩
  | decl :: decls, clock, _, before, hl, hw, hs => by
    obtain ⟨hwd, hws⟩ := List.forall_mem_cons.1 hw
    simp only [Decl.occurrencesAll, unresolved_append] at hs
    refine (decl.analyze_holds (.top clock) hl hwd hs.1).bind ?_
    rintro first scopes _ ⟨inner, rfl, hfirst, hscopes⟩
    refine (Decl.analyzeAll_holds decls (clock + 1) hfirst hws hs.2).last ?_
    rintro others more _ ⟨last, rfl, hlast, hmore⟩
    exact ⟨last, rfl, by simpa [listed] using hlast, hscopes.append hmore⟩

/-- Each scope of a program without symbols holds what its declarations come to. -/
theorem analysis_holds (program : Program) (hw : program.WellFormed)
    (hs : Unresolved program.occurrences) :
    AllHold program.finals program.analyze.program.scopes := by
  obtain ⟨decls, _, events, hrun, inner, rfl, hinner, hscopes⟩ :=
    Decl.analyzeAll_holds program.decls 0 Scope.holds_nil hw hs []
  rw [Program.finals, Program.analyze_of_run hrun]
  exact .cons hinner hscopes

end Moo
