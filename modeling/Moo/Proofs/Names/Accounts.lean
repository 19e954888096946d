import Moo.Proofs.Names.Frame
import Moo.Proofs.Names.Refinement
import Moo.Proofs.Names.Sites

/-!
# Every name without a symbol is reported

Analysis visits each site of a tree once, in order, and reports what there is
to complain about there and nothing else. With the locations of a tree that
was read, the reports tell of every single name why it has no symbol.

What an action reports may depend on its result here (`Walk.Reports`).
`Scope.Lists` ties the innermost scope to the declarations that were visited
in it.

* `Expr.resolve_reports`, `Stmt.analyze_reports`, `Decl.analyze_reports`: one
  part of a program.
* `analysis_explained`: a whole program.
* `analysis_accounted`: a program that was read.
-/
namespace Moo

/-! ## Names that are declared -/

/-- The names in the scope are those that the declarations enter. -/
def Scope.Lists (scope : Scope) (decls : List Decl) : Prop :=
  ∀ name, (scope.find? name).isSome = bound decls name

theorem Scope.lists_nil : Scope.Lists [] [] :=
  fun _ => rfl

theorem Scope.isSome_find?_snoc (scope : Scope) (own name : String) (symbol : Symbol) :
    (Scope.find? (scope ++ [(own, symbol)]) name).isSome =
      ((scope.find? name).isSome || own = name) := by
  unfold Scope.find?
  rw [List.lookup_append, Option.isSome_or, List.lookup_cons]
  by_cases h : own = name
  · simp [h]
  · have hbeq : (name == own) = false := by simpa using Ne.symm h
    simp [h, hbeq]

/-- What comes of a declared name: `known` tells whether there was a symbol for it. -/
structure Enters (before : List Decl) (known : Bool) (id : Ident) (errors : List Diagnostic)
    (inner : Scope) : Prop where
  symbol : id.symbol.isSome = (known || bound before id.name)
  errors_eq : errors = if known && bound before id.name then [.about id .redeclared] else []
  names : ∀ name, (inner.find? name).isSome = (bound before name || (known && id.name = name))

namespace Enters

variable {before : List Decl} {id : Ident} {errors : List Diagnostic} {inner : Scope}

theorem errors_declaration (before : List Decl) (type : Option TypeExpr) (id : Ident) :
    (Site.declaration before type id).errors =
      (if type.any TypeExpr.isVoid then [.about id .voidVariable] else []) ++
        if type.all TypeExpr.isKnown && bound before id.name then [.about id .redeclared] else [] := by
  simp only [Site.errors, Site.misuses, List.map_append]
  split <;> split <;> rfl

/-- A variable, field or formal, behind its type. -/
theorem explained {type : TypeExpr} {found : List Diagnostic}
    (h : Enters before type.isKnown id errors inner) (ht : Explained type.sites found) :
    Explained (type.sites ++ [.declaration before (some type) id])
      (found ++ (if type.isVoid then [.about id .voidVariable] else []) ++ errors) := by
  have herrors := errors_declaration before (some type) id
  rw [Option.any_some, Option.all_some, ← h.errors_eq] at herrors
  rw [List.append_assoc]
  exact ht.append (.single h.symbol herrors)

/-- A function or the tag of a struct. -/
theorem explained_untyped (h : Enters before true id errors inner) :
    Explained [.declaration before none id] errors := by
  have herrors := errors_declaration before none id
  rw [Option.any_none, Option.all_none, ← h.errors_eq] at herrors
  exact .single h.symbol herrors

end Enters

/-- A name that is entered in a scope. -/
theorem Scope.Lists.enter {scope : Scope} {before : List Decl} (hl : scope.Lists before)
    (id : Ident) (symbol : Option Symbol) :
    ∃ errors, (scope.enter id symbol).2.errors? = some errors ∧
      (scope.enter id symbol).1.1.loc = id.loc ∧
      Enters before symbol.isSome (scope.enter id symbol).1.1 errors
        (scope.enter id symbol).1.2 := by
  have hown := hl id.name
  cases symbol with
  | none =>
    refine ⟨[], rfl, rfl, by simpa using hown, by simp, fun name => ?_⟩
    simpa using hl name
  | some symbol =>
    cases hf : scope.find? id.name with
    | none =>
      rw [hf, Option.isSome_none] at hown
      rw [enter_new hf]
      refine ⟨[], rfl, rfl, rfl, by simp [← hown], fun name => ?_⟩
      rw [Scope.isSome_find?_snoc, hl name, Option.isSome_some, Bool.true_and]
    | some old =>
      rw [hf, Option.isSome_some] at hown
      rw [enter_old hf]
      refine ⟨_, rfl, rfl, rfl, by simp [← hown, Diagnostic.about], fun name => ?_⟩
      rw [hl name, Option.isSome_some, Bool.true_and]
      by_cases hname : id.name = name
      · rw [← hname, ← hown, Bool.true_or]
      · simp [hname]

namespace Walk

theorem report_reports (id : Ident) (misuse : Misuse) (table : Table) :
    Reports (report id misuse) table fun _ errors after =>
      errors = [.about id misuse] ∧ after = table :=
  (report_runs id misuse table).reports fun _ _ ha => ⟨rfl, ha⟩

theorem resolve_reports (id : Ident) (table : Table) :
    Reports (resolve id) table fun result errors after =>
      after = table ∧ result.2 = result.1.symbol ∧ Explained [.use result.1] errors := by
  refine .look ?_
  cases table.lookup id.name with
  | none => exact ⟨_, rfl, rfl, rfl, .single trivial rfl⟩
  | some symbol => exact ⟨_, rfl, rfl, rfl, .single trivial rfl⟩

/-- A tag that named nothing before has a symbol exactly if it names a struct type. -/
theorem resolveTag_reports (tag : Ident) (table : Table) (h : tag.symbol = none) :
    Reports (resolveTag tag) table fun result errors after =>
      after = table ∧ result.2.isSome = result.1.symbol.isSome ∧ Explained [.tag result.1] errors := by
  refine .look ?_
  obtain ⟨name, loc, symbol⟩ := tag
  obtain rfl : symbol = none := h
  rcases table.lookup name with _ | _ | _ | definition | _ <;>
    exact ⟨_, rfl, rfl, rfl, .single trivial rfl⟩

theorem bindMember_reports {members : Scope} {before : List Decl} (hl : members.Lists before)
    (id : Ident) (symbol : Option Symbol) (table : Table) :
    Reports (bindMember members id symbol) table fun result errors after =>
      after = table ∧ result.1.loc = id.loc ∧
        Enters before symbol.isSome result.1 errors result.2 := by
  obtain ⟨errors, herrors, hloc, henters⟩ := hl.enter id symbol
  exact .look ⟨errors, herrors, rfl, hloc, henters⟩

theorem bind_reports {scope : Scope} {before : List Decl} (hl : scope.Lists before)
    (scopes : List Scope) (id : Ident) (symbol : Option Symbol) :
    Reports (bind id symbol) ⟨scope :: scopes⟩ fun result errors after =>
      ∃ inner, after = ⟨inner :: scopes⟩ ∧ result.loc = id.loc ∧
        Enters before symbol.isSome result errors inner := by
  obtain ⟨errors, herrors, hloc, henters⟩ := hl.enter id symbol
  exact .enter ⟨errors, herrors, _, rfl, hloc, henters⟩

end Walk

open Walk

/-! ## Expressions -/

/-- A step behind a dot. -/
theorem narrow_reports {object : Expr} (hw : object.WellFormed) {base : Option Symbol}
    (hb : base = object.lastIdent?.bind Ident.symbol) (field : Ident) (hf : field.symbol = none)
    (table : Table) :
    Reports (narrow object base field none) table fun result errors after =>
      after = table ∧ result.2.2 = result.1.symbol ∧
        Explained [.access object result.1 result.2.1] errors := by
  subst hb
  refine .look ?_
  rw [hw.blames]
  obtain ⟨name, loc, symbol⟩ := field
  obtain rfl : symbol = none := hf
  rcases hbase : object.lastIdent?.bind Ident.symbol with _ | _ | _ | _ | ⟨origin, type, definition⟩
  case some.structValue =>
    dsimp only
    cases hs : Scope.find? definition.members name with
    | none =>
      refine ⟨_, rfl, rfl, rfl, .single ⟨rfl, ?_⟩ ?_⟩
      · simp [hbase, Symbol.member?, hs]
      · simp [Site.errors, Site.misuses, hbase, hs]
    | some symbol =>
      refine ⟨_, rfl, rfl, rfl, .single ⟨rfl, ?_⟩ ?_⟩
      · simp [hbase, Symbol.member?, hs]
      · simp [Site.errors, Site.misuses, hbase, hs]
  all_goals
    refine ⟨_, rfl, rfl, rfl, .single ⟨rfl, ?_⟩ ?_⟩
    · simp [hbase, Symbol.member?]
    · simp [Site.errors, Site.misuses, hbase]

mutual

theorem Expr.resolve_reports (table : Table) : ∀ expr : Expr, expr.WellFormed →
    Unresolved expr.occurrences → Reports expr.resolve table fun result errors after =>
      after = table ∧ result.2 = result.1.lastIdent?.bind Ident.symbol ∧
        Explained result.1.sites errors
  | .int .., _, _ | .str .., _, _ | .bool .., _, _ => .pure ⟨rfl, rfl, .nil⟩
  | .stray _, hw, _ => hw.elim
  | .name id, _, _ => (Walk.resolve_reports id table).last fun _ _ _ h => h
  | .dot object field symbol, hw, hs => by
    simp only [Expr.occurrences, List.cons_append, unresolved_cons, unresolved_append,
      Occurrence.symbol] at hs
    obtain ⟨rfl, ho, hf, -⟩ := hs
    refine ((object.resolve_reports table hw ho).yields object.resolve_wellFormed).bind ?_
    rintro ⟨resolved, base⟩ errors after ⟨hresolved, rfl, hbase, hobject⟩
    refine (narrow_reports (hresolved.2 hw) hbase field hf _).last ?_
    rintro ⟨field', own, denoted⟩ more after ⟨ha, hd, haccess⟩
    exact ⟨ha, hd, hobject.append haccess⟩
  | .assign target value, ⟨hwt, hwv⟩, hs => by
    simp only [Expr.occurrences, unresolved_append] at hs
    refine (target.resolve_reports table hwt hs.1).bind ?_
    rintro first errors after ⟨rfl, -, htarget⟩
    refine (value.resolve_reports _ hwv hs.2).last ?_
    rintro second more after ⟨ha, -, hvalue⟩
    exact ⟨ha, rfl, htarget.append hvalue⟩
  | .call callee args, hw, hs => by
    simp only [Expr.occurrences, unresolved_cons] at hs
    refine (Walk.resolve_reports callee table).bind ?_
    rintro first errors after ⟨rfl, -, hcallee⟩
    refine (Expr.resolveAll_reports _ args hw hs.2).last ?_
    rintro others more after ⟨ha, hargs⟩
    exact ⟨ha, rfl, hcallee.append hargs⟩
  | .unary op operand, hw, hs => by
    refine (operand.resolve_reports table hw hs).last ?_
    rintro result errors after ⟨ha, -, hoperand⟩
    exact ⟨ha, rfl, hoperand⟩
  | .binary op left right, ⟨hwl, hwr⟩, hs => by
    simp only [Expr.occurrences, unresolved_append] at hs
    refine (left.resolve_reports table hwl hs.1).bind ?_
    rintro first errors after ⟨rfl, -, hleft⟩
    refine (right.resolve_reports _ hwr hs.2).last ?_
    rintro second more after ⟨ha, -, hright⟩
    exact ⟨ha, rfl, hleft.append hright⟩

theorem Expr.resolveAll_reports (table : Table) : ∀ exprs : List Expr, Expr.WellFormedAll exprs →
    Unresolved (Expr.occurrencesAll exprs) →
    Reports (Expr.resolveAll exprs) table fun result errors after =>
      after = table ∧ Explained (Expr.sitesAll result) errors
  | [], _, _ => .pure ⟨rfl, .nil⟩
  | expr :: exprs, ⟨hwe, hws⟩, hs => by
    simp only [Expr.occurrencesAll, unresolved_append] at hs
    refine (expr.resolve_reports table hwe hs.1).bind ?_
    rintro first errors after ⟨rfl, -, hfirst⟩
    refine (Expr.resolveAll_reports _ exprs hws hs.2).last ?_
    rintro others more after ⟨ha, hothers⟩
    exact ⟨ha, hfirst.append hothers⟩

end

/-! ## Variables -/

theorem TypeExpr.resolve_reports (origin : Origin) (id : Ident) (type : TypeExpr) (table : Table)
    (hw : type.WellFormed) (hs : Unresolved type.occurrences) :
    Reports (type.resolve origin id) table fun result errors after =>
      after = table ∧ result.2.isSome = result.1.isKnown ∧ ∃ found, Explained result.1.sites found ∧
        errors = found ++ if result.1.isVoid then [.about id .voidVariable] else [] := by
  cases type with
  | stray thing => exact hw.elim
  | primitive name =>
    unfold TypeExpr.resolve
    by_cases hv : name = "void"
    · simp only [hv, if_true]
      refine (report_reports id .voidVariable table).last ?_
      rintro - _ _ ⟨rfl, rfl⟩
      exact ⟨rfl, rfl, [], .nil, rfl⟩
    · simp only [hv, if_false]
      refine .pure ⟨rfl, rfl, [], .nil, ?_⟩
      simp [TypeExpr.isVoid, hv]
  | struct tag =>
    simp only [TypeExpr.occurrences, unresolved_cons, Occurrence.symbol] at hs
    refine (resolveTag_reports tag table hs.1).last ?_
    rintro ⟨tag', definition⟩ errors after ⟨ha, hsome, htag⟩
    refine ⟨ha, ?_, errors, htag, by simp [TypeExpr.isVoid]⟩
    simpa [TypeExpr.isKnown] using hsome

/-- A declaration that resolves its type and then binds its name by `bindAs`, wherever that
puts the name: `Holds` says where the scope is afterwards. -/
theorem declaration_reports {γ δ : Type} (origin : Origin) (type : TypeExpr) (id : Ident)
    (before : List Decl) (table : Table) (hw : type.WellFormed) (hs : Unresolved type.occurrences)
    (bindAs : Option Symbol → Walk γ) (idOf : γ → Ident) (make : TypeExpr → γ → δ)
    (Holds : γ → Table → Scope → Prop)
    (hb : ∀ symbol, Reports (bindAs symbol) table fun result errors after =>
      ∃ inner, Holds result after inner ∧ (idOf result).loc = id.loc ∧
        Enters before symbol.isSome (idOf result) errors inner) :
    Reports (do
        let type ← type.resolve origin id
        let bound ← bindAs type.2
        pure (make type.1 bound)) table
      fun result errors after => ∃ type' bound inner, result = make type' bound ∧
        Holds bound after inner ∧ inner.Lists (before ++ [.var type' (idOf bound)]) ∧
        Explained (type'.sites ++ [.declaration before (some type') (idOf bound)]) errors := by
  refine (TypeExpr.resolve_reports origin id type table hw hs).bind ?_
  rintro ⟨type', symbol⟩ _ after ⟨rfl, hsome, found, hfound, rfl⟩
  refine (hb symbol).last ?_
  rintro bound errors after ⟨inner, hholds, hloc, henters⟩
  rw [hsome] at henters
  refine ⟨type', bound, inner, rfl, hholds, fun name => ?_, ?_⟩
  · rw [henters.names, bound_snoc]
    rfl
  · have hsame : Diagnostic.about id .voidVariable = .about (idOf bound) .voidVariable := by
      simp [Diagnostic.about, hloc]
    rw [hsame]
    exact henters.explained hfound

/-- A variable or formal, whatever is made of it, enters the innermost scope. -/
theorem entry_reports {δ : Type} (origin : Origin) (type : TypeExpr) (id : Ident)
    (make : TypeExpr → Ident → δ) {scope : Scope} {before : List Decl} (scopes : List Scope)
    (hl : scope.Lists before) (hw : type.WellFormed) (hs : Unresolved type.occurrences) :
    Reports (do
        let type ← type.resolve origin id
        let id ← Walk.bind id type.2
        pure (make type.1 id)) ⟨scope :: scopes⟩
      fun result errors after => ∃ type' id' inner, result = make type' id' ∧
        after = ⟨inner :: scopes⟩ ∧ inner.Lists (before ++ [.var type' id']) ∧
        Explained (type'.sites ++ [.declaration before (some type') id']) errors :=
  declaration_reports origin type id before ⟨scope :: scopes⟩ hw hs (Walk.bind id)
    (fun id => id) make (fun _ after inner => after = ⟨inner :: scopes⟩)
    fun symbol => bind_reports hl scopes id symbol

theorem Decl.analyzeVariable_reports (origin : Origin) (decl : Decl) {scope : Scope}
    {before : List Decl} (scopes : List Scope) (hl : scope.Lists before)
    (hw : decl.IsVariable ∨ decl.IsFormal) (hs : Unresolved decl.occurrences) :
    Reports (decl.analyzeVariable origin) ⟨scope :: scopes⟩ fun result errors after =>
      ∃ inner, after = ⟨inner :: scopes⟩ ∧ inner.Lists (before ++ [result]) ∧
        Explained (result.variableSites before) errors := by
  cases decl with
  | var type id =>
    simp only [Decl.occurrences, unresolved_append] at hs
    have hwt : type.WellFormed := hw.resolve_right fun h => h
    refine (entry_reports origin type id Decl.var scopes hl hwt hs.1).mono ?_
    rintro _ errors after ⟨type', id', inner, rfl, ha, hlists, hsites⟩
    exact ⟨inner, ha, hlists, hsites⟩
  | formal type id =>
    simp only [Decl.occurrences, unresolved_append] at hs
    have hwt : type.WellFormed := hw.resolve_left fun h => h
    refine (entry_reports origin type id Decl.formal scopes hl hwt hs.1).mono ?_
    rintro _ errors after ⟨type', id', inner, rfl, ha, hlists, hsites⟩
    exact ⟨inner, ha, fun name => by simpa [Decl.binds] using hlists name, hsites⟩
  | function => exact hw.elim False.elim False.elim
  | struct => exact hw.elim False.elim False.elim
  | stray => exact hw.elim False.elim False.elim

theorem Decl.analyzeVariables_reports (path : Origin) (part : Part) (scopes : List Scope) :
    ∀ (decls : List Decl) (index : Nat) {scope : Scope} {before : List Decl}, scope.Lists before →
      (∀ decl ∈ decls, decl.IsVariable ∨ decl.IsFormal) →
      Unresolved (Decl.occurrencesAll decls) →
      Reports (Decl.analyzeVariables path part index decls) ⟨scope :: scopes⟩
        fun result errors after => ∃ inner, after = ⟨inner :: scopes⟩ ∧
          inner.Lists (before ++ result) ∧ Explained (Decl.variableSitesAll before result) errors
  | [], _, scope, _, hl, _, _ => .pure ⟨scope, rfl, by simpa using hl, .nil⟩
  | decl :: decls, index, _, before, hl, hw, hs => by
    obtain ⟨hwd, hws⟩ := List.forall_mem_cons.1 hw
    simp only [Decl.occurrencesAll, unresolved_append] at hs
    refine (decl.analyzeVariable_reports (path.child part index) scopes hl hwd hs.1).bind ?_
    rintro first errors _ ⟨inner, rfl, hfirst, hsite⟩
    refine (Decl.analyzeVariables_reports path part scopes decls (index + 1) hfirst hws hs.2).last ?_
    rintro others more _ ⟨last, rfl, hlast, hsites⟩
    exact ⟨last, rfl, by simpa using hlast, hsite.append hsites⟩

/-- A field enters the list of members, and no scope. -/
theorem Decl.analyzeField_reports (origin : Origin) (field : Decl) {members : Scope}
    {before : List Decl} (table : Table) (hl : members.Lists before) (hw : field.IsVariable)
    (hs : Unresolved field.occurrences) :
    Reports (field.analyzeField origin members) table fun result errors after =>
      after = table ∧ result.2.Lists (before ++ [result.1]) ∧
        Explained (result.1.variableSites before) errors := by
  cases field with
  | var type id =>
    simp only [Decl.occurrences, unresolved_append] at hs
    have hbind (symbol : Option Symbol) := (bindMember_reports hl id symbol table).mono
      fun result errors after ⟨ha, hloc, henters⟩ =>
        (⟨result.2, ⟨ha, rfl⟩, hloc, henters⟩ : ∃ inner, (after = table ∧ result.2 = inner) ∧
          result.1.loc = id.loc ∧ Enters before symbol.isSome result.1 errors inner)
    refine (declaration_reports origin type id before table hw hs.1 (bindMember members id)
      Prod.fst (fun type bound => (Decl.var type bound.1, bound.2))
      (fun bound after inner => after = table ∧ bound.2 = inner) hbind).mono ?_
    rintro _ errors after ⟨type', bound, _, rfl, ⟨ha, rfl⟩, hlists, hsites⟩
    exact ⟨ha, hlists, hsites⟩
  | formal => exact hw.elim
  | function => exact hw.elim
  | struct => exact hw.elim
  | stray => exact hw.elim

theorem Decl.analyzeFields_reports (path : Origin) (table : Table) :
    ∀ (fields : List Decl) (index : Nat) {members : Scope} {before : List Decl},
      members.Lists before → (∀ field ∈ fields, field.IsVariable) →
      Unresolved (Decl.occurrencesAll fields) →
      Reports (Decl.analyzeFields path index members fields) table fun result errors after =>
        after = table ∧ Explained (Decl.variableSitesAll before result.1) errors
  | [], _, _, _, _, _, _ => .pure ⟨rfl, .nil⟩
  | field :: fields, index, _, before, hl, hw, hs => by
    obtain ⟨hwf, hws⟩ := List.forall_mem_cons.1 hw
    simp only [Decl.occurrencesAll, unresolved_append] at hs
    refine (field.analyzeField_reports (path.child .fields index) table hl hwf hs.1).bind ?_
    rintro ⟨first, inner⟩ errors after ⟨rfl, hfirst, hsite⟩
    refine (Decl.analyzeFields_reports path _ fields (index + 1) hfirst hws hs.2).last ?_
    rintro ⟨others, last⟩ more _ ⟨ha, hsites⟩
    exact ⟨ha, hsite.append hsites⟩

/-! ## Statements -/

/-- A block: its declarations and statements see a scope of their own. -/
theorem block_reports {γ : Type} (path : Origin) (inDecls inStmts : Part) (table : Table)
    (decls : List Decl) (stmts : List Stmt) (make : List Decl → List Stmt → γ)
    (hd : ∀ decl ∈ decls, decl.IsVariable) (hs : Unresolved (Decl.occurrencesAll decls))
    (hstmts : ∀ table : Table, Reports (Stmt.analyzeAll path inStmts 0 stmts) table
      fun result errors after => after = table ∧ Explained (Stmt.sitesAll result) errors) :
    Reports (inScope do
        let decls ← Decl.analyzeVariables path inDecls 0 decls
        let stmts ← Stmt.analyzeAll path inStmts 0 stmts
        pure (make decls stmts)) table
      fun result errors after => (∃ decls' stmts', result = make decls' stmts' ∧
        Explained (Decl.variableSitesAll [] decls' ++ Stmt.sitesAll stmts') errors) ∧
        after = table := by
  refine .inScope ?_
  refine (Decl.analyzeVariables_reports path inDecls table.scopes decls 0 Scope.lists_nil
    (fun decl hm => .inl (hd decl hm)) hs).bind ?_
  rintro decls' errors _ ⟨inner, rfl, -, hdecls⟩
  refine (hstmts ⟨inner :: table.scopes⟩).last ?_
  rintro stmts' more _ ⟨rfl, hstmts⟩
  exact ⟨⟨decls', stmts', rfl, hdecls.append hstmts⟩, inner, rfl⟩

/-- A statement that holds an expression and nothing else. -/
theorem Expr.alone_reports (expr : Expr) (make : Expr → Stmt) (table : Table)
    (hw : expr.WellFormed) (hs : Unresolved expr.occurrences)
    (hmake : ∀ expr, (make expr).sites = expr.sites) :
    Reports (do let result ← expr.resolve; pure (make result.1)) table
      fun result errors after => after = table ∧ Explained result.sites errors := by
  refine (expr.resolve_reports table hw hs).last ?_
  rintro result errors after ⟨ha, -, hsites⟩
  exact ⟨ha, (hmake _).symm ▸ hsites⟩

/-- A statement of a condition and one block. -/
theorem guarded_reports (path : Origin) (table : Table) (condition : Expr) (decls : List Decl)
    (stmts : List Stmt) (make : Expr → List Decl → List Stmt → Stmt) (hwc : condition.WellFormed)
    (hwd : ∀ decl ∈ decls, decl.IsVariable) (hc : Unresolved condition.occurrences)
    (hd : Unresolved (Decl.occurrencesAll decls))
    (hstmts : ∀ table : Table, Reports (Stmt.analyzeAll path .stmts 0 stmts) table
      fun result errors after => after = table ∧ Explained (Stmt.sitesAll result) errors)
    (hmake : ∀ condition decls stmts, (make condition decls stmts).sites =
      condition.sites ++ (Decl.variableSitesAll [] decls ++ Stmt.sitesAll stmts)) :
    Reports (do
        let condition ← condition.resolve
        inScope do
          let decls ← Decl.analyzeVariables path .decls 0 decls
          let stmts ← Stmt.analyzeAll path .stmts 0 stmts
          pure (make condition.1 decls stmts)) table
      fun result errors after => after = table ∧ Explained result.sites errors := by
  refine (condition.resolve_reports table hwc hc).bind ?_
  rintro first errors after ⟨rfl, -, hcondition⟩
  refine (block_reports path .decls .stmts after decls stmts _ hwd hd hstmts).mono ?_
  rintro _ more _ ⟨⟨decls', stmts', rfl, hblock⟩, rfl⟩
  refine ⟨rfl, ?_⟩
  rw [hmake]
  exact hcondition.append hblock

mutual

theorem Stmt.analyze_reports (path : Origin) : ∀ (stmt : Stmt) (table : Table), stmt.WellFormed →
    Unresolved stmt.occurrences → Reports (stmt.analyze path) table fun result errors after =>
      after = table ∧ Explained result.sites errors
  | .assign expr, table, hw, hs => expr.alone_reports .assign table hw hs fun _ => rfl
  | .increment expr, table, hw, hs => expr.alone_reports .increment table hw hs fun _ => rfl
  | .decrement expr, table, hw, hs => expr.alone_reports .decrement table hw hs fun _ => rfl
  | .read expr, table, hw, hs => expr.alone_reports .read table hw hs fun _ => rfl
  | .write expr, table, hw, hs => expr.alone_reports .write table hw hs fun _ => rfl
  | .call expr, table, hw, hs => expr.alone_reports .call table hw hs fun _ => rfl
  | .returnValue expr, table, hw, hs => expr.alone_reports .returnValue table hw hs fun _ => rfl
  | .returnNothing, _, _, _ => .pure ⟨rfl, .nil⟩
  | .stray _, _, hw, _ => hw.elim
  | .ifThen condition decls stmts, table, ⟨hwc, hwd, hws⟩, hs => by
    simp only [Stmt.occurrences, unresolved_append] at hs
    exact guarded_reports path table condition decls stmts .ifThen hwc hwd hs.1.1 hs.1.2
      (fun table => Stmt.analyzeAll_reports path .stmts stmts 0 table hws hs.2) fun _ _ _ => rfl
  | .loop condition decls stmts, table, ⟨hwc, hwd, hws⟩, hs => by
    simp only [Stmt.occurrences, unresolved_append] at hs
    exact guarded_reports path table condition decls stmts .loop hwc hwd hs.1.1 hs.1.2
      (fun table => Stmt.analyzeAll_reports path .stmts stmts 0 table hws hs.2) fun _ _ _ => rfl
  | .ifElse condition thenDecls thenStmts elseDecls elseStmts, table,
      ⟨hwc, ⟨hwtd, hwts⟩, hwed, hwes⟩, hs => by
    simp only [Stmt.occurrences, unresolved_append] at hs
    obtain ⟨⟨⟨⟨hc, htd⟩, hts⟩, hed⟩, hes⟩ := hs
    refine (condition.resolve_reports table hwc hc).bind ?_
    rintro first errors after ⟨rfl, -, hcondition⟩
    refine (block_reports path .decls .stmts after thenDecls thenStmts Prod.mk hwtd htd
      fun table => Stmt.analyzeAll_reports path .stmts thenStmts 0 table hwts hts).bind ?_
    rintro _ more _ ⟨⟨decls', stmts', rfl, hthen⟩, rfl⟩
    refine (block_reports path .elseDecls .elseStmts _ elseDecls elseStmts _ hwed hed
      fun table => Stmt.analyzeAll_reports path .elseStmts elseStmts 0 table hwes hes).mono ?_
    rintro _ rest _ ⟨⟨decls'', stmts'', rfl, helse⟩, rfl⟩
    refine ⟨rfl, ?_⟩
    rw [← List.append_assoc]
    exact (hcondition.append hthen).append helse

theorem Stmt.analyzeAll_reports (path : Origin) (part : Part) : ∀ (stmts : List Stmt) (index : Nat)
    (table : Table), Stmt.WellFormedAll stmts → Unresolved (Stmt.occurrencesAll stmts) →
    Reports (Stmt.analyzeAll path part index stmts) table fun result errors after =>
      after = table ∧ Explained (Stmt.sitesAll result) errors
  | [], _, _, _, _ => .pure ⟨rfl, .nil⟩
  | stmt :: stmts, index, table, ⟨hw, hws⟩, hs => by
    simp only [Stmt.occurrencesAll, unresolved_append] at hs
    refine (Stmt.analyze_reports (path.child part index) stmt table hw hs.1).bind ?_
    rintro first errors after ⟨rfl, hfirst⟩
    refine (Stmt.analyzeAll_reports path part stmts (index + 1) _ hws hs.2).last ?_
    rintro others more after ⟨ha, hothers⟩
    exact ⟨ha, hfirst.append hothers⟩

end

/-! ## Declarations at top level -/

theorem resolveReturn_reports (returns : TypeExpr) (table : Table) (hw : returns.WellFormed)
    (hs : Unresolved returns.occurrences) :
    Reports returns.resolveReturn table fun result errors after =>
      after = table ∧ result.WellFormed ∧ Explained result.sites errors := by
  cases returns with
  | primitive name => exact .pure ⟨rfl, trivial, .nil⟩
  | stray thing => exact hw.elim
  | struct tag =>
    simp only [TypeExpr.occurrences, unresolved_cons, Occurrence.symbol] at hs
    refine (resolveTag_reports tag table hs.1).last ?_
    rintro result errors after ⟨ha, -, htag⟩
    exact ⟨ha, trivial, htag⟩

theorem bindFunction_reports (origin : Origin) (id : Ident) (returns : TypeExpr)
    (formals : List Decl) {scope : Scope} {before : List Decl} (scopes : List Scope)
    (hl : scope.Lists before) (hr : returns.WellFormed) (hf : ∀ formal ∈ formals, formal.IsFormal) :
    Reports (bindFunction origin id returns formals) ⟨scope :: scopes⟩ fun result errors after =>
      ∃ inner, after = ⟨inner :: scopes⟩ ∧ Enters before true result errors inner := by
  obtain ⟨name, params, hsym⟩ := functionSymbol_isOk origin returns formals hr hf
  unfold bindFunction
  rw [hsym]
  refine (bind_reports hl scopes id (some (.function origin name params))).bind ?_
  rintro id' errors _ ⟨inner, rfl, -, henters⟩
  refine ((note_runs (.entered id'.name) _ rfl).reports fun _ after ha => ?_).last
    fun _ errors after h => h
  rw [List.append_nil]
  exact ⟨inner, ha, henters⟩

/-- The formals and the body of a function are one scope. -/
theorem body_reports {γ : Type} (origin : Origin) (table : Table) (formals decls : List Decl)
    (stmts : List Stmt) (make : List Decl → List Decl → List Stmt → γ)
    (hwf : ∀ formal ∈ formals, formal.IsFormal) (hwd : ∀ decl ∈ decls, decl.IsVariable)
    (hws : Stmt.WellFormedAll stmts) (hsf : Unresolved (Decl.occurrencesAll formals))
    (hsd : Unresolved (Decl.occurrencesAll decls)) (hss : Unresolved (Stmt.occurrencesAll stmts)) :
    Reports (inScope do
        let formals ← Decl.analyzeVariables origin .formals 0 formals
        let decls ← Decl.analyzeVariables origin .decls 0 decls
        let stmts ← Stmt.analyzeAll origin .stmts 0 stmts
        pure (make formals decls stmts)) table
      fun result errors after => (∃ formals' decls' stmts', result = make formals' decls' stmts' ∧
        Explained (Decl.variableSitesAll [] (formals' ++ decls') ++ Stmt.sitesAll stmts') errors) ∧
        after = table := by
  refine .inScope ?_
  refine (Decl.analyzeVariables_reports origin .formals table.scopes formals 0 Scope.lists_nil
    (fun d hd => .inr (hwf d hd)) hsf).bind ?_
  rintro formals' errors _ ⟨inner, rfl, hinner, hformals⟩
  refine (Decl.analyzeVariables_reports origin .decls table.scopes decls 0 hinner
    (fun d hd => .inl (hwd d hd)) hsd).bind ?_
  rintro decls' more _ ⟨last, rfl, -, hdecls⟩
  refine (Stmt.analyzeAll_reports origin .stmts stmts 0 ⟨last :: table.scopes⟩ hws hss).last ?_
  rintro stmts' rest _ ⟨rfl, hstmts⟩
  refine ⟨⟨formals', decls', stmts', rfl, ?_⟩, last, rfl⟩
  rw [Decl.variableSitesAll_append, List.append_assoc]
  exact hformals.append (hdecls.append hstmts)

theorem Decl.analyze_reports (origin : Origin) (decl : Decl) {scope : Scope} {before : List Decl}
    (hl : scope.Lists before) (hw : decl.WellFormed) (hs : Unresolved decl.occurrences) :
    Reports (decl.analyze origin) ⟨[scope]⟩ fun result errors after =>
      ∃ inner, after = ⟨[inner]⟩ ∧ inner.Lists (before ++ [result]) ∧
        Explained (result.sites before) errors := by
  cases decl with
  | formal => exact hw.elim
  | stray => exact hw.elim
  | var type id =>
    simp only [Decl.occurrences, unresolved_append] at hs
    refine (entry_reports origin type id Decl.var [] hl hw hs.1).mono ?_
    rintro _ errors after ⟨type', id', inner, rfl, ha, hlists, hsites⟩
    exact ⟨inner, ha, hlists, hsites⟩
  | struct tag fields =>
    simp only [Decl.occurrences, unresolved_cons] at hs
    refine (Decl.analyzeFields_reports origin ⟨[scope]⟩ fields 0 Scope.lists_nil hw hs.2).bind ?_
    rintro ⟨fields', members⟩ errors _ ⟨rfl, hfields⟩
    refine (bind_reports hl [] tag _).last ?_
    rintro tag' more _ ⟨inner, rfl, -, henters⟩
    refine ⟨inner, rfl, fun name => ?_, hfields.append henters.explained_untyped⟩
    rw [henters.names, bound_snoc]
    simp [Decl.binds]
  | function returns id formals decls stmts =>
    obtain ⟨hwr, hwf, hwd, hws⟩ := hw
    simp only [Decl.occurrences, unresolved_append, unresolved_cons] at hs
    obtain ⟨⟨⟨hsr, -, hsf⟩, hsd⟩, hss⟩ := hs
    refine (resolveReturn_reports returns ⟨[scope]⟩ hwr hsr).bind ?_
    rintro returns' errors _ ⟨rfl, hwr', hreturns⟩
    refine (bindFunction_reports origin id returns' formals [] hl hwr' hwf).bind ?_
    rintro id' more _ ⟨inner, rfl, henters⟩
    refine (body_reports origin ⟨[inner]⟩ formals decls stmts _ hwf hwd hws hsf hsd hss).mono ?_
    rintro _ rest _ ⟨⟨formals', decls', stmts', rfl, hbody⟩, rfl⟩
    refine ⟨inner, rfl, fun name => ?_, ?_⟩
    · rw [henters.names, bound_snoc]
      simp [Decl.binds]
    · exact hreturns.append (henters.explained_untyped.append hbody)

theorem Decl.analyzeAll_reports : ∀ (decls : List Decl) (clock : Nat) {scope : Scope}
    {before : List Decl}, scope.Lists before → (∀ decl ∈ decls, decl.WellFormed) →
    Unresolved (Decl.occurrencesAll decls) →
    Reports (Decl.analyzeAll clock decls) ⟨[scope]⟩ fun result errors after =>
      ∃ inner, after = ⟨[inner]⟩ ∧ inner.Lists (before ++ result) ∧
        Explained (Decl.sitesAll before result) errors
  | [], _, scope, _, hl, _, _ => .pure ⟨scope, rfl, by simpa using hl, .nil⟩
  | decl :: decls, clock, _, before, hl, hw, hs => by
    obtain ⟨hwd, hws⟩ := List.forall_mem_cons.1 hw
    simp only [Decl.occurrencesAll, unresolved_append] at hs
    refine (decl.analyze_reports (.top clock) hl hwd hs.1).bind ?_
    rintro first errors _ ⟨inner, rfl, hfirst, hsites⟩
    refine (Decl.analyzeAll_reports decls (clock + 1) hfirst hws hs.2).last ?_
    rintro others more _ ⟨last, rfl, hlast, hothers⟩
    exact ⟨last, rfl, by simpa using hlast, hsites.append hothers⟩

/-- Analysis of a well-formed program without symbols goes through. It reports what there is to
complain about at the sites of the analysed program, in their order, and the global scope has the
names that the program declares. -/
theorem analysis_explained (program : Program) (hw : program.WellFormed)
    (hs : Unresolved program.occurrences) :
    program.analyze.fault = none ∧
      Explained program.analyze.program.sites program.analyze.diagnostics ∧
      ∃ globals, program.analyze.table.scopes = [globals] ∧
        globals.Lists program.analyze.program.decls := by
  obtain ⟨decls, errors, _, events, hrun, hrep, inner, rfl, hlists, hsites⟩ :=
    Decl.analyzeAll_reports program.decls 0 Scope.lists_nil hw hs []
  have hstate : program.analyze = ⟨⟨decls⟩, ⟨[inner]⟩, events.reverse, none⟩ :=
    Program.analyze_of_run hrun
  have herrors : (Analysis.mk ⟨decls⟩ ⟨[inner]⟩ events.reverse none).diagnostics = errors := hrep
  rw [hstate, herrors]
  exact ⟨rfl, hsites, inner, rfl, hlists⟩

/-! ## Programs that were read -/

/-- Analysis leaves the shape of a tree as it is. -/
theorem Program.Shaped.analyze {program : Program} (h : program.Shaped) :
    program.analyze.program.Shaped := by
  have hsame : program.analyze.program.relabel .forget = program.relabel .forget :=
    program.analyzeWith_forget .new 0
  rwa [← Program.shaped_relabel .forget, hsame, Program.shaped_relabel .forget]

/-- The locations of identifiers do not change with their symbols. -/
theorem locsOf_forget (occurrences : List Occurrence) :
    locsOf (occurrences.map (·.relabel .forget)) = locsOf occurrences := by
  induction occurrences with
  | nil => rfl
  | cons o rest ih => cases o <;> simpa [Occurrence.relabel, Ident.relabel, Relabel.forget] using ih

theorem locsOf_analyze (program : Program) :
    locsOf program.analyze.program.occurrences = locsOf program.occurrences := by
  have hsame : program.analyze.program.relabel .forget = program.relabel .forget :=
    program.analyzeWith_forget .new 0
  have hoccurrences := congrArg (fun p => locsOf p.occurrences) hsame
  simpa only [Program.occurrences_relabel, locsOf_forget] using hoccurrences

/-- A site where nothing was reported has all its symbols. -/
theorem Site.Accounted.resolved {site : Site} (h : site.Accounted []) :
    ∀ occurrence ∈ site.occurrences, occurrence.symbol.isSome := by
  have hsome {symbol : Option Symbol} (hn : symbol ≠ none) : symbol.isSome :=
    Option.isSome_iff_ne_none.2 hn
  cases site with
  | use id =>
    have hid : id.symbol ≠ none := fun hn => List.not_mem_nil (h.1 hn)
    simpa [Site.occurrences, Occurrence.symbol] using hsome hid
  | tag id =>
    have hid : id.symbol ≠ none := fun hn => List.not_mem_nil (h.1 hn)
    simpa [Site.occurrences, Occurrence.symbol] using hsome hid
  | access object field symbol =>
    obtain ⟨last, -, hsame, hnone, -⟩ := h
    have hboth : symbol ≠ none := fun hn => (hnone.1 hn).elim List.not_mem_nil List.not_mem_nil
    simpa [Site.occurrences, Occurrence.symbol, hsame] using hsome hboth
  | declaration before type id =>
    have hid : id.symbol ≠ none := by
      intro hn
      obtain ⟨⟨tag, -, hreported⟩, -⟩ := h.1 hn
      exact List.not_mem_nil hreported
    simpa [Site.occurrences, Occurrence.symbol] using hsome hid

/-- After analysis of a program that was read each identifier and each field access is at one site,
and what has no symbol there is exactly what was reported about it: a used name is undeclared, a tag
names no struct type, an access has either no struct in front of its dot or no such field in it and
else is what the struct has there, and a declared name without a symbol has an unknown struct type
and none of its name in front of it in its scope. So where nothing was reported everything has a
symbol. -/
theorem analysis_accounted {source : String} {program : Program}
    (h : parse source = .ok program) :
    let analysis := program.analyze
    analysis.fault = none ∧
      (analysis.program.sites.flatMap Site.occurrences).Perm analysis.program.occurrences ∧
      (∀ site ∈ analysis.program.sites, site.Accounted analysis.diagnostics) ∧
      (analysis.diagnostics = [] →
        ∀ occurrence ∈ analysis.program.occurrences, occurrence.symbol.isSome) := by
  have hshape := parse_shaped h
  obtain ⟨hunresolved, hnodup, hlocs⟩ := parse_written h
  obtain ⟨hfault, hexplained, -⟩ := analysis_explained program hshape.wellFormed hunresolved
  have hcovers : Covers program.analyze.program.sites program.analyze.program.occurrences :=
    hshape.analyze.covers
  rw [← locsOf_analyze] at hnodup hlocs
  have haccounted : ∀ site ∈ program.analyze.program.sites,
      site.Accounted program.analyze.diagnostics :=
    fun site hs => hcovers.accounted hnodup hlocs hexplained hs
  refine ⟨hfault, hcovers.perm, haccounted, fun hnone occurrence ho => ?_⟩
  obtain ⟨site, hs, hsite⟩ := List.mem_flatMap.1 (hcovers.perm.mem_iff.2 ho)
  have hclear := haccounted site hs
  rw [hnone] at hclear
  exact hclear.resolved occurrence hsite

/-- A program with a misuse of every kind that leaves a name without a symbol: an unknown struct
type, a dot behind an `int`, an unknown field and an undeclared name. -/
def misused : Program :=
  let id (name : String) (column : Int) : Ident := ⟨name, some ⟨1, column⟩, none⟩
  let s (column : Int) : Expr := .name (id "s" column)
  ⟨[.struct (id "S" 8) [.var (.primitive "int") (id "a" 14)],
    .var (.struct (id "T" 25)) (id "t" 27),
    .function (.primitive "void") (id "f" 34) [.formal (.struct (id "S" 43)) (id "s" 45)] []
      [.assign (.assign (.dot (.dot (s 48) (id "a" 50) none) (id "b" 52) none)
        (.dot (s 54) (id "c" 56) none)),
       .increment (.name (id "u" 58))]]⟩

theorem analysis_accounted_misused :
    parse "struct S\x7bint a;\x7d;struct T t;void f(struct S s)\x7bs.a.b=s.c;u++;\x7d" = .ok misused ∧
      misused.analyze.diagnostics = [⟨⟨1, 25⟩, .unknownStruct⟩, ⟨⟨1, 50⟩, .notAStruct⟩,
        ⟨⟨1, 56⟩, .unknownField⟩, ⟨⟨1, 58⟩, .undeclared⟩] ∧
      ∀ site ∈ misused.analyze.program.sites, site.Accounted misused.analyze.diagnostics := by
  have h : parse "struct S\x7bint a;\x7d;struct T t;void f(struct S s)\x7bs.a.b=s.c;u++;\x7d" =
      .ok misused := by cbv
  exact ⟨h, by cbv, (analysis_accounted h).2.2.1⟩

end Moo
