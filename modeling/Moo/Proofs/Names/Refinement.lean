import Moo.Proofs.Names.Steps

/-!
# Name analysis is resolution by environments

Each form of the tree gets one lemma, which ties the walk of name analysis over
it to `resolveIn`. Blocks are where the two sides differ: the walk opens a
scope, declares in it and closes it again (`block_runs`), while the resolver
extends an environment that nothing outside the block is handed.

* `Expr.resolve_runs`, `Stmt.analyze_runs`, `Decl.analyze_runs`: one part of a
  program.
* `analyze_eq_resolve`: a whole program.
-/
namespace Moo

open Walk

/-! ## Expressions -/

/-- A resolved expression is what resolution by environments finds. -/
def Expr.Agrees (env : Env) (expr : Expr) (result : Expr × Option Symbol) : Prop :=
  result.2.map Symbol.meaning = (expr.resolveIn env).1 ∧
    usesOf result.1.occurrences = (expr.resolveIn env).2.uses ∧
    result.1.lastIdent?.map Ident.loc = expr.lastIdent?.map Ident.loc

theorem about_dotAnchor {object resolved : Expr} (field : Ident) (misuse : Misuse)
    (h : resolved.lastIdent?.map Ident.loc = object.lastIdent?.map Ident.loc) :
    Diagnostic.about (dotAnchor resolved field) misuse =
      .about (object.lastIdent?.getD field) misuse := by
  have ha : dotAnchor resolved field = resolved.lastIdent?.getD field := by
    cases resolved <;> rfl
  rw [ha]
  unfold Diagnostic.about
  cases hr : resolved.lastIdent? <;> cases ho : object.lastIdent? <;> simp_all

theorem use_dot (field : Ident) (symbol : Option Symbol) :
    (Occurrence.dot field symbol).use = field.asUse (symbol.map Symbol.meaning) := by
  cases symbol <;> simp [Occurrence.use, Occurrence.id, Occurrence.symbol, Ident.asUse]

/-- A step behind a dot. -/
theorem narrow_runs {object resolved : Expr} (base : Option Symbol) (field : Ident)
    (table : Table) (hf : field.symbol = none) (hw : resolved.WellFormed)
    (hl : resolved.lastIdent?.map Ident.loc = object.lastIdent?.map Ident.loc) :
    Runs (narrow resolved base field none) table
      (memberOf object (base.map Symbol.meaning) field).2 fun result after =>
      after = table ∧
        result.2.2.map Symbol.meaning = (memberOf object (base.map Symbol.meaning) field).1 ∧
        (Occurrence.dot result.1 result.2.1).use =
          field.asUse (memberOf object (base.map Symbol.meaning) field).1 ∧
        (Occurrence.ident result.1).use =
          field.asUse (memberOf object (base.map Symbol.meaning) field).1 ∧
        result.1.loc = field.loc := by
  have hno : (resolved.blame?.getD (.misuse field .notAStruct)).errors? =
      some [.about (object.lastIdent?.getD field) .notAStruct] := by
    rw [hw.blames, ← about_dotAnchor field .notAStruct hl]
    rfl
  refine .look ?_
  rcases base with _ | _ | _ | _ | ⟨origin, type, definition⟩
  case some.structValue =>
    have hlook : definition.meanings.lookup field.name = _ :=
      definition.meanings_eq ▸ lookup_meanings definition.members field.name
    cases hs : Scope.find? definition.members field.name with
    | none =>
      simp only [hs, Option.map_none] at hlook
      simp only [Option.map_some, Symbol.meaning, memberOf, hlook]
      rw [hs]
      exact ⟨rfl, trivial, rfl, use_dot field none, use_unset field hf, rfl⟩
    | some symbol =>
      simp only [hs, Option.map_some] at hlook
      simp only [Option.map_some, Symbol.meaning, memberOf, hlook]
      rw [hs]
      exact ⟨rfl, trivial, rfl, use_dot field (some symbol), use_ident field (some symbol), rfl⟩
  all_goals exact ⟨hno, rfl, rfl, use_dot field none, use_unset field hf, rfl⟩

mutual

theorem Expr.resolve_runs (table : Table) : ∀ expr : Expr, expr.WellFormed →
    Unresolved expr.occurrences → Runs expr.resolve table (expr.resolveIn table.env).2.errors
      fun result after => after = table ∧ expr.Agrees table.env result
  | .int .., _, _ | .str .., _, _ | .bool .., _, _ => Runs.pure ⟨rfl, rfl, rfl, rfl⟩
  | .stray _, hw, _ => hw.elim
  | .name id, _, _ => (Walk.resolve_runs id table).last fun result after ⟨ha, hm, hu, hl⟩ =>
    ⟨ha, hm, hu, congrArg some hl⟩
  | .dot object field symbol, hw, hs => by
    simp only [Expr.occurrences, List.cons_append, unresolved_cons, unresolved_append,
      Occurrence.symbol] at hs
    obtain ⟨rfl, ho, hf, -⟩ := hs
    refine ((object.resolve_runs table hw ho).yields object.resolve_wellFormed).bind ?_
    intro result after hafter
    obtain ⟨resolved, base⟩ := result
    obtain ⟨hwr, rfl, hm, hu, hl⟩ := hafter
    simp only at hwr hm hu hl
    rw [← hm]
    refine (narrow_runs base field _ hf (hwr.2 hw) hl).last ?_
    intro result after hafter
    obtain ⟨field', own, denoted⟩ := result
    obtain ⟨ha, hd, hown, hi, hloc⟩ := hafter
    refine ⟨ha, ?_, ?_, congrArg some hloc⟩
    · simpa only [Expr.resolveIn, ← hm] using hd
    · simp only at hown hi
      simp only [Expr.occurrences, List.cons_append, usesOf_cons, usesOf_append, usesOf_nil, hu,
        hown, hi, Expr.resolveIn, ← hm]
  | .assign target value, ⟨hwt, hwv⟩, hs => by
    simp only [Expr.occurrences, unresolved_append] at hs
    refine (target.resolve_runs table hwt hs.1).bind ?_
    intro first after hafter
    obtain ⟨rfl, -, hut, -⟩ := hafter
    refine (value.resolve_runs _ hwv hs.2).last ?_
    intro second after hafter
    obtain ⟨rfl, -, huv, -⟩ := hafter
    refine ⟨rfl, rfl, ?_, rfl⟩
    simp only [Expr.occurrences, usesOf_append, hut, huv, Expr.resolveIn, Resolution.andThen]
  | .call callee args, hw, hs => by
    simp only [Expr.occurrences, unresolved_cons] at hs
    refine (Walk.resolve_runs callee table).bind ?_
    intro first after hafter
    obtain ⟨rfl, -, huc, -⟩ := hafter
    refine (Expr.resolveAll_runs _ args hw hs.2).last ?_
    intro others after hafter
    obtain ⟨rfl, hua⟩ := hafter
    refine ⟨rfl, rfl, ?_, rfl⟩
    simp only [Expr.occurrences, usesOf_cons, hua, Expr.resolveIn, Resolution.andThen, ← huc,
      List.singleton_append]
  | .unary op operand, hw, hs => by
    refine (operand.resolve_runs table hw hs).last ?_
    intro result after hafter
    obtain ⟨rfl, -, hu, -⟩ := hafter
    exact ⟨rfl, rfl, hu, rfl⟩
  | .binary op left right, ⟨hwl, hwr⟩, hs => by
    simp only [Expr.occurrences, unresolved_append] at hs
    refine (left.resolve_runs table hwl hs.1).bind ?_
    intro first after hafter
    obtain ⟨rfl, -, hul, -⟩ := hafter
    refine (right.resolve_runs _ hwr hs.2).last ?_
    intro second after hafter
    obtain ⟨rfl, -, hur, -⟩ := hafter
    refine ⟨rfl, rfl, ?_, rfl⟩
    simp only [Expr.occurrences, usesOf_append, hul, hur, Expr.resolveIn, Resolution.andThen]

theorem Expr.resolveAll_runs (table : Table) : ∀ exprs : List Expr, Expr.WellFormedAll exprs →
    Unresolved (Expr.occurrencesAll exprs) →
    Runs (Expr.resolveAll exprs) table (Expr.resolveAllIn table.env exprs).errors
      fun result after => after = table ∧
        usesOf (Expr.occurrencesAll result) = (Expr.resolveAllIn table.env exprs).uses
  | [], _, _ => Runs.pure ⟨rfl, rfl⟩
  | expr :: exprs, ⟨hwe, hws⟩, hs => by
    simp only [Expr.occurrencesAll, unresolved_append] at hs
    refine (expr.resolve_runs table hwe hs.1).bind ?_
    intro first after hafter
    obtain ⟨rfl, -, hue, -⟩ := hafter
    refine (Expr.resolveAll_runs _ exprs hws hs.2).last ?_
    intro others after hafter
    obtain ⟨rfl, hus⟩ := hafter
    refine ⟨rfl, ?_⟩
    simp only [Expr.occurrencesAll, usesOf_append, hue, hus, Expr.resolveAllIn, Resolution.andThen]

end

/-! ## Variables -/

theorem TypeExpr.resolve_runs (origin : Origin) (id : Ident) (type : TypeExpr) (table : Table)
    (hw : type.WellFormed) (hs : Unresolved type.occurrences) :
    Runs (type.resolve origin id) table (type.resolveIn table.env origin id).2.errors
      fun result after => after = table ∧
        result.2.map Symbol.meaning = (type.resolveIn table.env origin id).1 ∧
        usesOf result.1.occurrences = (type.resolveIn table.env origin id).2.uses := by
  cases type with
  | stray thing => exact hw.elim
  | primitive name =>
    unfold TypeExpr.resolve TypeExpr.resolveIn
    by_cases hv : name = "void"
    · simp only [hv, if_true]
      exact (report_runs id .voidVariable table).last fun _ after ha => ⟨ha, rfl, rfl⟩
    · simp only [hv, if_false]
      exact Runs.pure ⟨rfl, rfl, rfl⟩
  | struct tag =>
    simp only [TypeExpr.occurrences, unresolved_cons, Occurrence.symbol] at hs
    refine (resolveTag_runs tag table hs.1).last ?_
    intro result after hafter
    obtain ⟨tag', definition⟩ := result
    obtain ⟨rfl, hm, hu⟩ := hafter
    refine ⟨rfl, ?_, hu⟩
    simp only [TypeExpr.resolveIn, ← hm]
    cases definition <;> rfl

/-- A declaration of a variable, field or formal. -/
def Decl.IsBinding (decl : Decl) : Prop :=
  decl.IsVariable ∨ decl.IsFormal

/-- A declaration that resolves its type and then binds its name by `bindAs`, wherever that
puts the name: `Holds` says that the scope is there afterwards. -/
theorem declaration_runs {γ δ : Type} (origin : Origin) (type : TypeExpr) (id : Ident)
    (names : Names) (table : Table) (hw : type.WellFormed) (hs : Unresolved type.occurrences)
    (bindAs : Option Symbol → Walk γ) (idOf : γ → Ident) (make : TypeExpr → γ → δ)
    (Holds : γ → Table → Names → Prop)
    (hb : ∀ symbol, Runs (bindAs symbol) table (names.declare id (symbol.map Symbol.meaning)).2
      fun result after => Holds result after (names.declare id (symbol.map Symbol.meaning)).1 ∧
        (Occurrence.ident (idOf result)).use =
          id.asUse ((names.declare id (symbol.map Symbol.meaning)).1.lookup id.name)) :
    Runs (do
        let type ← type.resolve origin id
        let bound ← bindAs type.2
        pure (make type.1 bound)) table
      ((Decl.var type id).enter table.env names origin).2.errors
      fun result after => ∃ type' bound, result = make type' bound ∧
        Holds bound after ((Decl.var type id).enter table.env names origin).1 ∧
        usesOf (type'.occurrences ++ [.ident (idOf bound)]) =
          ((Decl.var type id).enter table.env names origin).2.uses := by
  have he : ((Decl.var type id).enter table.env names origin).2.errors =
      (type.resolveIn table.env origin id).2.errors ++
        (names.declare id (type.resolveIn table.env origin id).1).2 := rfl
  rw [he]
  refine (TypeExpr.resolve_runs origin id type table hw hs).bind ?_
  intro result after hafter
  obtain ⟨type', symbol⟩ := result
  obtain ⟨rfl, hm, hu⟩ := hafter
  simp only at hm hu
  rw [← hm]
  refine (hb symbol).last ?_
  intro bound after hafter
  obtain ⟨hholds, hid⟩ := hafter
  refine ⟨type', bound, rfl, by simpa only [Decl.enter, ← hm] using hholds, ?_⟩
  simp only [usesOf_append, hu, usesOf_cons, usesOf_nil, hid, Decl.enter, ← hm]

/-- A variable or formal enters the innermost scope. -/
theorem Decl.analyzeVariable_runs (origin : Origin) (decl : Decl) (scope : Scope)
    (scopes : List Scope) (hw : decl.IsBinding) (hs : Unresolved decl.occurrences) :
    Runs (decl.analyzeVariable origin) ⟨scope :: scopes⟩
      (decl.enter (Table.env ⟨scope :: scopes⟩) (Scope.meanings scope) origin).2.errors
      fun result after => ∃ inner, after = ⟨inner :: scopes⟩ ∧
        Scope.meanings inner =
          (decl.enter (Table.env ⟨scope :: scopes⟩) (Scope.meanings scope) origin).1 ∧
        usesOf result.occurrences =
          (decl.enter (Table.env ⟨scope :: scopes⟩) (Scope.meanings scope) origin).2.uses := by
  have key (type : TypeExpr) (id : Ident) (make : TypeExpr → Ident → Decl)
      (hw : type.WellFormed) (hs : Unresolved type.occurrences) :=
    declaration_runs origin type id (Scope.meanings scope) ⟨scope :: scopes⟩ hw hs (Walk.bind id)
      (fun id => id) make
      (fun _ after names => ∃ inner, after = ⟨inner :: scopes⟩ ∧ Scope.meanings inner = names)
      fun symbol => (bind_runs scope scopes id symbol).mono fun _ _ ⟨inner, ha, hi, hu⟩ =>
        ⟨⟨inner, ha, hi⟩, hi ▸ hu⟩
  cases decl with
  | var type id =>
    simp only [Decl.occurrences, unresolved_append] at hs
    refine (key type id .var (hw.resolve_right fun h => h.elim) hs.1).mono ?_
    intro result after hafter
    obtain ⟨type', id', rfl, ⟨inner, ha, hi⟩, hu⟩ := hafter
    exact ⟨inner, ha, hi, hu⟩
  | formal type id =>
    simp only [Decl.occurrences, unresolved_append] at hs
    refine (key type id .formal (hw.resolve_left fun h => h.elim) hs.1).mono ?_
    intro result after hafter
    obtain ⟨type', id', rfl, ⟨inner, ha, hi⟩, hu⟩ := hafter
    exact ⟨inner, ha, hi, hu⟩
  | function => exact hw.elim False.elim False.elim
  | struct => exact hw.elim False.elim False.elim
  | stray => exact hw.elim False.elim False.elim

/-- A field enters the list of members, and no scope. -/
theorem Decl.analyzeField_runs (origin : Origin) (field : Decl) (members : Scope) (table : Table)
    (hw : field.IsVariable) (hs : Unresolved field.occurrences) :
    Runs (field.analyzeField origin members) table
      (field.enter table.env (Scope.meanings members) origin).2.errors
      fun result after => after = table ∧
        Scope.meanings result.2 = (field.enter table.env (Scope.meanings members) origin).1 ∧
        usesOf result.1.occurrences =
          (field.enter table.env (Scope.meanings members) origin).2.uses := by
  cases field with
  | var type id =>
    simp only [Decl.occurrences, unresolved_append] at hs
    refine (declaration_runs origin type id (Scope.meanings members) table hw hs.1
      (bindMember members id) Prod.fst (fun type bound => (Decl.var type bound.1, bound.2))
      (fun bound after names => after = table ∧ Scope.meanings bound.2 = names)
      fun symbol => (bindMember_runs members id symbol table).mono fun _ _ h =>
        ⟨⟨h.1, h.2.1⟩, h.2.1 ▸ h.2.2⟩).mono ?_
    intro result after hafter
    obtain ⟨type', bound, rfl, ⟨ha, hi⟩, hu⟩ := hafter
    exact ⟨ha, hi, hu⟩
  | formal => exact hw.elim
  | function => exact hw.elim
  | struct => exact hw.elim
  | stray => exact hw.elim

theorem Decl.analyzeVariables_runs (path : Origin) (part : Part) (scopes : List Scope) :
    ∀ (decls : List Decl) (scope : Scope) (index : Nat), (∀ decl ∈ decls, decl.IsBinding) →
      Unresolved (Decl.occurrencesAll decls) →
      Runs (Decl.analyzeVariables path part index decls) ⟨scope :: scopes⟩
        (Decl.enterAll (Table.env ⟨scopes⟩) (Scope.meanings scope) path part index decls).2.errors
        fun result after => ∃ inner, after = ⟨inner :: scopes⟩ ∧
          Scope.meanings inner =
            (Decl.enterAll (Table.env ⟨scopes⟩) (Scope.meanings scope) path part index decls).1 ∧
          usesOf (Decl.occurrencesAll result) =
            (Decl.enterAll (Table.env ⟨scopes⟩) (Scope.meanings scope) path part index decls).2.uses
  | [], scope, index, _, _ => Runs.pure ⟨scope, rfl, rfl, rfl⟩
  | decl :: decls, scope, index, hw, hs => by
    simp only [Decl.occurrencesAll, unresolved_append] at hs
    refine (decl.analyzeVariable_runs (path.child part index) scope scopes (hw _ (by simp))
      hs.1).bind ?_
    intro first after hafter
    obtain ⟨inner, rfl, hi, hu⟩ := hafter
    have hrest := Decl.analyzeVariables_runs path part scopes decls inner (index + 1)
      (fun d hd => hw d (by simp [hd])) hs.2
    rw [hi] at hrest
    refine hrest.last ?_
    intro others after hafter
    obtain ⟨last, rfl, hl, hus⟩ := hafter
    refine ⟨last, rfl, hl, ?_⟩
    simp only [Decl.occurrencesAll, usesOf_append, hu, hus, Decl.enterAll, Resolution.andThen]
    rfl

theorem Decl.analyzeFields_runs (path : Origin) (table : Table) :
    ∀ (fields : List Decl) (members : Scope) (index : Nat), (∀ field ∈ fields, field.IsVariable) →
      Unresolved (Decl.occurrencesAll fields) →
      Runs (Decl.analyzeFields path index members fields) table
        (Decl.enterFields table.env (Scope.meanings members) path index fields).2.errors
        fun result after => after = table ∧
          Scope.meanings result.2 =
            (Decl.enterFields table.env (Scope.meanings members) path index fields).1 ∧
          usesOf (Decl.occurrencesAll result.1) =
            (Decl.enterFields table.env (Scope.meanings members) path index fields).2.uses
  | [], _, _, _, _ => Runs.pure ⟨rfl, rfl, rfl⟩
  | field :: fields, members, index, hw, hs => by
    simp only [Decl.occurrencesAll, unresolved_append] at hs
    refine (field.analyzeField_runs (path.child .fields index) members table (hw _ (by simp))
      hs.1).bind ?_
    intro result after hafter
    obtain ⟨first, inner⟩ := result
    obtain ⟨rfl, hi, hu⟩ := hafter
    have hrest := Decl.analyzeFields_runs path after fields inner (index + 1)
      (fun d hd => hw d (by simp [hd])) hs.2
    simp only at hi hu
    rw [hi] at hrest
    refine hrest.last ?_
    intro result after hafter
    obtain ⟨others, last⟩ := result
    obtain ⟨rfl, hl, hus⟩ := hafter
    refine ⟨rfl, hl, ?_⟩
    simp only at hus
    simp only [Decl.occurrencesAll, usesOf_append, hu, hus, Decl.enterFields, Resolution.andThen]

/-! ## Statements -/

/-- A block: its declarations and statements see a scope of their own, and nothing of it is left
when it ends. -/
theorem block_runs {γ : Type} (path : Origin) (inDecls inStmts : Part) (table : Table)
    (decls : List Decl) (stmts : List Stmt) (make : List Decl → List Stmt → γ)
    (hd : ∀ decl ∈ decls, decl.IsBinding) (hs : Unresolved (Decl.occurrencesAll decls))
    (hstmts : ∀ table : Table, Runs (Stmt.analyzeAll path inStmts 0 stmts) table
      (Stmt.resolveAllIn table.env path inStmts 0 stmts).errors fun result after =>
        after = table ∧ usesOf (Stmt.occurrencesAll result) =
          (Stmt.resolveAllIn table.env path inStmts 0 stmts).uses) :
    let block := Decl.enterAll table.env [] path inDecls 0 decls
    let found := block.2.andThen (Stmt.resolveAllIn (block.1 :: table.env) path inStmts 0 stmts)
    Runs (inScope do
        let decls ← Decl.analyzeVariables path inDecls 0 decls
        let stmts ← Stmt.analyzeAll path inStmts 0 stmts
        pure (make decls stmts)) table found.errors
      fun result after => (∃ decls' stmts', result = make decls' stmts' ∧
        usesOf (Decl.occurrencesAll decls' ++ Stmt.occurrencesAll stmts') = found.uses) ∧
        after = table := by
  refine Runs.inScope ?_
  refine (Decl.analyzeVariables_runs path inDecls table.scopes decls [] 0 hd hs).bind ?_
  intro decls' after hafter
  obtain ⟨inner, rfl, hi, hu⟩ := hafter
  have hrest := hstmts ⟨inner :: table.scopes⟩
  have henv : Table.env ⟨inner :: table.scopes⟩ =
      (Decl.enterAll table.env [] path inDecls 0 decls).1 :: table.env := congrArg (· :: _) hi
  rw [henv] at hrest
  refine hrest.last ?_
  intro stmts' after hafter
  obtain ⟨rfl, hus⟩ := hafter
  refine ⟨⟨decls', stmts', rfl, ?_⟩, inner, rfl⟩
  rw [usesOf_append, hu, hus]
  rfl

theorem isBinding_of_isVariable {decls : List Decl} (h : ∀ decl ∈ decls, decl.IsVariable) :
    ∀ decl ∈ decls, decl.IsBinding :=
  fun decl hd => .inl (h decl hd)

/-- A statement that holds an expression and nothing else. -/
theorem Expr.alone_runs (expr : Expr) (make : Expr → Stmt) (table : Table) (hw : expr.WellFormed)
    (hs : Unresolved expr.occurrences)
    (hmake : ∀ expr, (make expr).occurrences = expr.occurrences) :
    Runs (do let result ← expr.resolve; pure (make result.1)) table
      (expr.resolveIn table.env).2.errors fun result after => after = table ∧
        usesOf result.occurrences = (expr.resolveIn table.env).2.uses := by
  refine (expr.resolve_runs table hw hs).last ?_
  intro result after hafter
  obtain ⟨rfl, -, hu, -⟩ := hafter
  exact ⟨rfl, (congrArg usesOf (hmake _)).trans hu⟩

/-- A statement of a condition and one block. The condition is outside of the block's scope. -/
theorem guarded_runs (path : Origin) (table : Table) (condition : Expr) (decls : List Decl)
    (stmts : List Stmt) (make : Expr → List Decl → List Stmt → Stmt) (hwc : condition.WellFormed)
    (hwd : ∀ decl ∈ decls, decl.IsVariable) (hc : Unresolved condition.occurrences)
    (hd : Unresolved (Decl.occurrencesAll decls))
    (hstmts : ∀ table : Table, Runs (Stmt.analyzeAll path .stmts 0 stmts) table
      (Stmt.resolveAllIn table.env path .stmts 0 stmts).errors fun result after =>
        after = table ∧ usesOf (Stmt.occurrencesAll result) =
          (Stmt.resolveAllIn table.env path .stmts 0 stmts).uses)
    (hmake : ∀ condition decls stmts, (make condition decls stmts).occurrences =
      condition.occurrences ++ Decl.occurrencesAll decls ++ Stmt.occurrencesAll stmts) :
    Runs (do
        let condition ← condition.resolve
        inScope do
          let decls ← Decl.analyzeVariables path .decls 0 decls
          let stmts ← Stmt.analyzeAll path .stmts 0 stmts
          pure (make condition.1 decls stmts)) table
      ((Stmt.loop condition decls stmts).resolveIn table.env path).errors
      fun result after => after = table ∧ usesOf result.occurrences =
        ((Stmt.loop condition decls stmts).resolveIn table.env path).uses := by
  refine (condition.resolve_runs table hwc hc).bind ?_
  intro first after hafter
  obtain ⟨rfl, -, huc, -⟩ := hafter
  refine (block_runs path .decls .stmts after decls stmts _ (isBinding_of_isVariable hwd) hd
    hstmts).mono ?_
  intro result after hafter
  obtain ⟨⟨decls', stmts', rfl, hu⟩, rfl⟩ := hafter
  refine ⟨rfl, ?_⟩
  rw [hmake, List.append_assoc, usesOf_append, huc, hu]
  rfl

mutual

theorem Stmt.analyze_runs (path : Origin) : ∀ (stmt : Stmt) (table : Table), stmt.WellFormed →
    Unresolved stmt.occurrences → Runs (stmt.analyze path) table
      (stmt.resolveIn table.env path).errors fun result after => after = table ∧
        usesOf result.occurrences = (stmt.resolveIn table.env path).uses
  | .assign expr, table, hw, hs => expr.alone_runs .assign table hw hs fun _ => rfl
  | .increment expr, table, hw, hs => expr.alone_runs .increment table hw hs fun _ => rfl
  | .decrement expr, table, hw, hs => expr.alone_runs .decrement table hw hs fun _ => rfl
  | .read expr, table, hw, hs => expr.alone_runs .read table hw hs fun _ => rfl
  | .write expr, table, hw, hs => expr.alone_runs .write table hw hs fun _ => rfl
  | .call expr, table, hw, hs => expr.alone_runs .call table hw hs fun _ => rfl
  | .returnValue expr, table, hw, hs => expr.alone_runs .returnValue table hw hs fun _ => rfl
  | .returnNothing, _, _, _ => Runs.pure ⟨rfl, rfl⟩
  | .stray _, _, hw, _ => hw.elim
  | .ifThen condition decls stmts, table, ⟨hwc, hwd, hws⟩, hs => by
    simp only [Stmt.occurrences, unresolved_append] at hs
    exact guarded_runs path table condition decls stmts .ifThen hwc hwd hs.1.1 hs.1.2
      (fun table => Stmt.analyzeAll_runs path .stmts stmts 0 table hws hs.2) fun _ _ _ => rfl
  | .loop condition decls stmts, table, ⟨hwc, hwd, hws⟩, hs => by
    simp only [Stmt.occurrences, unresolved_append] at hs
    exact guarded_runs path table condition decls stmts .loop hwc hwd hs.1.1 hs.1.2
      (fun table => Stmt.analyzeAll_runs path .stmts stmts 0 table hws hs.2) fun _ _ _ => rfl
  | .ifElse condition thenDecls thenStmts elseDecls elseStmts, table,
      ⟨hwc, ⟨hwtd, hwts⟩, hwed, hwes⟩, hs => by
    simp only [Stmt.occurrences, unresolved_append] at hs
    obtain ⟨⟨⟨⟨hc, htd⟩, hts⟩, hed⟩, hes⟩ := hs
    refine (condition.resolve_runs table hwc hc).bind ?_
    intro first after hafter
    obtain ⟨rfl, -, huc, -⟩ := hafter
    refine (block_runs path .decls .stmts after thenDecls thenStmts Prod.mk
      (isBinding_of_isVariable hwtd) htd
      fun table => Stmt.analyzeAll_runs path .stmts thenStmts 0 table hwts hts).bind ?_
    intro result after' hafter'
    obtain ⟨⟨decls', stmts', rfl, hut⟩, rfl⟩ := hafter'
    refine (block_runs path .elseDecls .elseStmts after' elseDecls elseStmts _
      (isBinding_of_isVariable hwed) hed
      fun table => Stmt.analyzeAll_runs path .elseStmts elseStmts 0 table hwes hes).mono ?_
    intro result after hafter
    obtain ⟨⟨decls'', stmts'', rfl, hue⟩, rfl⟩ := hafter
    refine ⟨rfl, ?_⟩
    simp only [usesOf_append] at hut hue
    simp only [Stmt.occurrences, usesOf_append, huc, List.append_assoc, hue]
    rw [← List.append_assoc (usesOf _) (usesOf _), hut]
    rfl

theorem Stmt.analyzeAll_runs (path : Origin) (part : Part) : ∀ (stmts : List Stmt) (index : Nat)
    (table : Table), Stmt.WellFormedAll stmts → Unresolved (Stmt.occurrencesAll stmts) →
    Runs (Stmt.analyzeAll path part index stmts) table
      (Stmt.resolveAllIn table.env path part index stmts).errors fun result after =>
        after = table ∧ usesOf (Stmt.occurrencesAll result) =
          (Stmt.resolveAllIn table.env path part index stmts).uses
  | [], _, _, _, _ => Runs.pure ⟨rfl, rfl⟩
  | stmt :: stmts, index, table, ⟨hw, hws⟩, hs => by
    simp only [Stmt.occurrencesAll, unresolved_append] at hs
    refine (Stmt.analyze_runs (path.child part index) stmt table hw hs.1).bind ?_
    intro first after hafter
    obtain ⟨rfl, hu⟩ := hafter
    refine (Stmt.analyzeAll_runs path part stmts (index + 1) after hws hs.2).last ?_
    intro others after hafter
    obtain ⟨rfl, hus⟩ := hafter
    refine ⟨rfl, ?_⟩
    simp only [Stmt.occurrencesAll, usesOf_append, hu, hus, Stmt.resolveAllIn, Resolution.andThen]

end

/-! ## Declarations at top level -/

theorem resolveReturn_runs (returns : TypeExpr) (table : Table) (hw : returns.WellFormed)
    (hs : Unresolved returns.occurrences) :
    Runs returns.resolveReturn table (returns.returnIn table.env).errors fun result after =>
      after = table ∧ result.WellFormed ∧
        usesOf result.occurrences = (returns.returnIn table.env).uses := by
  cases returns with
  | primitive name => exact Runs.pure ⟨rfl, trivial, rfl⟩
  | stray thing => exact hw.elim
  | struct tag =>
    simp only [TypeExpr.occurrences, unresolved_cons, Occurrence.symbol] at hs
    refine (resolveTag_runs tag table hs.1).last ?_
    intro result after hafter
    obtain ⟨rfl, -, hu⟩ := hafter
    exact ⟨rfl, trivial, hu⟩

theorem bindFunction_runs (origin : Origin) (id : Ident) (returns : TypeExpr)
    (formals : List Decl) (scope : Scope) (scopes : List Scope) (hr : returns.WellFormed)
    (hf : ∀ formal ∈ formals, formal.IsFormal) :
    Runs (bindFunction origin id returns formals) ⟨scope :: scopes⟩
      ((Scope.meanings scope).declare id (some (.plain origin))).2 fun result after =>
      ∃ inner, after = ⟨inner :: scopes⟩ ∧
        Scope.meanings inner = ((Scope.meanings scope).declare id (some (.plain origin))).1 ∧
        (Occurrence.ident result).use = id.asUse ((Scope.meanings inner).lookup id.name) := by
  obtain ⟨name, params, hsym⟩ := functionSymbol_isOk origin returns formals hr hf
  unfold bindFunction
  rw [hsym, ← List.append_nil (Names.declare _ _ _).2]
  refine (bind_runs scope scopes id (some (.function origin name params))).bind ?_
  intro id' after hafter
  obtain ⟨inner, rfl, hi, hu⟩ := hafter
  refine (note_runs (.entered id'.name) _ rfl).last ?_
  rintro _ _ rfl
  exact ⟨inner, rfl, hi, hu⟩

/-- The formals and the body of a function extend one new scope. -/
theorem body_runs {γ : Type} (origin : Origin) (globals : Scope) (formals decls : List Decl)
    (stmts : List Stmt) (make : List Decl → List Decl → List Stmt → γ)
    (hwf : ∀ formal ∈ formals, formal.IsFormal) (hwd : ∀ decl ∈ decls, decl.IsVariable)
    (hws : Stmt.WellFormedAll stmts) (hsf : Unresolved (Decl.occurrencesAll formals))
    (hsd : Unresolved (Decl.occurrencesAll decls)) (hss : Unresolved (Stmt.occurrencesAll stmts)) :
    let env := [Scope.meanings globals]
    let inner := Decl.enterAll env [] origin .formals 0 formals
    let locals := Decl.enterAll env inner.1 origin .decls 0 decls
    let found := inner.2.andThen
      (locals.2.andThen (Stmt.resolveAllIn (locals.1 :: env) origin .stmts 0 stmts))
    Runs (inScope do
        let formals ← Decl.analyzeVariables origin .formals 0 formals
        let decls ← Decl.analyzeVariables origin .decls 0 decls
        let stmts ← Stmt.analyzeAll origin .stmts 0 stmts
        pure (make formals decls stmts)) ⟨[globals]⟩ found.errors
      fun result after => (∃ formals' decls' stmts', result = make formals' decls' stmts' ∧
        usesOf (Decl.occurrencesAll formals' ++ Decl.occurrencesAll decls'
          ++ Stmt.occurrencesAll stmts') = found.uses) ∧ after = ⟨[globals]⟩ := by
  refine Runs.inScope ?_
  refine (Decl.analyzeVariables_runs origin .formals [globals] formals [] 0
    (fun d hd => .inr (hwf d hd)) hsf).bind ?_
  intro formals' after hafter
  obtain ⟨inner, rfl, hi, huf⟩ := hafter
  have hdecls := Decl.analyzeVariables_runs origin .decls [globals] decls inner 0
    (isBinding_of_isVariable hwd) hsd
  rw [hi] at hdecls
  refine hdecls.bind ?_
  intro decls' after hafter
  obtain ⟨last, rfl, hl, hud⟩ := hafter
  have hstmts := Stmt.analyzeAll_runs origin .stmts stmts 0 ⟨[last, globals]⟩ hws hss
  have henv : Table.env ⟨[last, globals]⟩ = _ :: [Scope.meanings globals] := congrArg (· :: _) hl
  rw [henv] at hstmts
  refine hstmts.last ?_
  intro stmts' after hafter
  obtain ⟨rfl, hus⟩ := hafter
  refine ⟨⟨formals', decls', stmts', rfl, ?_⟩, last, rfl⟩
  rw [usesOf_append, usesOf_append, huf, hud, hus, List.append_assoc]
  rfl

theorem Decl.analyze_runs (origin : Origin) (decl : Decl) (scope : Scope)
    (hw : decl.WellFormed) (hs : Unresolved decl.occurrences) :
    Runs (decl.analyze origin) ⟨[scope]⟩ (decl.resolveIn (Scope.meanings scope) origin).2.errors
      fun result after => ∃ inner, after = ⟨[inner]⟩ ∧
        Scope.meanings inner = (decl.resolveIn (Scope.meanings scope) origin).1 ∧
        usesOf result.occurrences = (decl.resolveIn (Scope.meanings scope) origin).2.uses := by
  cases decl with
  | formal => exact hw.elim
  | stray => exact hw.elim
  | var type id => exact Decl.analyzeVariable_runs origin (.var type id) scope [] (.inl hw) hs
  | struct tag fields =>
    simp only [Decl.occurrences, unresolved_cons] at hs
    refine (Decl.analyzeFields_runs origin ⟨[scope]⟩ fields [] 0 hw hs.2).bind ?_
    intro result after hafter
    obtain ⟨fields', members⟩ := result
    obtain ⟨rfl, hm, hu⟩ := hafter
    simp only at hm hu
    have hmean : (Symbol.structType (.mk origin tag.name members)).meaning =
        .tag origin (Decl.enterFields [Scope.meanings scope] [] origin 0 fields).1 :=
      congrArg (Meaning.tag origin) hm
    have hb := bind_runs scope [] tag (some (.structType (.mk origin tag.name members)))
    simp only [Option.map_some, hmean] at hb
    refine hb.last ?_
    intro tag' after hafter
    obtain ⟨inner, rfl, hi, htag⟩ := hafter
    refine ⟨inner, rfl, hi, ?_⟩
    simp only [Decl.occurrences, usesOf_cons, hu, htag, hi, Decl.resolveIn]
    rfl
  | function returns id formals decls stmts =>
    obtain ⟨hwr, hwf, hwd, hws⟩ := hw
    simp only [Decl.occurrences, unresolved_append, unresolved_cons] at hs
    obtain ⟨⟨⟨hsr, -, hsf⟩, hsd⟩, hss⟩ := hs
    have herr : ((Decl.function returns id formals decls stmts).resolveIn (Scope.meanings scope)
        origin).2.errors = (returns.returnIn [Scope.meanings scope]).errors ++ (_ ++ _) :=
      List.append_assoc _ _ _
    rw [herr]
    refine (resolveReturn_runs returns ⟨[scope]⟩ hwr hsr).bind ?_
    intro returns' after hafter
    obtain ⟨rfl, hwr', hur⟩ := hafter
    refine (bindFunction_runs origin id returns' formals scope [] hwr' hwf).bind ?_
    intro id' after hafter
    obtain ⟨globals, rfl, hg, hid⟩ := hafter
    rw [← hg]
    refine (body_runs origin globals formals decls stmts _ hwf hwd hws hsf hsd hss).mono ?_
    intro result after hafter
    obtain ⟨⟨formals', decls', stmts', rfl, hu⟩, rfl⟩ := hafter
    refine ⟨globals, rfl, hg, ?_⟩
    simp only [usesOf_append] at hu
    simp only [Decl.occurrences, List.cons_append, List.append_assoc, usesOf_append, usesOf_cons,
      hur, hid] at hu ⊢
    rw [hu, hg]
    simp only [Decl.resolveIn, Resolution.andThen, List.append_assoc, List.singleton_append]
    rfl

theorem Decl.analyzeAll_runs : ∀ (decls : List Decl) (clock : Nat) (scope : Scope),
    (∀ decl ∈ decls, decl.WellFormed) → Unresolved (Decl.occurrencesAll decls) →
    Runs (Decl.analyzeAll clock decls) ⟨[scope]⟩
      (Decl.resolveAllIn (Scope.meanings scope) clock decls).2.errors
      fun result after => ∃ inner, after = ⟨[inner]⟩ ∧
        Scope.meanings inner = (Decl.resolveAllIn (Scope.meanings scope) clock decls).1 ∧
        usesOf (Decl.occurrencesAll result) =
          (Decl.resolveAllIn (Scope.meanings scope) clock decls).2.uses
  | [], _, scope, _, _ => Runs.pure ⟨scope, rfl, rfl, rfl⟩
  | decl :: decls, clock, scope, hw, hs => by
    simp only [Decl.occurrencesAll, unresolved_append] at hs
    refine (decl.analyze_runs (.top clock) scope (hw _ (by simp)) hs.1).bind ?_
    intro first after hafter
    obtain ⟨inner, rfl, hi, hu⟩ := hafter
    have hrest := Decl.analyzeAll_runs decls (clock + 1) inner (fun d hd => hw d (by simp [hd])) hs.2
    rw [hi] at hrest
    refine hrest.last ?_
    intro others after hafter
    obtain ⟨last, rfl, hl, hus⟩ := hafter
    refine ⟨last, rfl, hl, ?_⟩
    simp only [Decl.occurrencesAll, usesOf_append, hu, hus, Decl.resolveAllIn, Resolution.andThen]

/-- Analysis of a whole program, by the walk over its declarations. -/
theorem Program.analyze_runs {program : Program} (hw : program.WellFormed)
    (hs : Unresolved program.occurrences) :
    ∃ decls scope events, program.analyze = ⟨⟨decls⟩, ⟨[scope]⟩, events.reverse, none⟩ ∧
      reported events = program.resolve.errors ∧
      usesOf (Decl.occurrencesAll decls) = program.resolve.uses := by
  obtain ⟨decls, errors, _, events, hrun, hreported, rfl, scope, rfl, -, huses⟩ :=
    Decl.analyzeAll_runs program.decls 0 [] hw hs []
  exact ⟨decls, scope, events, Program.analyze_of_run hrun, hreported, huses⟩

/-- Name analysis of a well-formed program whose names have no symbols yet goes through without
a fault; the errors it reports and the declarations that it finds for all names and field
accesses are those that resolution by environments finds. -/
theorem analyze_eq_resolve (program : Program) (hw : program.WellFormed)
    (hs : Unresolved program.occurrences) :
    program.analyze.fault = none ∧ program.analyze.diagnostics = program.resolve.errors ∧
      usesOf program.analyze.program.occurrences = program.resolve.uses := by
  obtain ⟨decls, scope, events, hanalysis, herrors, huses⟩ := Program.analyze_runs hw hs
  rw [hanalysis]
  exact ⟨rfl, herrors, huses⟩

/-- `int x; void f() \x7b if (x) \x7b bool x; x = y; \x7d x++; \x7d`, a line for each part. -/
def shadowing : Program :=
  let x (line : Int) : Ident := ⟨"x", some ⟨line, 1⟩, none⟩
  ⟨[.var (.primitive "int") (x 1),
    .function (.primitive "void") ⟨"f", some ⟨2, 1⟩, none⟩ [] []
      [.ifThen (.name (x 3)) [.var (.primitive "bool") (x 4)]
        [.assign (.assign (.name (x 5)) (.name ⟨"y", some ⟨6, 1⟩, none⟩))],
       .increment (.name (x 7))]]⟩

/-- The condition and the last statement mean the outer `x`, the block its own. -/
theorem analyze_eq_resolve_shadowing :
    shadowing.WellFormed ∧ Unresolved shadowing.occurrences ∧ shadowing.analyze.fault = none ∧
      shadowing.analyze.diagnostics = [⟨⟨6, 1⟩, .undeclared⟩] ∧
      (usesOf shadowing.analyze.program.occurrences).map Use.decl =
        let outer := Origin.top 0
        let inner := ((Origin.top 1).child .stmts 0).child .decls 0
        [some outer, some (.top 1), some outer, some inner, some inner, none, some outer] := by
  have hw : shadowing.WellFormed := by
    simp [shadowing, Program.WellFormed, Decl.WellFormed, TypeExpr.WellFormed, Stmt.WellFormed,
      Stmt.WellFormedAll, Expr.WellFormed, Decl.IsVariable]
  have hs : Unresolved shadowing.occurrences := by
    simp [shadowing, Program.occurrences, Decl.occurrencesAll, Decl.occurrences,
      TypeExpr.occurrences, Stmt.occurrencesAll, Stmt.occurrences, Expr.occurrences,
      Occurrence.symbol]
  obtain ⟨hfault, herrors, huses⟩ := analyze_eq_resolve shadowing hw hs
  exact ⟨hw, hs, hfault, herrors.trans (by decide),
    (congrArg (List.map Use.decl) huses).trans (by decide)⟩

end Moo
