import Moo.Proofs.Names.Steps

/-!
# Analysis keeps its scopes in order

Whatever the tree holds and whatever the table is, with no scope at all or
with many, and also when analysis gives up half-way: every scope that was
opened is closed again, and no scope but the innermost one gets a name.
-/
namespace Moo

/-- Whatever state it starts in, and whether it gives up or not: an expression or a statement leaves
the whole table as it was; a declaration at top level adds at most one name, at the end of the
innermost scope, which did not have it; so analysis of a program ends with as many scopes as it
started with and keeps all names in them, and it complains about the number of scopes exactly if
nothing else stopped it and that number is not one. -/
theorem analysis_disciplined (state : WalkState) :
    (∀ expr : Expr, (expr.resolve state).2.table = state.table) ∧
      (∀ path (stmt : Stmt), (stmt.analyze path state).2.table = state.table) ∧
      (∀ origin (decl : Decl), ∃ new : Scope, new.length ≤ 1 ∧
        (∀ entry ∈ new, state.table.lookupLocal entry.1 = none) ∧
        (decl.analyze origin state).2.table.scopes =
          state.table.scopes.modifyHead (· ++ new)) ∧
      ∀ clock (program : Program), let analysis := program.analyzeWith state.table clock
        analysis.table.depth = state.table.depth ∧
        (∃ new, analysis.table.scopes = state.table.scopes.modifyHead (· ++ new)) ∧
        ∀ n, analysis.fault = some (.depth n) ↔
          (Decl.analyzeAll clock program.decls ⟨state.table, [], none⟩).2.fault = none ∧
            state.table.depth = n ∧ n ≠ 1 := by
  refine ⟨fun expr => expr.resolve_steps.table_eq state,
    fun path stmt => (stmt.analyze_steps path).table_eq state, fun origin decl => ?_,
    fun clock program => ?_⟩
  · obtain ⟨new, hlen, hnew, htable⟩ := (decl.analyze_steps origin).table state
    exact ⟨new, hlen, hnew, congrArg Table.scopes htable⟩
  · have hall := Decl.analyzeAll_steps program.decls clock
    obtain ⟨new, -, -, htable⟩ := hall.table ⟨state.table, [], none⟩
    have hdepth : (Decl.analyzeAll clock program.decls ⟨state.table, [], none⟩).2.table.depth =
        state.table.depth := by rw [htable, Table.depth_extend]
    refine ⟨hdepth, ⟨new, congrArg Table.scopes htable⟩, fun n => ?_⟩
    have hother := hall.fault_ne_depth ⟨state.table, [], none⟩ rfl n
    show (if _ then _ else _) = _ ↔ _
    rw [hdepth]
    cases hf : (Decl.analyzeAll clock program.decls ⟨state.table, [], none⟩).2.fault with
    | none =>
      by_cases h1 : state.table.depth = 1
      · have hn : ¬ (1 = n ∧ n ≠ 1) := by omega
        simpa [h1] using hn
      · have hn : state.table.depth = n ↔ state.table.depth = n ∧ n ≠ 1 := by omega
        simpa [h1] using hn
    | some fault =>
      rw [hf] at hother
      simpa using hother

end Moo
