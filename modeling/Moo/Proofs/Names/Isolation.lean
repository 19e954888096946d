import Moo.Proofs.Names.Steps

/-!
# Function bodies are isolated

What the body of a function declares and reports is its own affair: with
another body in its place, all around it is analysed as before.

* `Surrounding.run_around`: analysis of a program, as what comes before the
  body of a function, the body, and what comes after it. Each of them goes
  through and depends on the scopes alone (`Walk.Steps.settles`).
* `Surrounding.analyze_fill`: what is reported and declared around the body is
  the same for all bodies.
* `analysis_isolated`: two programs that differ in the body of a function.
-/
namespace Moo

open Walk

/-- On a global scope a well-formed program is analysed without a fault, by the walk over its
declarations. -/
theorem Program.analyzeWith_global {program : Program} (h : program.WellFormed) (clock : Nat)
    (global : Scope) :
    ∃ decls next new,
      (∀ events, Decl.analyzeAll clock program.decls ⟨⟨[global]⟩, events, none⟩ =
        (decls, ⟨⟨[next]⟩, new ++ events, none⟩)) ∧
      program.analyzeWith ⟨[global]⟩ clock = ⟨⟨decls⟩, ⟨[next]⟩, new.reverse, none⟩ := by
  obtain ⟨decls, next, new, hrun⟩ :=
    (Decl.analyzeAll_steps program.decls clock).settles h global []
  refine ⟨decls, next, new, hrun, ?_⟩
  simp only [Program.analyzeWith, hrun, List.append_nil]
  rfl

/-! ## Around a body -/

/-- Analyses the declarations and statements of a function's body. -/
def analyzeBody (origin : Origin) (decls : List Decl) (stmts : List Stmt) :
    Walk (List Decl × List Stmt) := do
  let decls ← Decl.analyzeVariables origin .decls 0 decls
  let stmts ← Stmt.analyzeAll origin .stmts 0 stmts
  pure (decls, stmts)

/-- What an action reports when it starts in a state. -/
def errorsFrom {α : Type} (action : Walk α) (state : WalkState) : List Diagnostic :=
  reported (action { state with events := [] }).2.events

/-- A program without the body of one of its functions. -/
structure Surrounding where
  front : List Decl
  returns : TypeExpr
  id : Ident
  formals : List Decl
  back : List Decl

namespace Surrounding

/-- The program with this body. -/
def fill (around : Surrounding) (decls : List Decl) (stmts : List Stmt) : Program :=
  ⟨around.front ++ .function around.returns around.id around.formals decls stmts :: around.back⟩

/-- The path of the function. -/
def origin (around : Surrounding) : Origin :=
  .top around.front.length

/-- Analyses all that comes before the body. The scope that the formals and the body share is open
then. -/
def enter (around : Surrounding) : Walk Surrounding := do
  let front ← Decl.analyzeAll 0 around.front
  let returns ← around.returns.resolveReturn
  let id ← bindFunction around.origin around.id returns around.formals
  openScope
  let formals ← Decl.analyzeVariables around.origin .formals 0 around.formals
  pure { around with front, returns, id, formals }

end Surrounding

theorem Decl.analyzeAll_append (before after : List Decl) (clock : Nat) :
    Decl.analyzeAll clock (before ++ after) = (do
      let first ← Decl.analyzeAll clock before
      let others ← Decl.analyzeAll (clock + before.length) after
      pure (first ++ others)) := by
  induction before generalizing clock with
  | nil => simp [Decl.analyzeAll]
  | cons decl before ih =>
    simp [Decl.analyzeAll, ih, Nat.add_assoc, Nat.add_comm 1]

/-- Analysis of a list of declarations, by what happens in front of one of them, to it, and behind
it. -/
theorem Decl.analyzeAll_around {front front' back back' : List Decl} {decl decl' : Decl}
    {start before after last : WalkState}
    (hfront : Decl.analyzeAll 0 front start = (front', before))
    (hdecl : decl.analyze (.top front.length) before = (decl', after))
    (hback : Decl.analyzeAll (front.length + 1) back after = (back', last)) :
    Decl.analyzeAll 0 (front ++ decl :: back) start = (front' ++ decl' :: back', last) := by
  have hrest : Decl.analyzeAll front.length (decl :: back) before = (decl' :: back', last) :=
    (bind_run hdecl).trans (bind_run hback)
  rw [Decl.analyzeAll_append, Nat.zero_add]
  exact (bind_run hfront).trans (bind_run hrest)

/-- Analysis of the declarations gives as many. -/
theorem Decl.analyzeAll_length (decls : List Decl) (clock : Nat) :
    Yields (Decl.analyzeAll clock decls) fun result => result.length = decls.length :=
  (Decl.analyzeAll_forget decls clock).mono fun _ h => by
    simpa [Decl.relabelAll_eq_map] using congrArg List.length h

namespace Surrounding

/-- All around the body is analysed the same, whatever the body is. -/
theorem run_around (around : Surrounding) (hfront : ∀ decl ∈ around.front, decl.WellFormed)
    (hreturns : around.returns.WellFormed) (hformals : ∀ formal ∈ around.formals, formal.IsFormal)
    (hback : ∀ decl ∈ around.back, decl.WellFormed) :
    ∃ (after : Surrounding) (scope globals last : Scope) (events more : List Event),
      (around.enter ⟨.new, [], none⟩).2 = ⟨⟨[scope, globals]⟩, events, none⟩ ∧
      after.front.length = around.front.length ∧
      ∀ {decls stmts body inner new},
        analyzeBody around.origin decls stmts ⟨⟨[scope, globals]⟩, events, none⟩ =
          (body, ⟨⟨[inner, globals]⟩, new ++ events, none⟩) →
        Decl.analyzeAll 0 (around.fill decls stmts).decls ⟨.new, [], none⟩ =
          ((after.fill body.1 body.2).decls,
            ⟨⟨[last]⟩, more ++ .closed 1 :: (new ++ events), none⟩) := by
  obtain ⟨front, returns, id, formals, back⟩ := around
  obtain ⟨front', g₁, e₁, h₁⟩ := (Decl.analyzeAll_steps front 0).settles hfront [] []
  obtain ⟨returns', g₂, e₂, h₂⟩ := returns.resolveReturn_steps.settles hreturns g₁ []
  have hreturns' : returns'.WellFormed := by
    have hyield := returns.resolveReturn_wellFormed.result ⟨⟨[g₁]⟩, [], none⟩
    rw [h₂] at hyield
    exact hyield.2 hreturns
  obtain ⟨id', g₃, e₃, h₃⟩ := (bindFunction_steps (.top front.length) id returns' formals).settles
    ⟨hreturns', hformals⟩ g₂ []
  obtain ⟨formals', scope, e₄, h₄⟩ :=
    (Decl.analyzeVariables_steps (.top front.length) .formals formals 0).settles
      (fun formal hm => .inr (hformals formal hm)) [] [g₃]
  -- the scope of the function is closed again, so the rest starts with the globals `g₃`
  obtain ⟨back', last, more, h₅⟩ :=
    (Decl.analyzeAll_steps back (front.length + 1)).settles hback g₃ []
  have hlength : front'.length = front.length := by
    have hyield := (Decl.analyzeAll_length front 0).result ⟨.new, [], none⟩
    rwa [show Decl.analyzeAll 0 front ⟨.new, [], none⟩ = _ from h₁ []] at hyield
  let events : List Event := e₄ ++ .opened 2 :: (e₃ ++ (e₂ ++ (e₁ ++ [])))
  refine ⟨⟨front', returns', id', formals', back'⟩, scope, g₃, last, events, more, ?_, hlength, ?_⟩
  · have henter : (Surrounding.mk front returns id formals back).enter ⟨.new, [], none⟩ =
        (_, ⟨⟨[scope, g₃]⟩, events, none⟩) :=
      (bind_run (h₁ _)).trans <| (bind_run (h₂ _)).trans <| (bind_run (h₃ _)).trans <|
        (bind_run rfl).trans <| bind_run (h₄ _)
    rw [henter]
  · intro decls stmts body inner new hbody
    have hfunction : (Decl.function returns id formals decls stmts).analyze (.top front.length)
        ⟨⟨[g₁]⟩, e₁ ++ [], none⟩ = (.function returns' id' formals' body.1 body.2,
          ⟨⟨[g₃]⟩, .closed 1 :: (new ++ events), none⟩) :=
      (bind_run (h₂ _)).trans <| (bind_run (h₃ _)).trans <| inScope_run <|
        (bind_run (h₄ _)).trans <|
          congrArg (fun run : (List Decl × List Stmt) × WalkState =>
            (Decl.function returns' id' formals' run.1.1 run.1.2, run.2)) hbody
    exact Decl.analyzeAll_around (h₁ _) hfunction (h₅ _)

end Surrounding

/-- A body is analysed without a fault, and leaves the scope around it alone. -/
theorem analyzeBody_steps (origin : Origin) (decls : List Decl) (stmts : List Stmt) :
    Steps ((∀ decl ∈ decls, decl.IsVariable) ∧ Stmt.WellFormedAll stmts) decls.length
      (analyzeBody origin decls stmts) (decls, stmts) :=
  block_steps origin .decls .stmts Prod.mk And.left
    ((Stmt.analyzeAll_steps origin .stmts stmts 0).mono And.right)

/-- What analysis makes of a program around the body of a function, the same for all bodies. -/
theorem Surrounding.analyze_fill (around : Surrounding)
    (hfront : ∀ decl ∈ around.front, decl.WellFormed) (hreturns : around.returns.WellFormed)
    (hformals : ∀ formal ∈ around.formals, formal.IsFormal)
    (hback : ∀ decl ∈ around.back, decl.WellFormed) :
    ∃ (after : Surrounding) (table : Table) (later : List Diagnostic),
      after.front.length = around.front.length ∧
      ∀ decls stmts, (∀ decl ∈ decls, decl.IsVariable) → Stmt.WellFormedAll stmts →
        let start := (around.enter ⟨.new, [], none⟩).2
        let body := analyzeBody around.origin decls stmts
        let analysis := (around.fill decls stmts).analyze
        analysis.fault = none ∧
          analysis.diagnostics = reported start.events ++ errorsFrom body start ++ later ∧
          analysis.table = table ∧
          analysis.program = after.fill (body start).1.1 (body start).1.2 := by
  obtain ⟨after, scope, globals, last, events, more, hstart, hlength, hrun⟩ :=
    around.run_around hfront hreturns hformals hback
  refine ⟨after, ⟨[last]⟩, reported more, hlength, fun decls stmts hd hs => ?_⟩
  rw [hstart]
  obtain ⟨body, inner, new, hbody⟩ :=
    (analyzeBody_steps around.origin decls stmts).settles ⟨hd, hs⟩ scope [globals]
  have hanalysis : (around.fill decls stmts).analyze = ⟨after.fill body.1 body.2, ⟨[last]⟩,
      (more ++ .closed 1 :: (new ++ events)).reverse, none⟩ :=
    Program.analyze_of_run (hrun (hbody events))
  have herrors : errorsFrom (analyzeBody around.origin decls stmts)
      ⟨⟨[scope, globals]⟩, events, none⟩ = reported new := by
    rw [errorsFrom, hbody [], List.append_nil]
  have hreported : reported (more ++ .closed 1 :: (new ++ events)) =
      reported events ++ reported new ++ reported more := by
    rw [reported_append, reported_cons, reported_append,
      show reported [.closed 1] = [] from rfl, List.append_nil]
  dsimp only
  rw [hanalysis, hbody events, herrors]
  exact ⟨rfl, hreported, rfl, rfl⟩

/-- With another body in the place of a function's own, analysis of a well-formed program reports
the errors of the other body instead, and the same ones in front of them and behind. The names that
the program declares are the same, and so are the symbols of all that is not in the body. -/
theorem analysis_isolated (around : Surrounding) (decls decls' : List Decl)
    (stmts stmts' : List Stmt) (h : (around.fill decls stmts).WellFormed)
    (hd : ∀ decl ∈ decls', decl.IsVariable) (hs : Stmt.WellFormedAll stmts') :
    let start := (around.enter ⟨.new, [], none⟩).2
    let body := analyzeBody around.origin decls stmts
    let body' := analyzeBody around.origin decls' stmts'
    let analysis := (around.fill decls stmts).analyze
    let analysis' := (around.fill decls' stmts').analyze
    analysis.fault = none ∧ analysis'.fault = none ∧
      (∃ later, analysis.diagnostics = reported start.events ++ errorsFrom body start ++ later ∧
        analysis'.diagnostics = reported start.events ++ errorsFrom body' start ++ later) ∧
      analysis.table = analysis'.table ∧
      ∃ after : Surrounding, after.front.length = around.front.length ∧
        analysis.program = after.fill (body start).1.1 (body start).1.2 ∧
        analysis'.program = after.fill (body' start).1.1 (body' start).1.2 := by
  obtain ⟨hfront, hfunction, hback⟩ : (∀ decl ∈ around.front, decl.WellFormed) ∧
      (Decl.function around.returns around.id around.formals decls stmts).WellFormed ∧
      ∀ decl ∈ around.back, decl.WellFormed := by
    simpa [Surrounding.fill, Program.WellFormed, or_imp, forall_and] using h
  obtain ⟨hreturns, hformals, hown, howns⟩ := hfunction
  obtain ⟨after, table, later, hlength, hfill⟩ :=
    around.analyze_fill hfront hreturns hformals hback
  obtain ⟨hfault, herrors, htable, hprogram⟩ := hfill decls stmts hown howns
  obtain ⟨hfault', herrors', htable', hprogram'⟩ := hfill decls' stmts' hd hs
  exact ⟨hfault, hfault', ⟨later, herrors, herrors'⟩, htable.trans htable'.symm,
    after, hlength, hprogram, hprogram'⟩

/-- `int g; void f(int a) { } void h() { u = g; }`, without the body of `f`. -/
def sharing : Surrounding where
  front := [.var (.primitive "int") ⟨"g", some ⟨1, 5⟩, none⟩]
  returns := .primitive "void"
  id := ⟨"f", some ⟨2, 6⟩, none⟩
  formals := [.formal (.primitive "int") ⟨"a", some ⟨2, 12⟩, none⟩]
  back := [.function (.primitive "void") ⟨"h", some ⟨4, 6⟩, none⟩ [] []
    [.assign (.assign (.name ⟨"u", some ⟨5, 1⟩, none⟩) (.name ⟨"g", some ⟨5, 5⟩, none⟩))]]

/-- A body that declares `u`, and names `w` that nothing declares; and one that declares `a` once
more. What comes behind means the global `g`, and no `u`, either way. -/
theorem analysis_isolated_sharing :
    let u : Decl := .var (.primitive "bool") ⟨"u", some ⟨3, 6⟩, none⟩
    let w : Stmt := .increment (.name ⟨"w", some ⟨3, 9⟩, none⟩)
    let a : Decl := .var (.primitive "int") ⟨"a", some ⟨3, 5⟩, none⟩
    let body := analyzeBody sharing.origin [u] [w]
    let body' := analyzeBody sharing.origin [a] []
    let start := (sharing.enter ⟨.new, [], none⟩).2
    let analysis := (sharing.fill [u] [w]).analyze
    let analysis' := (sharing.fill [a] []).analyze
    (sharing.fill [u] [w]).WellFormed ∧ (∀ decl ∈ [a], decl.IsVariable) ∧
      errorsFrom body start = [⟨⟨3, 9⟩, .undeclared⟩] ∧
      errorsFrom body' start = [⟨⟨3, 5⟩, .redeclared⟩] ∧
      analysis.diagnostics = [⟨⟨3, 9⟩, .undeclared⟩, ⟨⟨5, 1⟩, .undeclared⟩] ∧
      analysis'.diagnostics = [⟨⟨3, 5⟩, .redeclared⟩, ⟨⟨5, 1⟩, .undeclared⟩] ∧
      analysis.table = analysis'.table ∧
      ∃ after : Surrounding, after.front.length = sharing.front.length ∧
        analysis.program = after.fill (body start).1.1 (body start).1.2 ∧
        analysis'.program = after.fill (body' start).1.1 (body' start).1.2 := by
  intro u w a body body' start analysis analysis'
  have hw : (sharing.fill [u] [w]).WellFormed := by
    simp [sharing, Surrounding.fill, u, w, Program.WellFormed, Decl.WellFormed,
      TypeExpr.WellFormed, Stmt.WellFormed, Stmt.WellFormedAll, Expr.WellFormed, Decl.IsVariable,
      Decl.IsFormal]
  have hd : ∀ decl ∈ [a], decl.IsVariable := by
    simp [a, Decl.IsVariable, TypeExpr.WellFormed]
  obtain ⟨-, -, -, htable, hprogram⟩ := analysis_isolated sharing [u] [a] [w] [] hw hd trivial
  exact ⟨hw, hd, by decide, by decide, by decide, by decide, htable, hprogram⟩

end Moo
