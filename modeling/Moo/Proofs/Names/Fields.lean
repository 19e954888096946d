import Moo.Proofs.Names.Accounts
import Moo.Proofs.Names.Lockstep

/-!
# Struct fields are out of scope

The fields of a struct go into a list of their own. Another field list in the
place of a struct's own changes what is reported in the list itself, and at
dots; names that are looked up in scopes never come to a field.

* `Likeness.outside`: symbols for the same declaration, whatever the members
  of struct types are.
* `Decl.analyze_withoutFields`: analysis of a declaration goes in lockstep
  with that of the declaration without its fields.
* `fields_isolated`: two programs that differ in field lists.
-/
namespace Moo

/-- Takes all fields away. -/
def Decl.withoutFields : Decl → Decl
  | .struct tag _ => .struct tag []
  | decl => decl

def Program.withoutFields (program : Program) : Program :=
  ⟨program.decls.map Decl.withoutFields⟩

/-- Symbols for the same declaration, with any members. -/
def Likeness.outside : Likeness where
  origins := Eq
  child h _ _ := h ▸ rfl
  labels := id
  inside := False

theorem Likeness.outside_exact : Likeness.outside.Exact :=
  ⟨fun _ _ h => h, fun _ => rfl⟩

open Walk

/-! ## With fields and without -/

theorem Decl.analyze_withoutFields {decl : Decl} (h : decl.WellFormed) (origin : Origin) :
    Walk.Lockstep .outside (decl.analyze origin)
      ((decl.withoutFields.relabel Likeness.outside.relabel).analyze origin) fun r s =>
        Decl.SameOutline Decl.outerSitesAll [r] [s] := by
  cases decl with
  | struct tag fields =>
    intro a b hab
    -- The fields leave the table as it is, so both tags are bound in like tables.
    have hfields := Decl.analyzeFields_steps origin fields 0 []
    have hmid : (Decl.analyzeFields origin 0 [] fields a).2.Like .outside b :=
      ⟨hfields.table_eq a ▸ hab.scopes, (hfields.fault_eq h a).trans hab.fault, False.elim⟩
    have hbind : Walk.Lockstep .outside
        (Walk.bind tag (some (.structType
          (.mk origin tag.name (Decl.analyzeFields origin 0 [] fields a).1.2))))
        (Walk.bind (tag.relabel Likeness.outside.relabel)
          (some (.structType (.mk origin tag.name [])))) (Ident.Like .outside) :=
      bind_struct_lockstep rfl tag False.elim
    obtain ⟨hafter, htag⟩ := hbind _ _ hmid
    exact ⟨hafter, .struct Likeness.outside_exact htag _ _⟩
  | _ => exact (Decl.analyze_lockstep rfl _ (.inr h)).mono fun _ _ hrs => hrs Likeness.outside_exact

theorem Decl.analyzeAll_withoutFields {decls : List Decl} (h : ∀ decl ∈ decls, decl.WellFormed)
    (clock : Nat) :
    Walk.Lockstep .outside (Decl.analyzeAll clock decls)
      (Decl.analyzeAll clock
        (Decl.relabelAll Likeness.outside.relabel (decls.map Decl.withoutFields))) fun r s =>
        Decl.SameOutline Decl.outerSitesAll r s := by
  induction decls generalizing clock with
  | nil => exact .pure ⟨fun _ => rfl, fun _ _ _ => rfl⟩
  | cons decl decls ih =>
    obtain ⟨hd, hds⟩ := List.forall_mem_cons.1 h
    exact (Decl.analyze_withoutFields hd _).bind fun _ _ hd =>
      (ih hds (clock + 1)).last fun _ _ hds => hd.append Decl.outerSitesAll_append hds

/-- Programs that differ in field lists look the same outside of them, when they are analysed. -/
theorem Program.sameSites_of_withoutFields {p q : Program} (hp : p.WellFormed) (hq : q.WellFormed)
    (h : p.withoutFields = q.withoutFields) :
    SameSites p.analyze.program.outerSites q.analyze.program.outerSites := by
  have hstart : WalkState.Like .outside ⟨.new, [], none⟩ ⟨.new, [], none⟩ :=
    ⟨.cons Scope.like_nil .nil, rfl, False.elim⟩
  have hsame {p : Program} (hp : p.WellFormed) :=
    (Decl.analyzeAll_withoutFields hp 0 _ _ hstart).2.sites [] [] fun _ => rfl
  have hdecls : p.decls.map Decl.withoutFields = q.decls.map Decl.withoutFields :=
    congrArg Program.decls h
  have hp' := hsame hp
  rw [hdecls] at hp'
  exact hp'.trans (hsame hq).symm

/-! ## What is seen from outside -/

/-- The uses of the identifiers that are neither in the field list of a struct nor behind a dot. -/
def Program.plainUses (program : Program) : List Use :=
  (program.outerSites.filterMap Site.plain?).map fun id => (Occurrence.ident id).use

/-- A misuse of a name that was looked up in scopes, or declared. -/
def Misuse.isPlain : Misuse → Bool
  | notAStruct | unknownField => false
  | _ => true

theorem SameSites.uses {as bs : List Site} (h : SameSites as bs) :
    (as.filterMap Site.plain?).map (fun id => (Occurrence.ident id).use) =
      (bs.filterMap Site.plain?).map fun id => (Occurrence.ident id).use := by
  have huses (sites : List Site) :
      (sites.filterMap Site.plain?).map (fun id => (Occurrence.ident id).use) =
        (sites.map Site.outline).filterMap (Option.map Prod.fst) := by
    rw [List.map_filterMap, List.filterMap_map]
    congr 1
    funext site
    cases site <;> rfl
  rw [huses, huses, h]

/-- At a dot there are no other misuses. -/
theorem Site.errors_access (object : Expr) (field : Ident) (symbol : Option Symbol) :
    (Site.access object field symbol).errors.filter (·.misuse.isPlain) = [] := by
  simp only [Site.errors, Site.misuses]
  split
  · split <;> simp [Diagnostic.about, Misuse.isPlain]
  · simp [Diagnostic.about, Misuse.isPlain]

theorem SameSites.errors {as bs : List Site} (h : SameSites as bs) :
    (as.flatMap Site.errors).filter (·.misuse.isPlain) =
      (bs.flatMap Site.errors).filter (·.misuse.isPlain) := by
  have hsite (site : Site) : site.errors.filter (·.misuse.isPlain) =
      ((site.outline.map Prod.snd).getD []).filter (·.misuse.isPlain) := by
    cases site with
    | access object field symbol => exact Site.errors_access object field symbol
    | _ => rfl
  have hall (sites : List Site) : (sites.flatMap Site.errors).filter (·.misuse.isPlain) =
      (sites.map Site.outline).flatMap fun outline =>
        ((outline.map Prod.snd).getD []).filter (·.misuse.isPlain) := by
    rw [List.filter_flatMap, List.flatMap_map]
    exact List.flatMap_congr fun site _ => hsite site
  rw [hall, hall, h]

/-- In a list of variables or fields no name is used but those of struct types. -/
theorem Decl.variableSites_undeclared (before decls : List Decl) :
    ((Decl.variableSitesAll before decls).flatMap Site.errors).filter
      (·.misuse = .undeclared) = [] := by
  induction decls generalizing before with
  | nil => rfl
  | cons decl decls ih =>
    have hdecl (type : TypeExpr) (id : Ident) :
        ((type.sites ++ [Site.declaration before (some type) id]).flatMap Site.errors).filter
          (·.misuse = .undeclared) = [] := by
      have htype : (type.sites.flatMap Site.errors).filter (·.misuse = .undeclared) = [] := by
        cases type with
        | struct tag =>
          simp only [TypeExpr.sites, List.flatMap_cons, Site.errors, Site.misuses]
          split <;> simp [Diagnostic.about]
        | _ => rfl
      rw [List.flatMap_append, List.filter_append, htype, List.nil_append]
      simp only [List.flatMap_cons, Site.errors, Site.misuses]
      split <;> split <;> simp [Diagnostic.about]
    rw [Decl.variableSitesAll, List.flatMap_append, List.filter_append, ih, List.append_nil]
    cases decl with
    | var type id | formal type id => exact hdecl type id
    | _ => rfl

theorem Decl.sites_undeclared (decls before : List Decl) :
    ((Decl.sitesAll before decls).flatMap Site.errors).filter (·.misuse = .undeclared) =
      ((Decl.outerSitesAll before decls).flatMap Site.errors).filter
        (·.misuse = .undeclared) := by
  induction decls generalizing before with
  | nil => rfl
  | cons decl decls ih =>
    have hdecl : ((decl.sites before).flatMap Site.errors).filter (·.misuse = .undeclared) =
        ((decl.outerSites before).flatMap Site.errors).filter (·.misuse = .undeclared) := by
      cases decl with
      | struct tag fields =>
        rw [Decl.sites, List.flatMap_append, List.filter_append, Decl.variableSites_undeclared]
        rfl
      | _ => rfl
    rw [Decl.sitesAll, Decl.outerSitesAll, List.flatMap_append, List.flatMap_append,
      List.filter_append, List.filter_append, hdecl, ih]

/-- With other field lists in the place of its structs' own, a program has the same undeclared
names, and outside of field lists the same misuses in the same places and order, but for those at
dots. All names that are not in field lists or behind dots stand for the same declarations. -/
theorem fields_isolated (p q : Program) (hp : p.WellFormed) (hq : q.WellFormed)
    (hup : Unresolved p.occurrences) (huq : Unresolved q.occurrences)
    (h : p.withoutFields = q.withoutFields) :
    let a := p.analyze
    let b := q.analyze
    a.fault = none ∧ b.fault = none ∧
      a.diagnostics = a.program.sites.flatMap Site.errors ∧
      b.diagnostics = b.program.sites.flatMap Site.errors ∧
      a.diagnostics.filter (·.misuse = .undeclared) =
        b.diagnostics.filter (·.misuse = .undeclared) ∧
      (a.program.outerSites.flatMap Site.errors).filter (·.misuse.isPlain) =
        (b.program.outerSites.flatMap Site.errors).filter (·.misuse.isPlain) ∧
      a.program.plainUses = b.program.plainUses := by
  obtain ⟨hfault, hsites, -⟩ := analysis_explained p hp hup
  obtain ⟨hfault', hsites', -⟩ := analysis_explained q hq huq
  have hsame := Program.sameSites_of_withoutFields hp hq h
  refine ⟨hfault, hfault', hsites.errors_eq, hsites'.errors_eq, ?_, hsame.errors, hsame.uses⟩
  have hplain (program : Program) :
      (program.sites.flatMap Site.errors).filter (·.misuse = .undeclared) =
        ((program.outerSites.flatMap Site.errors).filter (·.misuse.isPlain)).filter
          (·.misuse = .undeclared) := by
    rw [Program.sites, Decl.sites_undeclared, List.filter_filter]
    refine List.filter_congr fun d _ => ?_
    cases hd : d.misuse <;> simp [Misuse.isPlain]
  rw [hsites.errors_eq, hsites'.errors_eq, hplain, hplain, hsame.errors]

/-- `struct S { .. }; struct S s; void f() { s.a = y; }`, a line for each declaration. -/
def holding (fields : List Decl) : Program :=
  ⟨[.struct ⟨"S", some ⟨1, 8⟩, none⟩ fields,
    .var (.struct ⟨"S", some ⟨2, 8⟩, none⟩) ⟨"s", some ⟨2, 10⟩, none⟩,
    .function (.primitive "void") ⟨"f", some ⟨3, 6⟩, none⟩ [] []
      [.assign (.assign (.dot (.name ⟨"s", some ⟨3, 12⟩, none⟩) ⟨"a", some ⟨3, 14⟩, none⟩ none)
        (.name ⟨"y", some ⟨3, 18⟩, none⟩))]]⟩

theorem holding_wellFormed {fields : List Decl} (h : ∀ field ∈ fields, field.IsVariable) :
    (holding fields).WellFormed := by
  simpa [holding, Program.WellFormed, Decl.WellFormed, TypeExpr.WellFormed, Stmt.WellFormed,
    Stmt.WellFormedAll, Expr.WellFormed] using h

theorem holding_unresolved {fields : List Decl} (h : Unresolved (Decl.occurrencesAll fields)) :
    Unresolved (holding fields).occurrences := by
  simp [holding, Program.occurrences, h, Decl.occurrencesAll, Decl.occurrences,
    TypeExpr.occurrences, Stmt.occurrencesAll, Stmt.occurrences, Expr.occurrences,
    Occurrence.symbol]

/-- The fields `int a`, and `void y; struct T a` in their place: that there is a field `y` does not
make up for the variable that is missing. -/
theorem fields_isolated_clash :
    let a := holding [.var (.primitive "int") ⟨"a", some ⟨1, 16⟩, none⟩]
    let b := holding [.var (.primitive "void") ⟨"y", some ⟨1, 17⟩, none⟩,
      .var (.struct ⟨"T", some ⟨1, 27⟩, none⟩) ⟨"a", some ⟨1, 29⟩, none⟩]
    a.WellFormed ∧ b.WellFormed ∧ Unresolved a.occurrences ∧ Unresolved b.occurrences ∧
      a.withoutFields = b.withoutFields ∧
      a.analyze.diagnostics = [⟨⟨3, 18⟩, .undeclared⟩] ∧
      b.analyze.diagnostics = [⟨⟨1, 17⟩, .voidVariable⟩, ⟨⟨1, 27⟩, .unknownStruct⟩,
        ⟨⟨3, 14⟩, .unknownField⟩, ⟨⟨3, 18⟩, .undeclared⟩] ∧
      a.analyze.program.plainUses = b.analyze.program.plainUses := by
  intro a b
  have ha : a.WellFormed := holding_wellFormed (by simp [Decl.IsVariable, TypeExpr.WellFormed])
  have hb : b.WellFormed := holding_wellFormed (by simp [Decl.IsVariable, TypeExpr.WellFormed])
  have hua : Unresolved a.occurrences := holding_unresolved <| by
    simp [Decl.occurrencesAll, Decl.occurrences, TypeExpr.occurrences, Occurrence.symbol]
  have hub : Unresolved b.occurrences := holding_unresolved <| by
    simp [Decl.occurrencesAll, Decl.occurrences, TypeExpr.occurrences, Occurrence.symbol]
  obtain ⟨-, -, -, -, -, -, huses⟩ := fields_isolated a b ha hb hua hub rfl
  exact ⟨ha, hb, hua, hub, rfl, by decide +kernel, by decide +kernel, huses⟩

end Moo
