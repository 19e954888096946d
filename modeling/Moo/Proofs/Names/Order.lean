import Moo.Proofs.Names.Refinement
import Moo.Proofs.Reading.Locations
import Moo.Proofs.Tree.Shape

/-!
# The order of diagnostics

What analysis reports about a program that was read comes in the order of
the text, with one exception: the tag of a struct is declared behind its
fields, so that it is declared already is reported behind all that is
reported about them.

* `Follow`: errors that are about identifiers in the order of these.
* `Expr.resolveIn_follow`, `Stmt.resolveIn_follow`, `Decl.resolveIn_follow`:
  the errors of each form follow its identifiers.
* `analysis_ordered`: the statement for programs that were read.
-/
namespace Moo

/-- The errors are about identifiers among the occurrences. -/
def About (errors : List Diagnostic) (occurrences : List Occurrence) : Prop :=
  ∀ d ∈ errors, ∃ id misuse, .ident id ∈ occurrences ∧ d = .about id misuse

/-- The errors are about identifiers among the occurrences, in the order of these. Several may be
about one identifier. -/
inductive Follow : List Diagnostic → List Occurrence → Prop
  | nil : Follow [] []
  | skip {errors occurrences} (o : Occurrence) : Follow errors occurrences →
    Follow errors (o :: occurrences)
  | about {errors occurrences} (id : Ident) (misuse : Misuse) :
    Follow errors (.ident id :: occurrences) →
    Follow (.about id misuse :: errors) (.ident id :: occurrences)

namespace Follow

variable {errors more : List Diagnostic} {os ps : List Occurrence}

theorem empty : (os : List Occurrence) → Follow [] os
  | [] => .nil
  | o :: os => .skip o (empty os)

theorem append (h : Follow errors os) (h' : Follow more ps) :
    Follow (errors ++ more) (os ++ ps) := by
  induction h with
  | nil => exact h'
  | skip o _ ih => exact .skip o ih
  | about id misuse _ ih => exact .about id misuse ih

/-- Some errors about one identifier. -/
theorem single {id : Ident} (h : ∀ d ∈ errors, ∃ misuse, d = .about id misuse) :
    Follow errors [.ident id] := by
  induction errors with
  | nil => exact empty _
  | cons d errors ih =>
    obtain ⟨⟨misuse, rfl⟩, hrest⟩ := List.forall_mem_cons.1 h
    exact .about id misuse (ih hrest)

/-- One more error about the last identifier. -/
theorem again {id : Ident} (h : Follow errors (os ++ [.ident id])) (misuse : Misuse) :
    Follow (errors ++ [.about id misuse]) (os ++ [.ident id]) := by
  generalize hos : os ++ [.ident id] = all at h
  induction h generalizing os with
  | nil => simp at hos
  | skip o hrest ih =>
    cases os with
    | nil =>
      obtain ⟨rfl, rfl⟩ := List.cons.inj hos
      cases hrest
      exact .about id misuse (empty _)
    | cons _ os =>
      obtain ⟨rfl, htail⟩ := List.cons.inj hos
      exact .skip _ (ih htail)
  | about other misuse' _ ih => exact .about other misuse' (ih hos)

theorem filter (keep : Diagnostic → Bool) (h : Follow errors os) :
    Follow (errors.filter keep) os := by
  induction h with
  | nil => exact .nil
  | skip o _ ih => exact .skip o ih
  | about id misuse _ ih =>
    rw [List.filter_cons]
    split
    · exact .about id misuse ih
    · exact ih

theorem about_idents (h : Follow errors os) : About errors os := by
  induction h with
  | nil => exact List.forall_mem_nil _
  | skip o _ ih =>
    intro d hd
    obtain ⟨id, misuse, hid, he⟩ := ih d hd
    exact ⟨id, misuse, List.mem_cons_of_mem _ hid, he⟩
  | about id misuse _ ih =>
    intro d hd
    rcases List.mem_cons.1 hd with rfl | hd
    · exact ⟨id, misuse, List.mem_cons_self, rfl⟩
    · exact ih d hd

/-- Where identifiers stand one behind the other, so do the errors about them. -/
theorem ordered (h : Follow errors os) {locs : List Loc} (hlocs : locsOf os = locs.map some)
    (hordered : locs.Pairwise Loc.Before) :
    errors.Pairwise fun a b => a.loc = b.loc ∨ a.loc.Before b.loc := by
  induction h generalizing locs with
  | nil => exact .nil
  | skip o _ ih =>
    cases o with
    | dot | stray => exact ih hlocs hordered
    | ident id =>
      cases locs with
      | nil => cases hlocs
      | cons loc locs => exact ih (List.cons.inj hlocs).2 (List.pairwise_cons.1 hordered).2
  | @about errors os id misuse hrest ih =>
    refine List.pairwise_cons.2 ⟨?_, ih hlocs hordered⟩
    cases locs with
    | nil => cases hlocs
    | cons loc locs =>
      obtain ⟨hid, htail⟩ : id.loc = some loc ∧ locsOf os = locs.map some := List.cons.inj hlocs
      intro d hd
      obtain ⟨other, misuse', hother, rfl⟩ := hrest.about_idents d hd
      rcases List.mem_cons.1 hother with heq | hother
      · cases heq
        exact .inl rfl
      · have hmem := mem_locsOf hother
        rw [htail] at hmem
        obtain ⟨loc', hloc', hsome⟩ := List.mem_map.1 hmem
        refine .inr ?_
        simp only [Diagnostic.about, hid, ← hsome, Option.getD_some]
        exact (List.pairwise_cons.1 hordered).1 loc' hloc'

end Follow

/-! ## Expressions -/

/-- What stands at the right end of a name or a field access is its last identifier. -/
theorem Expr.occurrences_lastIdent {expr : Expr} {id : Ident} (h : expr.lastIdent? = some id) :
    ∃ front, expr.occurrences = front ++ [.ident id] := by
  cases expr with
  | name => cases h; exact ⟨[], rfl⟩
  | dot object field symbol => cases h; exact ⟨_, rfl⟩
  | _ => cases h

theorem Ident.resolveIn_follow (env : Env) (id : Ident) :
    Follow (id.resolveIn env).2.errors [.ident id] := by
  unfold resolveIn
  split
  · exact .empty _
  · exact .single (by simp)

/-- A field access is wrong at its field or at what stands in front of its dot. -/
theorem memberOf_follow {object : Expr} {errors : List Diagnostic} (base : Option Meaning)
    (field : Ident) (h : Follow errors object.occurrences) :
    Follow (errors ++ (memberOf object base field).2) (object.occurrences ++ [.ident field]) := by
  unfold memberOf
  split
  · split
    · exact h.append (.empty _)
    · exact h.append (.single (by simp))
  · cases hlast : object.lastIdent? with
    | none => exact h.append (.single (by simp))
    | some id =>
      obtain ⟨front, hfront⟩ := Expr.occurrences_lastIdent hlast
      rw [hfront] at h ⊢
      simpa using (h.again .notAStruct).append (.empty [.ident field])

mutual

theorem Expr.resolveIn_follow (env : Env) : (expr : Expr) →
    Follow (expr.resolveIn env).2.errors expr.occurrences
  | .int .. | .str .. | .bool .. => .nil
  | .strayDot .. | .strayCall .. | .stray _ => .empty _
  | .name id => id.resolveIn_follow env
  | .dot object field _ =>
    .skip _ (memberOf_follow (object.resolveIn env).1 field (object.resolveIn_follow env))
  | .assign target value => (target.resolveIn_follow env).append (value.resolveIn_follow env)
  | .call callee args => (callee.resolveIn_follow env).append (Expr.resolveAllIn_follow env args)
  | .unary _ operand => operand.resolveIn_follow env
  | .binary _ left right => (left.resolveIn_follow env).append (right.resolveIn_follow env)

theorem Expr.resolveAllIn_follow (env : Env) : (exprs : List Expr) →
    Follow (Expr.resolveAllIn env exprs).errors (Expr.occurrencesAll exprs)
  | [] => .nil
  | expr :: exprs => (expr.resolveIn_follow env).append (Expr.resolveAllIn_follow env exprs)

end

/-! ## Variables -/

theorem Names.declare_errors (names : Names) (id : Ident) (meaning : Option Meaning) :
    (names.declare id meaning).2 = [] ∨ (names.declare id meaning).2 = [.about id .redeclared] := by
  unfold declare
  split
  · exact .inl rfl
  · split
    · exact .inr rfl
    · exact .inl rfl

theorem Names.declare_follow (names : Names) (id : Ident) (meaning : Option Meaning) :
    Follow (names.declare id meaning).2 [.ident id] := by
  rcases names.declare_errors id meaning with h | h
  · rw [h]
    exact .empty _
  · rw [h]
    exact .single (by simp)

theorem tagIn_follow (env : Env) (tag : Ident) : Follow (tagIn env tag).2.errors [.ident tag] := by
  unfold tagIn
  split
  · exact .empty _
  · exact .single (by simp)

/-- A variable is wrong at the tag of its type, and then at its own name. -/
theorem variable_follow (env : Env) (decl : Origin) (type : TypeExpr) (id : Ident) (names : Names)
    (meaning : Option Meaning) :
    Follow ((type.resolveIn env decl id).2.errors ++ (names.declare id meaning).2)
      (type.occurrences ++ [.ident id]) := by
  have hown := names.declare_follow id meaning
  cases type with
  | primitive name =>
    simp only [TypeExpr.resolveIn]
    split
    · exact .about id .voidVariable hown
    · exact hown
  | struct tag => exact (tagIn_follow env tag).append hown
  | stray thing => exact (Follow.empty _).append hown

theorem Decl.enter_follow (env : Env) (names : Names) (origin : Origin) (decl : Decl) :
    Follow (decl.enter env names origin).2.errors decl.occurrences := by
  cases decl with
  | var type id | formal type id => exact variable_follow env origin type id names _
  | _ => exact .empty _

theorem Decl.enterAll_follow (outer : Env) (path : Origin) (part : Part) (decls : List Decl) :
    ∀ names index,
      Follow (Decl.enterAll outer names path part index decls).2.errors
        (Decl.occurrencesAll decls) := by
  induction decls with
  | nil => exact fun _ _ => .nil
  | cons decl decls ih => exact fun names index => (decl.enter_follow _ _ _).append (ih _ _)

theorem Decl.enterFields_follow (env : Env) (path : Origin) (fields : List Decl) :
    ∀ members index,
      Follow (Decl.enterFields env members path index fields).2.errors
        (Decl.occurrencesAll fields) := by
  induction fields with
  | nil => exact fun _ _ => .nil
  | cons field fields ih => exact fun members index => (field.enter_follow _ _ _).append (ih _ _)

/-! ## Statements -/

mutual

theorem Stmt.resolveIn_follow (env : Env) (path : Origin) : (stmt : Stmt) →
    Follow (stmt.resolveIn env path).errors stmt.occurrences
  | .assign expr | .increment expr | .decrement expr | .read expr | .write expr | .call expr
  | .returnValue expr => expr.resolveIn_follow env
  | .ifThen condition decls stmts | .loop condition decls stmts => by
    rw [Stmt.occurrences, List.append_assoc]
    have hdecls := Decl.enterAll_follow env path .decls decls [] 0
    exact (condition.resolveIn_follow env).append
      (hdecls.append (Stmt.resolveAllIn_follow _ path .stmts stmts 0))
  | .ifElse condition thenDecls thenStmts elseDecls elseStmts => by
    rw [Stmt.occurrences, List.append_assoc, List.append_assoc, List.append_assoc,
      ← List.append_assoc (Decl.occurrencesAll thenDecls)]
    exact (condition.resolveIn_follow env).append <| .append
      ((Decl.enterAll_follow env path .decls thenDecls [] 0).append
        (Stmt.resolveAllIn_follow _ path .stmts thenStmts 0))
      ((Decl.enterAll_follow env path .elseDecls elseDecls [] 0).append
        (Stmt.resolveAllIn_follow _ path .elseStmts elseStmts 0))
  | .returnNothing => .nil
  | .stray _ => .empty _

theorem Stmt.resolveAllIn_follow (env : Env) (path : Origin) (part : Part) : (stmts : List Stmt) →
    (index : Nat) → Follow (Stmt.resolveAllIn env path part index stmts).errors
      (Stmt.occurrencesAll stmts)
  | [], _ => .nil
  | stmt :: stmts, index =>
    (stmt.resolveIn_follow env _).append (Stmt.resolveAllIn_follow env path part stmts (index + 1))

end

/-! ## Declarations at top level -/

theorem TypeExpr.returnIn_follow (env : Env) (type : TypeExpr) :
    Follow (type.returnIn env).errors type.occurrences := by
  cases type with
  | struct tag => exact tagIn_follow env tag
  | _ => exact .empty _

/-- All but a struct are wrong at their identifiers in the order of these. -/
theorem Decl.resolveIn_follow (names : Names) (path : Origin) (decl : Decl)
    (h : ∀ tag fields, decl ≠ .struct tag fields) :
    Follow (decl.resolveIn names path).2.errors decl.occurrences := by
  cases decl with
  | struct tag fields => exact absurd rfl (h tag fields)
  | function returns id formals decls stmts =>
    have hparts : (Decl.function returns id formals decls stmts).occurrences =
        (returns.occurrences ++ [.ident id]) ++ (Decl.occurrencesAll formals ++
          (Decl.occurrencesAll decls ++ Stmt.occurrencesAll stmts)) := by
      simp [Decl.occurrences]
    rw [hparts]
    exact ((returns.returnIn_follow _).append (names.declare_follow id _)).append <|
      (Decl.enterAll_follow _ path .formals formals _ 0).append <|
      (Decl.enterAll_follow _ path .decls decls _ 0).append
        (Stmt.resolveAllIn_follow _ path .stmts stmts 0)
  | _ => exact Decl.enter_follow _ _ _ _

/-- A struct is wrong at its fields, and then at its tag. -/
theorem Decl.resolveIn_struct (names : Names) (path : Origin) (tag : Ident) (fields : List Decl) :
    ∃ inner own, ((Decl.struct tag fields).resolveIn names path).2.errors = inner ++ own ∧
      Follow inner (Decl.occurrencesAll fields) ∧ (own = [] ∨ own = [.about tag .redeclared]) :=
  ⟨_, _, rfl, Decl.enterFields_follow [names] path fields [] 0, names.declare_errors tag _⟩

/-- All is reported about identifiers of the declaration. -/
theorem Decl.resolveIn_about (names : Names) (path : Origin) (decl : Decl) :
    About (decl.resolveIn names path).2.errors decl.occurrences := by
  by_cases h : ∃ tag fields, decl = .struct tag fields
  · obtain ⟨tag, fields, rfl⟩ := h
    obtain ⟨inner, own, herrors, hinner, hown⟩ := Decl.resolveIn_struct names path tag fields
    have htag : Follow own [.ident tag] := by
      rcases hown with rfl | rfl
      · exact .empty _
      · exact .single (by simp)
    have hboth := hinner.append htag
    intro d hd
    rw [herrors] at hd
    obtain ⟨id, misuse, hid, he⟩ := hboth.about_idents d hd
    exact ⟨id, misuse, by simpa [Decl.occurrences, or_comm] using hid, he⟩
  · exact (decl.resolveIn_follow names path fun tag fields he => h ⟨tag, fields, he⟩).about_idents

theorem Decl.resolveAllIn_about (decls : List Decl) : ∀ names index,
    About (Decl.resolveAllIn names index decls).2.errors (Decl.occurrencesAll decls) := by
  induction decls with
  | nil => exact fun _ _ => List.forall_mem_nil _
  | cons decl decls ih =>
    intro names index d hd
    rcases List.mem_append.1 hd with hd | hd
    · obtain ⟨id, misuse, hid, he⟩ := decl.resolveIn_about names (.top index) d hd
      exact ⟨id, misuse, List.mem_append_left _ hid, he⟩
    · obtain ⟨id, misuse, hid, he⟩ := ih _ _ d hd
      exact ⟨id, misuse, List.mem_append_right _ hid, he⟩

/-- Without what is reported at the tags of structs, all comes in order. -/
theorem Decl.resolveAllIn_follow (keep : Diagnostic → Bool) (decls : List Decl)
    (h : ∀ tag fields, .struct tag fields ∈ decls → keep (.about tag .redeclared) = false) :
    ∀ names index,
      Follow ((Decl.resolveAllIn names index decls).2.errors.filter keep)
        (Decl.occurrencesAll decls) := by
  induction decls with
  | nil => exact fun _ _ => .nil
  | cons decl decls ih =>
    intro names index
    have hrest := ih (fun tag fields hm => h tag fields (List.mem_cons_of_mem _ hm))
      (decl.resolveIn names (.top index)).1 (index + 1)
    have hfirst : Follow ((decl.resolveIn names (.top index)).2.errors.filter keep)
        decl.occurrences := by
      by_cases hs : ∃ tag fields, decl = .struct tag fields
      · obtain ⟨tag, fields, rfl⟩ := hs
        obtain ⟨inner, own, herrors, hinner, hown⟩ :=
          Decl.resolveIn_struct names (.top index) tag fields
        have hnone : own.filter keep = [] := by
          rcases hown with rfl | rfl
          · rfl
          · simp [h tag fields List.mem_cons_self]
        rw [herrors, List.filter_append, hnone, List.append_nil]
        exact .skip _ (hinner.filter keep)
      · exact (decl.resolveIn_follow names _ fun tag fields he => hs ⟨tag, fields, he⟩).filter keep
    simp only [Decl.resolveAllIn, Resolution.andThen, List.filter_append]
    exact hfirst.append hrest

theorem Decl.resolveAllIn_append (before after : List Decl) : ∀ names index, ∃ names' index',
    (Decl.resolveAllIn names index (before ++ after)).2.errors =
      (Decl.resolveAllIn names index before).2.errors ++
        (Decl.resolveAllIn names' index' after).2.errors := by
  induction before with
  | nil => exact fun names index => ⟨names, index, rfl⟩
  | cons decl before ih =>
    intro names index
    obtain ⟨names', index', herrors⟩ := ih (decl.resolveIn names (.top index)).1 (index + 1)
    refine ⟨names', index', ?_⟩
    simp only [List.cons_append, Decl.resolveAllIn, Resolution.andThen, herrors, List.append_assoc]

/-- What is reported around a struct: in front of it, in its fields, at its tag, and behind it. -/
theorem Decl.resolveAllIn_around (before fields after : List Decl) (tag : Ident) :
    ∃ earlier inner own later,
      (Decl.resolveAllIn [] 0 (before ++ .struct tag fields :: after)).2.errors =
        earlier ++ inner ++ own ++ later ∧
      About earlier (Decl.occurrencesAll before) ∧ About inner (Decl.occurrencesAll fields) ∧
      (own = [] ∨ own = [.about tag .redeclared]) ∧ About later (Decl.occurrencesAll after) := by
  obtain ⟨names, index, hparts⟩ :=
    Decl.resolveAllIn_append before (.struct tag fields :: after) [] 0
  obtain ⟨inner, own, hstruct, hinner, hown⟩ :=
    Decl.resolveIn_struct names (.top index) tag fields
  refine ⟨_, inner, own, _, ?_, Decl.resolveAllIn_about before [] 0, hinner.about_idents, hown,
    Decl.resolveAllIn_about after ((Decl.struct tag fields).resolveIn names (.top index)).1
      (index + 1)⟩
  rw [hparts, List.append_assoc, List.append_assoc, ← List.append_assoc inner, ← hstruct]
  rfl

/-! ## Programs that were read -/

/-- Analysis of a program that was read reports the errors of resolution. -/
theorem analyze_errors {source : String} {program : Program} (h : parse source = .ok program) :
    program.analyze.fault = none ∧ program.analyze.diagnostics = program.resolve.errors := by
  obtain ⟨decls, scope, events, hanalysis, herrors, -⟩ :=
    Program.analyze_runs (parse_shaped h).wellFormed (parse_written h).1
  rw [hanalysis]
  exact ⟨rfl, herrors⟩

/-- Whether the diagnostic says that the tag of one of the program's structs is declared already. -/
def Program.reportsTag (program : Program) (diagnostic : Diagnostic) : Bool :=
  program.decls.any fun
    | .struct tag _ => diagnostic = .about tag .redeclared
    | _ => false

theorem Program.reportsTag_struct {program : Program} {tag : Ident} {fields : List Decl}
    (h : .struct tag fields ∈ program.decls) :
    program.reportsTag (.about tag .redeclared) = true :=
  List.any_eq_true.2 ⟨_, h, by simp⟩

/-- What is reported about other identifiers is reported elsewhere. -/
theorem About.loc_ne {errors : List Diagnostic} {os : List Occurrence} {id : Ident}
    (h : About errors os) (hsome : ∀ loc ∈ locsOf os, loc.isSome) (hid : id.loc ∉ locsOf os) :
    ∀ d ∈ errors, id.loc ≠ some d.loc := by
  intro d hd heq
  obtain ⟨other, misuse, hother, rfl⟩ := h d hd
  have hloc := mem_locsOf hother
  obtain ⟨loc, hl⟩ := Option.isSome_iff_exists.1 (hsome _ hloc)
  rw [hl] at hloc
  simp only [Diagnostic.about, hl, Option.getD_some] at heq
  exact hid (heq ▸ hloc)

/-- If the tag of a struct is declared already, this is reported between what is reported in the
struct and what is reported behind it. -/
theorem struct_tag_between {before fields after : List Decl} {tag : Ident}
    {front back : List Diagnostic}
    (hnodup : (locsOf (Decl.occurrencesAll (before ++ .struct tag fields :: after))).Nodup)
    (hsome : ∀ loc ∈ locsOf (Decl.occurrencesAll (before ++ .struct tag fields :: after)),
      loc.isSome)
    (hsplit : (Decl.resolveAllIn [] 0 (before ++ .struct tag fields :: after)).2.errors =
      front ++ .about tag .redeclared :: back) :
    (∀ id, .ident id ∈ Decl.occurrencesAll fields → ∀ d ∈ back, id.loc ≠ some d.loc) ∧
      ∀ id, .ident id ∈ Decl.occurrencesAll after → ∀ d ∈ front, id.loc ≠ some d.loc := by
  simp only [Decl.occurrencesAll_append, Decl.occurrencesAll, Decl.occurrences, List.cons_append,
    locsOf_append, locsOf_ident, List.nodup_append', List.nodup_cons, List.disjoint_cons_right,
    List.disjoint_append_right, List.mem_append, List.mem_cons, not_or] at hnodup hsome
  obtain ⟨-, ⟨⟨htagFields, htagAfter⟩, -, -, hfieldsAfter⟩, htagBefore, -, hbeforeAfter⟩ := hnodup
  have hsomeBefore := fun loc hloc => hsome loc (.inl hloc)
  have hsomeFields := fun loc hloc => hsome loc (.inr (.inr (.inl hloc)))
  have hsomeAfter := fun loc hloc => hsome loc (.inr (.inr (.inr hloc)))
  obtain ⟨loc, hloc⟩ := Option.isSome_iff_exists.1 (hsome tag.loc (.inr (.inl rfl)))
  have htag : tag.loc = some (Diagnostic.about tag .redeclared).loc := by
    simp [Diagnostic.about, hloc]
  obtain ⟨earlier, inner, own, later, hparts, hearlier, hinner, hown, hlater⟩ :=
    Decl.resolveAllIn_around before fields after tag
  -- no other error stands at the tag, so this one stands where the struct says
  have hfront : .about tag .redeclared ∉ earlier ++ inner := by
    rw [List.mem_append, not_or]
    exact ⟨fun hd => hearlier.loc_ne hsomeBefore htagBefore _ hd htag,
      fun hd => hinner.loc_ne hsomeFields htagFields _ hd htag⟩
  have hback : .about tag .redeclared ∉ later :=
    fun hd => hlater.loc_ne hsomeAfter htagAfter _ hd htag
  rw [hparts] at hsplit
  rcases hown with rfl | rfl
  · have hmem : .about tag .redeclared ∈ earlier ++ inner ++ [] ++ later := by
      rw [hsplit]
      exact List.mem_append_right _ List.mem_cons_self
    rw [List.append_nil] at hmem
    exact ((List.mem_append.1 hmem).elim hfront hback).elim
  · rw [List.append_assoc, List.singleton_append] at hsplit
    obtain ⟨rfl, -, rfl⟩ := (List.append_cons_inj_of_notMem hfront hback).1 hsplit
    refine ⟨fun id hid => hlater.loc_ne hsomeAfter (hfieldsAfter (mem_locsOf hid)), ?_⟩
    intro id hid d hd
    have hbefore : id.loc ∉ locsOf (Decl.occurrencesAll before) :=
      fun hmem => hbeforeAfter hmem (mem_locsOf hid)
    have hfields : id.loc ∉ locsOf (Decl.occurrencesAll fields) :=
      fun hmem => hfieldsAfter hmem (mem_locsOf hid)
    rcases List.mem_append.1 hd with hd | hd
    · exact hearlier.loc_ne hsomeBefore hbefore d hd
    · exact hinner.loc_ne hsomeFields hfields d hd

/-- Analysis of a program that was read reports errors at the locations of its identifiers, and in
their order but for the errors that the tag of a struct is declared already. Such an error comes
behind all that is reported in the struct, and in front of all that is reported in what follows. -/
theorem analysis_ordered {source : String} {program : Program} (h : parse source = .ok program) :
    program.analyze.fault = none ∧
      (∀ d ∈ program.analyze.diagnostics, d.loc ≠ ⟨0, 0⟩ ∧
        ∃ id, .ident id ∈ program.occurrences ∧ id.loc = some d.loc) ∧
      ((program.analyze.diagnostics.filter fun d => !program.reportsTag d).Pairwise
        fun a b => a.loc = b.loc ∨ a.loc.Before b.loc) ∧
      ∀ before tag fields after front back,
        program.decls = before ++ .struct tag fields :: after →
        program.analyze.diagnostics = front ++ .about tag .redeclared :: back →
        (∀ id, .ident id ∈ Decl.occurrencesAll fields → ∀ d ∈ back, id.loc ≠ some d.loc) ∧
          ∀ id, .ident id ∈ Decl.occurrencesAll after → ∀ d ∈ front, id.loc ≠ some d.loc := by
  obtain ⟨hfault, herrors⟩ := analyze_errors h
  obtain ⟨locs, hlocs, hordered, hproper⟩ := parse_placed h
  have hnodup : (locsOf program.occurrences).Nodup := (parse_written h).2.1
  have hsome : ∀ loc ∈ locsOf program.occurrences, loc.isSome := (parse_written h).2.2
  rw [herrors]
  refine ⟨hfault, ?_, ?_, ?_⟩
  · intro d hd
    obtain ⟨id, misuse, hid, rfl⟩ := Decl.resolveAllIn_about program.decls [] 0 d hd
    have hmem := mem_locsOf hid
    rw [show locsOf (Decl.occurrencesAll program.decls) = _ from hlocs] at hmem
    obtain ⟨loc, hloc, heq⟩ := List.mem_map.1 hmem
    simp only [Diagnostic.about, ← heq, Option.getD_some]
    exact ⟨hproper loc hloc, id, hid, heq.symm⟩
  · have hfollow := Decl.resolveAllIn_follow (fun d => !program.reportsTag d) program.decls
      (fun tag fields hm => by simp [Program.reportsTag_struct hm]) [] 0
    exact hfollow.ordered hlocs hordered
  · intro before tag fields after front back hdecls hsplit
    obtain ⟨decls⟩ := program
    subst hdecls
    exact struct_tag_between hnodup hsome hsplit

/-- A struct with a field of type `void` and a tag that is declared already. -/
theorem analysis_ordered_tag :
    let source := "int S;struct S\x7bvoid a;\x7d;struct T t;"
    ∃ program, parse source = .ok program ∧
      program.analyze.diagnostics =
        [⟨⟨1, 21⟩, .voidVariable⟩, ⟨⟨1, 14⟩, .redeclared⟩, ⟨⟨1, 32⟩, .unknownStruct⟩] ∧
      (∀ d ∈ program.analyze.diagnostics, d.loc ≠ ⟨0, 0⟩ ∧
        ∃ id, .ident id ∈ program.occurrences ∧ id.loc = some d.loc) ∧
      ((program.analyze.diagnostics.filter fun d => !program.reportsTag d).Pairwise
        fun a b => a.loc = b.loc ∨ a.loc.Before b.loc) := by
  intro source
  have h : parse source = .ok ⟨[.var (.primitive "int") ⟨"S", some ⟨1, 5⟩, none⟩,
      .struct ⟨"S", some ⟨1, 14⟩, none⟩ [.var (.primitive "void") ⟨"a", some ⟨1, 21⟩, none⟩],
      .var (.struct ⟨"T", some ⟨1, 32⟩, none⟩) ⟨"t", some ⟨1, 34⟩, none⟩]⟩ := by
    cbv
  have hordered := analysis_ordered h
  exact ⟨_, h, by cbv, hordered.2.1, hordered.2.2.1⟩

end Moo
