import Mathlib.Data.List.ModifyLast
import Moo.Proofs.Names.Fields
import Moo.Proofs.Names.Retrace
import Moo.Proofs.Session.Passes

/-!
# Stale symbols

Analysis writes symbols on a tree and reads none of them, so a tree that still
has the symbols of an earlier analysis is analysed like any other. It does not
take them away either: a tag that names no struct type keeps the symbol that
it had, and so does the field behind a wrong dot.

On a tree that was without symbols in the beginning nothing stale survives.
The second analysis comes to the symbol of the same declaration at every node
at which the first one came to a symbol, and leaves the others as they are.

* `Program.fault_same`, `Program.diagnostics_same`, `Program.table_moved`: two
  trees that are equal without their symbols.
* `Program.analyzeWith_again`: the same tree once more, at another time.
* `Program.index_origin`: every symbol on the tree comes from a declaration of
  the program itself.
-/
namespace Moo

/-! ## The symbols that are on a tree -/

/-- Symbols for the same declaration, with the same members, and no symbols on the second tree. -/
def Likeness.unlabelled : Likeness :=
  { Likeness.outside with labels := fun _ => none, inside := True }

mutual

theorem Symbol.Like.eq : ∀ {s t : Symbol}, s.Like .unlabelled t → s = t
  | .value .., _, .value rfl _ => rfl
  | .function .., _, .function rfl _ _ => rfl
  | .structType _, _, .structType origin name names members =>
    congrArg Symbol.structType (StructType.eq_of_like origin name (names trivial) (members trivial))
  | .structValue .., _, .structValue rfl _ (.structType origin name names members) => by
    rw [StructType.eq_of_like origin name (names trivial) (members trivial)]

theorem StructType.eq_of_like : ∀ {d e : StructType}, d.origin = e.origin → d.name = e.name →
    d.members.map Prod.fst = e.members.map Prod.fst →
    List.Forall₂ (Symbol.Like .unlabelled) (d.members.map Prod.snd) (e.members.map Prod.snd) →
    d = e
  | .mk _ _ members, .mk _ _ others, origin, name, names, symbols => by
    have hsame : members = others := Scope.eq_of_like names symbols
    simp only [StructType.origin, StructType.name] at origin name
    rw [origin, name, hsame]

theorem Scope.eq_of_like : ∀ {a b : List (String × Symbol)}, a.map Prod.fst = b.map Prod.fst →
    List.Forall₂ (Symbol.Like .unlabelled) (a.map Prod.snd) (b.map Prod.snd) → a = b
  | [], [], _, _ => rfl
  | (_, s) :: a, (_, t) :: b, hn, hs => by
    simp only [List.map_cons, List.cons.injEq, List.forall₂_cons] at hn hs
    rw [hn.1, Symbol.Like.eq hs.1, Scope.eq_of_like hn.2 hs.2]

end

theorem Table.eq_of_like {a b : Table}
    (h : List.Forall₂ (Scope.Like .unlabelled) a.scopes b.scopes) : a = b := by
  obtain ⟨as⟩ := a
  obtain ⟨bs⟩ := b
  have hscopes : List.Forall₂ Eq as bs := h.imp fun _ _ hs => Scope.eq_of_like hs.names hs.symbols
  rw [List.forall₂_eq_eq_eq] at hscopes
  rw [hscopes]

theorem WalkState.Like.outcome {like : Likeness} {a b : WalkState} (h : a.Like like b) :
    a.outcome = b.outcome := by
  have hdepth : a.table.depth = b.table.depth := h.scopes.length_eq
  rw [WalkState.outcome, WalkState.outcome, h.fault, hdepth]

/-- Whether analysis fails, and how, depends neither on the symbols that are on the tree nor on the
declarations that were analysed before, but for the table. -/
theorem Program.fault_forget (program : Program) (table : Table) (clock clock' : Nat) :
    (program.analyzeWith table clock).fault =
      ((program.relabel .forget).analyzeWith table clock').fault := by
  have hstart : WalkState.Like .anywhere ⟨table, [], none⟩ ⟨table, [], none⟩ :=
    .start (fun _ => trivial) table
  exact (Decl.analyzeAll_lockstep program.decls (.inl trivial) (fun _ => trivial) _ _
    hstart).1.outcome

/-- What is declared does not depend on the symbols that are on the tree. -/
theorem Program.table_forget (program : Program) (table : Table) (clock : Nat) :
    (program.analyzeWith table clock).table =
      ((program.relabel .forget).analyzeWith table clock).table := by
  have hstart : WalkState.Like .unlabelled ⟨table, [], none⟩ ⟨table, [], none⟩ :=
    .start (fun _ => rfl) table
  exact Table.eq_of_like
    (Decl.analyzeAll_lockstep program.decls (.inl trivial) (fun _ => rfl) _ _ hstart).1.scopes

/-! ## Another time -/

/-- Other origins, and all else as it is. -/
def Translation.moved (origin : Origin → Origin) : Translation := ⟨id, origin, id⟩

mutual

theorem Symbol.translate_moved_id : ∀ symbol : Symbol, symbol.translate (.moved id) = symbol
  | .value .. => rfl
  | .function _ _ params => congrArg (Symbol.function _ _) (List.map_id params)
  | .structType definition => congrArg Symbol.structType definition.translate_moved_id
  | .structValue _ _ definition => congrArg (Symbol.structValue _ _) definition.translate_moved_id

theorem StructType.translate_moved_id : ∀ definition : StructType,
    definition.translate (.moved id) = definition
  | .mk _ _ members => congrArg (StructType.mk _ _) (Scope.translate_moved_id members)

theorem Scope.translate_moved_id : ∀ scope : List (String × Symbol),
    Scope.translate (.moved id) scope = scope
  | [] => rfl
  | (_, symbol) :: scope => by
    rw [Scope.translate, symbol.translate_moved_id, Scope.translate_moved_id scope]
    rfl

end

theorem Table.translate_moved_id (table : Table) : table.translate (.moved id) = table := by
  have hscopes : Scope.translate (.moved id) = id := funext Scope.translate_moved_id
  rw [Table.translate, hscopes, List.map_id]

theorem Program.relabel_moved_id (program : Program) :
    program.relabel (Translation.moved id).relabel = program := by
  have hsymbol : Symbol.translate (.moved id) = id := funext Symbol.translate_moved_id
  refine Program.relabel_fixed ⟨fun _ => rfl, fun o _ => ?_⟩
  rw [Translation.relabel, hsymbol, Option.map_id]
  rfl

/-- Analysis at another time, on a tree with other symbols. -/
def Retracing.moving (origin : Origin → Origin) (label : Option Symbol → Option Symbol)
    (h : label none = none) : Retracing where
  toTranslation := .moved origin
  label := label
  injective := Function.injective_id
  shown_name _ := rfl
  label_none := h

/-- What two analyses come to that differ in the origins of symbols only. -/
structure Analysis.Moved (origin : Origin → Origin) (first second : Analysis) : Prop where
  program : second.program = first.program.relabel (Translation.moved origin).relabel
  table : second.table = first.table.translate (.moved origin)

/-- The second analysis is given what the first one came to, with its symbols or without. -/
theorem Program.analyzeWith_moved {program : Program} (hu : Unresolved program.occurrences)
    {origin : Origin → Origin} {clock clock' : Nat}
    (ho : ∀ index < program.decls.length,
      (Translation.moved origin).Moves (.top (clock + index)) (.top (clock' + index)))
    {table : Table} (ht : table.translate (.moved origin) = table)
    (label : Option Symbol → Option Symbol) (hl : label none = none) :
    (program.analyzeWith table clock).Moved origin
      (((program.analyzeWith table clock).program.relabel ⟨id, label⟩).analyzeWith table
        clock') := by
  let t := Retracing.moving origin label hl
  have htold : t.told = .moved id := rfl
  have hstart : table.translate t.told = table.translate t.toTranslation := by
    rw [htold, Table.translate_moved_id]
    exact ht.symm
  have hmoved := Program.analyzeWith_retraces (t := t) hu ho hstart
  have hgiven : (program.analyzeWith table clock).program.given t =
      (program.analyzeWith table clock).program.relabel ⟨id, label⟩ := Program.rename_id _
  rw [hgiven] at hmoved
  refine ⟨?_, ?_⟩
  · have hprogram := hmoved.program
    rw [Retracing.after, htold, Program.relabel_moved_id] at hprogram
    exact hprogram.trans (Program.rename_id _)
  · have htable := hmoved.table
    rwa [htold, Table.translate_moved_id] at htable

/-- A tree without symbols, at two times. -/
theorem Program.analyzeWith_bare {program : Program} (hu : Unresolved program.occurrences)
    {origin : Origin → Origin} {clock clock' : Nat}
    (ho : ∀ index < program.decls.length,
      (Translation.moved origin).Moves (.top (clock + index)) (.top (clock' + index)))
    {table : Table} (ht : table.translate (.moved origin) = table) :
    (program.analyzeWith table clock).Moved origin (program.analyzeWith table clock') := by
  have hmoved := Program.analyzeWith_moved hu ho ht (fun _ => none) rfl
  have hfixed : Relabel.forget.Fixes program.occurrences :=
    Relabel.fixes_of_unresolved (fun _ => rfl) rfl hu
  have hbare : (program.analyzeWith table clock).program.relabel ⟨id, fun _ => none⟩ = program :=
    (Program.analyzeWith_forget program table clock).trans (Program.relabel_fixed hfixed)
  rwa [hbare] at hmoved

/-- The second time with the symbols of the first. -/
theorem Program.analyzeWith_again {program : Program} (hu : Unresolved program.occurrences)
    {origin : Origin → Origin} {clock clock' : Nat}
    (ho : ∀ index < program.decls.length,
      (Translation.moved origin).Moves (.top (clock + index)) (.top (clock' + index)))
    {table : Table} (ht : table.translate (.moved origin) = table) :
    (program.analyzeWith table clock).Moved origin
      ((program.analyzeWith table clock).program.analyzeWith table clock') := by
  have hmoved := Program.analyzeWith_moved hu ho ht id rfl
  have hkept (p : Program) : p.relabel ⟨id, id⟩ = p :=
    Program.relabel_fixed ⟨fun _ => rfl, fun _ _ => rfl⟩
  rwa [hkept] at hmoved

/-! ## What is seen of the symbols -/

section Seen

variable (origin : Origin → Origin)

theorem Symbol.typeName_moved (symbol : Symbol) :
    (symbol.translate (.moved origin)).typeName = symbol.typeName := by
  cases symbol with
  | structType definition => cases definition; rfl
  | _ => rfl

theorem Symbol.text_moved (symbol : Symbol) :
    (symbol.translate (.moved origin)).text = symbol.text := by
  cases symbol with
  | function _ returns params =>
    show ",".intercalate (params.map id) ++ "->" ++ returns = _
    rw [List.map_id]
    rfl
  | structType definition => cases definition; rfl
  | _ => rfl

theorem Scope.text_moved (scope : Scope) :
    Scope.text (Scope.translate (.moved origin) scope) = scope.text := by
  have hentries (line : String × Symbol → String)
      (hline : ∀ name symbol,
        line (name, Symbol.translate (.moved origin) symbol) = line (name, symbol)) :
      (Scope.translate (.moved origin) scope).map line = scope.map line := by
    induction scope with
    | nil => rfl
    | cons entry scope ih =>
      rw [Scope.translate, List.map_cons, List.map_cons, ih]
      exact congrArg (· :: scope.map line) (hline entry.1 entry.2)
  rw [Scope.text, Scope.text, hentries]
  exact fun name symbol => congrArg (name ++ ": " ++ ·) (symbol.text_moved origin)

theorem Table.dump_moved (table : Table) : (table.translate (.moved origin)).dump = table.dump := by
  simp [Table.dump, Table.translate, Function.comp_def, Scope.text_moved]

theorem Translation.moved_unseen (annotate : Bool) :
    (Translation.moved origin).relabel.Unseen annotate := by
  have huse (id : Ident) :
      (id.relabel (Translation.moved origin).relabel).use annotate = id.use annotate := by
    obtain ⟨name, loc, symbol⟩ := id
    cases annotate <;> cases symbol <;>
      simp [Ident.use, Ident.relabel, Translation.relabel, Symbol.typeName_moved]
  refine ⟨fun _ _ => Option.isSome_map, huse, fun id => ?_⟩
  have hid := huse id
  obtain ⟨name, loc, symbol⟩ := id
  cases annotate with
  | false => exact hid
  | true =>
    cases symbol with
    | none => exact hid
    | some symbol =>
      cases symbol with
      | function own returns params =>
        have htext := (Symbol.function own returns params).text_moved origin
        exact congrArg₂ (fun use text : String => use ++ "(" ++ text ++ ")") hid htext
      | _ => exact hid

end Seen

/-! ## Whose symbols are on a tree -/

/-- The number of the declaration at top level that an origin leads into. -/
def Origin.index? (origin : Origin) : Option Nat :=
  origin.steps.getLast?.map Prod.snd

/-- The same way through a program that was analysed so much later. -/
def Origin.later (offset : Nat) (origin : Origin) : Origin :=
  ⟨origin.depth, origin.steps.modifyLast fun (part, index) => (part, index + offset)⟩

theorem Origin.index?_later (offset : Nat) (origin : Origin) :
    (origin.later offset).index? = origin.index?.map (· + offset) := by
  obtain ⟨depth, steps⟩ := origin
  rcases List.eq_nil_or_concat steps with rfl | ⟨inner, last, rfl⟩
  · rfl
  · simp [Origin.later, Origin.index?, List.modifyLast_concat]

theorem Origin.later_injective (offset : Nat) : (Origin.later offset).Injective := by
  let earlier (origin : Origin) : Origin :=
    ⟨origin.depth, origin.steps.modifyLast fun (part, index) => (part, index - offset)⟩
  have hback : Function.LeftInverse earlier (Origin.later offset) := by
    rintro ⟨depth, steps⟩
    rcases List.eq_nil_or_concat steps with rfl | ⟨inner, last, rfl⟩
    · rfl
    · simp [earlier, Origin.later, List.modifyLast_concat]
  exact hback.injective

theorem Origin.later_moves (offset index : Nat) :
    (Translation.moved (.later offset)).Moves (.top index) (.top (index + offset)) := by
  intro depth steps
  simp only [Translation.moved, Origin.later, Origin.top, List.modifyLast_concat]

/-- The symbols on the tree come from declarations of the program itself. -/
theorem Program.index_origin {program : Program} (hu : Unresolved program.occurrences)
    (clock : Nat) {o : Occurrence} (ho : o ∈ (program.analyzeWith .new clock).program.occurrences)
    {symbol : Symbol} (hs : o.symbol = some symbol) :
    ∃ index < program.decls.length, symbol.origin.index? = some (clock + index) := by
  classical
  -- Any other origins may be moved elsewhere, and the analysis comes to the same.
  let away (origin : Origin) : Origin :=
    if ∃ index < program.decls.length, origin.index? = some (clock + index) then origin
    else origin.child .decls 0
  have hmoves : ∀ index < program.decls.length,
      (Translation.moved away).Moves (.top (clock + index)) (.top (clock + index)) := by
    intro index hi depth steps
    exact if_pos ⟨index, hi, by simp [Origin.index?, Origin.top]⟩
  have hnew : Table.new.translate (.moved away) = .new := rfl
  have hsame := (Program.analyzeWith_bare hu hmoves hnew).program
  have hoccurrences := congrArg Program.occurrences hsame
  rw [Program.occurrences_relabel] at hoccurrences
  have hlabel : o.relabel (Translation.moved away).relabel = o :=
    List.map_inj_left.1 (hoccurrences.symm.trans (List.map_id _).symm) o ho
  have hsymbol := congrArg Occurrence.symbol hlabel
  rw [Occurrence.symbol_relabel, hs] at hsymbol
  have horigin := congrArg Symbol.origin (Option.some.inj hsymbol)
  rw [Symbol.origin_translate] at horigin
  by_contra hno
  have haway : away symbol.origin = symbol.origin.child .decls 0 := if_neg hno
  have hdepth := congrArg Origin.depth (haway.symm.trans horigin)
  simp [Origin.child] at hdepth

/-! ## Stale symbols -/

theorem Program.unresolved_forget (program : Program) :
    Unresolved (program.relabel .forget).occurrences := by
  intro o ho
  rw [Program.occurrences_relabel] at ho
  obtain ⟨old, -, rfl⟩ := List.mem_map.1 ho
  rw [Occurrence.symbol_relabel, Relabel.forget_symbol]

section Same

variable {p q : Program} (h : p.relabel .forget = q.relabel .forget)
include h

theorem Program.fault_same (table : Table) (clock clock' : Nat) :
    (q.analyzeWith table clock').fault = (p.analyzeWith table clock).fault := by
  rw [q.fault_forget table clock' 0, ← h, ← p.fault_forget table clock 0]

theorem Program.diagnostics_same (table : Table) (clock clock' : Nat) :
    (q.analyzeWith table clock').diagnostics = (p.analyzeWith table clock).diagnostics := by
  rw [q.diagnostics_forget table clock' 0, ← h, ← p.diagnostics_forget table clock 0]

/-- What is declared on the trees at two times differs in the origins of what is new. -/
theorem Program.table_moved {table : Table} {clock clock' : Nat} {origin : Origin → Origin}
    (ho : ∀ index < p.decls.length,
      (Translation.moved origin).Moves (.top (clock + index)) (.top (clock' + index)))
    (ht : table.translate (.moved origin) = table) :
    (q.analyzeWith table clock').table =
      (p.analyzeWith table clock).table.translate (.moved origin) := by
  have hlength : (p.relabel .forget).decls.length = p.decls.length := by
    rw [Program.relabel, Decl.relabelAll_eq_map, List.length_map]
  have hbare := (Program.analyzeWith_bare p.unresolved_forget (hlength ▸ ho) ht).table
  rw [q.table_forget, p.table_forget, ← h]
  exact hbare

end Same

/-- No symbol of an analysis is left after another one that starts when it has ended. -/
theorem Program.no_symbol_left {program : Program} (hu : Unresolved program.occurrences)
    {clock later : Nat} (hlater : clock + program.decls.length ≤ later) {o o' : Occurrence}
    (ho : o ∈ (program.analyzeWith .new clock).program.occurrences)
    (ho' : o' ∈ ((program.analyzeWith .new clock).program.relabel
      (Translation.moved (.later (later - clock))).relabel).occurrences)
    {s s' : Symbol} (hs : o.symbol = some s) (hs' : o'.symbol = some s') : s'.is s = false := by
  rw [Program.occurrences_relabel] at ho'
  obtain ⟨old, hold, rfl⟩ := List.mem_map.1 ho'
  rw [Occurrence.symbol_relabel] at hs'
  obtain ⟨kept, hkept, rfl⟩ := Option.map_eq_some_iff.1 hs'
  obtain ⟨index, hindex, hfrom⟩ := Program.index_origin hu clock ho hs
  obtain ⟨index', -, hfrom'⟩ := Program.index_origin hu clock hold hkept
  have hnew : (kept.translate (.moved (.later (later - clock)))).origin.index? =
      some (clock + index' + (later - clock)) := by
    rw [Symbol.origin_translate]
    exact (Origin.index?_later _ _).trans (by rw [hfrom', Option.map_some])
  have hne : (kept.translate (.moved (.later (later - clock)))).origin ≠ s.origin := by
    intro heq
    rw [heq, hfrom, Option.some.injEq] at hnew
    omega
  simpa [Symbol.is] using hne

/-- Analysis does not depend on the symbols that are on a tree: on trees that are equal without them
it has the same outcome, reports the same, and leaves the same table, where the symbols of one run
stand in the place of those of the other. So a tree that was without symbols can be analysed again.
All is reported, declared and printed as the first time, each node has the symbol of the same
declaration as it had, and none has its old symbol. -/
theorem analysis_afresh :
    (∀ p q : Program, p.relabel .forget = q.relabel .forget → ∀ table clock clock',
      let first := p.analyzeWith table clock
      let second := q.analyzeWith table clock'
      second.fault = first.fault ∧ second.diagnostics = first.diagnostics ∧
        ∀ origin : Origin → Origin, table.translate (.moved origin) = table →
          (∀ index < p.decls.length,
            (Translation.moved origin).Moves (.top (clock + index)) (.top (clock' + index))) →
          second.table = first.table.translate (.moved origin)) ∧
      ∀ program : Program, program.WellFormed → Unresolved program.occurrences →
        ∀ clock later, clock + program.decls.length ≤ later →
        let first := program.analyzeWith .new clock
        let second := first.program.analyzeWith .new later
        first.fault = none ∧ second.fault = none ∧ second.diagnostics = first.diagnostics ∧
          second.table.dump = first.table.dump ∧
          second.program.print true = first.program.print true ∧
          second.program =
            first.program.relabel (Translation.moved (.later (later - clock))).relabel ∧
          (Origin.later (later - clock)).Injective ∧
          ∀ o ∈ first.program.occurrences, ∀ o' ∈ second.program.occurrences,
            ∀ s ∈ o.symbol, ∀ s' ∈ o'.symbol, s'.is s = false := by
  refine ⟨fun p q h table clock clock' => ?_, fun program h hu clock later hlater => ?_⟩
  · exact ⟨Program.fault_same h table clock clock', Program.diagnostics_same h table clock clock',
      fun origin ht ho => Program.table_moved h ho ht⟩
  · intro first second
    have hsame : program.relabel .forget = first.program.relabel .forget :=
      (Program.analyzeWith_forget program .new clock).symm
    have hmoves : ∀ index < program.decls.length,
        (Translation.moved (.later (later - clock))).Moves (.top (clock + index))
          (.top (later + index)) := by
      intro index _
      have hmove := Origin.later_moves (later - clock) (clock + index)
      rwa [show clock + index + (later - clock) = later + index by omega] at hmove
    have hagain : first.Moved (.later (later - clock)) second :=
      Program.analyzeWith_again hu hmoves rfl
    obtain ⟨_, _, _, -, hglobal⟩ := Program.analyzeWith_global h clock []
    have hfault : first.fault = none := congrArg Analysis.fault hglobal
    refine ⟨hfault, (Program.fault_same hsame .new clock later).trans hfault,
      Program.diagnostics_same hsame .new clock later, ?_, ?_, hagain.program,
      Origin.later_injective _, ?_⟩
    · rw [hagain.table, Table.dump_moved]
    · rw [hagain.program, Program.print_unseen (Translation.moved_unseen _ true)]
    · intro o ho o' ho' s hs s' hs'
      rw [hagain.program] at ho'
      exact Program.no_symbol_left hu hlater ho ho' hs hs'

/-- `int f(int n) { return f(n); } struct T t;`, with this symbol on the tag. -/
def untyped (symbol : Option Symbol) : Program :=
  ⟨[.function (.primitive "int") ⟨"f", some ⟨1, 5⟩, none⟩
      [.formal (.primitive "int") ⟨"n", some ⟨1, 11⟩, none⟩] []
      [.returnValue (.call ⟨"f", some ⟨1, 23⟩, none⟩ [.name ⟨"n", some ⟨1, 25⟩, none⟩])],
    .var (.struct ⟨"T", some ⟨1, 38⟩, symbol⟩) ⟨"t", some ⟨1, 40⟩, none⟩]⟩

/-- A symbol on the tag does not make it known, and a second analysis prints what the first one
does. -/
theorem analysis_afresh_untyped :
    ((untyped (some (.value (.top 0) "int"))).analyzeWith .new 5).diagnostics =
        [⟨⟨1, 38⟩, .unknownStruct⟩] ∧
      ((untyped none).analyze.program.analyzeWith .new 2).program.print true =
        .ok "int f(int n) \x7b\n    return f(int)(int->int)(n(int));\n\x7d\n\nstruct T t;\n" := by
  have h : (untyped none).WellFormed := by
    simp [untyped, Program.WellFormed, Decl.WellFormed, TypeExpr.WellFormed, Stmt.WellFormed,
      Stmt.WellFormedAll, Expr.WellFormed, Expr.WellFormedAll, Decl.IsFormal]
  have hu : Unresolved (untyped none).occurrences := by
    simp [untyped, Program.occurrences, Decl.occurrencesAll, Decl.occurrences,
      TypeExpr.occurrences, Stmt.occurrencesAll, Stmt.occurrences, Expr.occurrences,
      Expr.occurrencesAll, Occurrence.symbol]
  obtain ⟨hunread, hagain⟩ := analysis_afresh
  obtain ⟨-, -, -, -, hprint, -⟩ := hagain (untyped none) h hu 0 2 (by decide)
  exact ⟨(hunread (untyped none) _ rfl .new 0 5).2.1.trans (by decide +kernel),
    hprint.trans rfl⟩

end Moo
