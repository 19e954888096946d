import Mathlib.Logic.Equiv.Basic
import Moo.Proofs.Names.Isolation
import Moo.Proofs.Names.Retrace

/-!
# Names are only compared

Analysis asks of two names whether they are equal and nothing else. Exchange
the names in a program for others, so that different names stay different: it
reports the same, and each name stands for the same declaration as before.

No name is special, not even one that is the name of a type elsewhere: a
struct may be called `int`. Only the signatures of functions, as they are
shown, do not tell a struct from another type of that name, so nothing is said
of them.
-/
namespace Moo

/-- What a symbol is. -/
inductive SymbolKind
  | value | function | structType | structValue
deriving DecidableEq

def Symbol.kind : Symbol → SymbolKind
  | value .. => .value
  | function .. => .function
  | structType _ => .structType
  | structValue .. => .structValue

theorem Symbol.kind_translate (t : Translation) (symbol : Symbol) :
    (symbol.translate t).kind = symbol.kind := by
  cases symbol <;> rfl

/-- Analysis of a tree without symbols, at the same time and under other names. -/
def Retracing.renaming (f : String → String) (hf : f.Injective) : Retracing where
  name := f
  origin := id
  shown _ := ""
  label _ := none
  injective := hf
  shown_name _ := rfl
  label_none := rfl

theorem Program.given_renaming {program : Program} (hu : Unresolved program.occurrences)
    {f : String → String} (hf : f.Injective) (table : Table) (clock : Nat) :
    (program.analyzeWith table clock).program.given (.renaming f hf) = program.rename f := by
  have hinput : (Retracing.renaming f hf).input = .forget := rfl
  have hfixed : Relabel.forget.Fixes program.occurrences :=
    Relabel.fixes_of_unresolved (fun _ => rfl) rfl hu
  rw [Program.given, hinput, Program.analyzeWith_forget, Program.relabel_fixed hfixed]
  rfl

def Use.rename (f : String → String) (use : Use) : Use :=
  { use with name := f use.name }

theorem Occurrence.use_rename (f : String → String) {o : Occurrence}
    (h : ∀ symbol, o ≠ .stray symbol) : (o.rename f).use = o.use.rename f := by
  cases o with
  | stray symbol => exact absurd rfl (h symbol)
  | _ => rfl

theorem Occurrence.symbol_rename (f : String → String) (o : Occurrence) :
    (o.rename f).symbol = o.symbol := by
  cases o <;> rfl

/-- Where origins stay, a translation of the symbols does not change what names stand for. -/
theorem Occurrence.use_translate {d : Translation} (hd : ∀ origin, d.origin origin = origin)
    (o : Occurrence) : (o.relabel d.relabel).use = o.use := by
  have horigin (symbol : Option Symbol) :
      (symbol.map (Symbol.translate d)).map Symbol.origin = symbol.map Symbol.origin := by
    simp [Function.comp_def, hd]
  cases o <;> exact congrArg (Use.mk _ _) (horigin _)

theorem Occurrence.kind_translate (d : Translation) (o : Occurrence) :
    (o.relabel d.relabel).symbol.map Symbol.kind = o.symbol.map Symbol.kind := by
  rw [Occurrence.symbol_relabel]
  simp [Translation.relabel, Function.comp_def, Symbol.kind_translate]

/-- Analysis depends only on which names are equal. It goes through for a program and for the same
one under other names, it reports the same, and a name stands in both for the same declaration and
for a symbol of the same kind, or for none. -/
theorem analysis_renamed (program : Program) (h : program.WellFormed)
    (hu : Unresolved program.occurrences) (f : String → String) (hf : f.Injective) :
    let first := program.analyze
    let second := (program.rename f).analyze
    first.fault = none ∧ second.fault = none ∧ second.diagnostics = first.diagnostics ∧
      usesOf second.program.occurrences = (usesOf first.program.occurrences).map (Use.rename f) ∧
      second.program.occurrences.map (·.symbol.map Symbol.kind) =
        first.program.occurrences.map (·.symbol.map Symbol.kind) := by
  let t := Retracing.renaming f hf
  have hmoves : ∀ index < program.decls.length, t.Moves (.top (0 + index)) (.top (0 + index)) :=
    fun _ _ _ _ => rfl
  have hnew : Table.new.translate t.told = Table.new.translate t.toTranslation := rfl
  have hsame := Program.analyzeWith_retraces hu hmoves hnew
  rw [Program.given_renaming hu hf] at hsame
  have hoccurrences := congrArg Program.occurrences hsame.program
  rw [Program.occurrences_relabel, Program.occurrences_rename, Program.occurrences_relabel,
    List.map_map] at hoccurrences
  obtain ⟨_, _, _, -, hfirst⟩ := Program.analyzeWith_global h 0 []
  have hfault : program.analyze.fault = none := congrArg Analysis.fault hfirst
  have hstay : ∀ o : Occurrence, (o.relabel t.toTranslation.relabel).use = o.use :=
    Occurrence.use_translate fun _ => rfl
  have htold : ∀ o : Occurrence, (o.relabel t.told.relabel).use = o.use :=
    Occurrence.use_translate fun _ => rfl
  have huses := congrArg (List.map Occurrence.use) hoccurrences
  have hkinds := congrArg (List.map fun o => o.symbol.map Symbol.kind) hoccurrences
  simp only [List.map_map, Function.comp_def, Occurrence.symbol_rename, Retracing.after,
    Retracing.before, Occurrence.kind_translate, htold] at huses hkinds
  have hwell : program.analyze.program.WellFormed := by
    rw [← Program.wellFormed_relabel .forget, Program.analyze, Program.analyzeWith_forget,
      Program.wellFormed_relabel]
    exact h
  have hnamed : ∀ o ∈ program.analyze.program.occurrences,
      ((o.relabel t.toTranslation.relabel).rename f).use = o.use.rename f := by
    intro o ho
    rw [Occurrence.use_rename, hstay]
    intro symbol hs
    cases o with
    | stray old => exact hwell.named old ho
    | _ => cases hs
  refine ⟨hfault, ?_, hsame.diagnostics, ?_, hkinds⟩
  · have hsome : (program.rename f).analyze.fault.isSome = program.analyze.fault.isSome :=
      hsame.fault
    rw [hfault] at hsome
    simpa using hsome
  · rw [usesOf, usesOf, List.map_map]
    exact huses.trans (List.map_congr_left hnamed)

/-- `struct S { int a; }; struct S s; int f(int s) { S.a = s; s = t; }`. -/
def plainNames : Program :=
  ⟨[.struct ⟨"S", some ⟨1, 8⟩, none⟩ [.var (.primitive "int") ⟨"a", some ⟨1, 16⟩, none⟩],
    .var (.struct ⟨"S", some ⟨1, 29⟩, none⟩) ⟨"s", some ⟨1, 31⟩, none⟩,
    .function (.primitive "int") ⟨"f", some ⟨1, 38⟩, none⟩
      [.formal (.primitive "int") ⟨"s", some ⟨1, 44⟩, none⟩] []
      [.assign (.assign (.dot (.name ⟨"S", some ⟨1, 49⟩, none⟩) ⟨"a", some ⟨1, 51⟩, none⟩ none)
          (.name ⟨"s", some ⟨1, 55⟩, none⟩)),
        .assign (.assign (.name ⟨"s", some ⟨1, 58⟩, none⟩) (.name ⟨"t", some ⟨1, 62⟩, none⟩))]]⟩

/-- The struct type is called `int` now, and its member `void`. -/
theorem analysis_renamed_int :
    plainNames.WellFormed ∧ Unresolved plainNames.occurrences ∧
      (plainNames.rename (Equiv.swap "S" "int" * Equiv.swap "a" "void")).analyze.diagnostics =
        [⟨⟨1, 49⟩, .notAStruct⟩, ⟨⟨1, 62⟩, .undeclared⟩] := by
  have h : plainNames.WellFormed := by
    simp [plainNames, Program.WellFormed, Decl.WellFormed, TypeExpr.WellFormed, Stmt.WellFormed,
      Stmt.WellFormedAll, Expr.WellFormed, Decl.IsVariable, Decl.IsFormal]
  have hu : Unresolved plainNames.occurrences := by
    simp [plainNames, Program.occurrences, Decl.occurrencesAll, Decl.occurrences,
      TypeExpr.occurrences, Stmt.occurrencesAll, Stmt.occurrences, Expr.occurrences,
      Occurrence.symbol]
  obtain ⟨-, -, hsame, -⟩ := analysis_renamed plainNames h hu
    (Equiv.swap "S" "int" * Equiv.swap "a" "void") (Equiv.injective _)
  exact ⟨h, hu, hsame.trans (by decide +kernel)⟩

end Moo
