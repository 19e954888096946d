import Moo.Proofs.Names.Isolation
import Moo.Session

/-!
# A program in pieces

A program can be analysed at once or in consecutive pieces, one call after the
other on the same table. All that a declaration sees of those in front of it
is the global scope, and it gets the same number in both, so nothing differs.

* `Program.analyzeWith_append`: analysis of two parts, the second of them on
  the table that the first one left. It needs the global scope to be the only
  one again in between, which is what each call checks.
* `Session.analyzeEach_join`: any number of parts, by induction.
* `Session.pieces_whole`: what the calls come to, compared with one call.
-/
namespace Moo

open Walk

/-! ## Two parts -/

/-- What two analyses come to, the second of which went on where the first one ended. -/
def Analysis.andThen (first second : Analysis) : Analysis :=
  ⟨⟨first.program.decls ++ second.program.decls⟩, second.table, first.events ++ second.events,
    second.fault⟩

theorem Program.analyzeWith_append {before after : Program} (hb : before.WellFormed)
    (ha : after.WellFormed) (clock : Nat) (global : Scope) :
    ∃ mid, (before.analyzeWith ⟨[global]⟩ clock).table = ⟨[mid]⟩ ∧
      (before.analyzeWith ⟨[global]⟩ clock).fault = none ∧
      (Program.mk (before.decls ++ after.decls)).analyzeWith ⟨[global]⟩ clock =
        (before.analyzeWith ⟨[global]⟩ clock).andThen
          (after.analyzeWith ⟨[mid]⟩ (clock + before.decls.length)) := by
  obtain ⟨firsts, mid, new, hfirst, hbefore⟩ := Program.analyzeWith_global hb clock global
  obtain ⟨others, last, more, hother, hafter⟩ :=
    Program.analyzeWith_global ha (clock + before.decls.length) mid
  have hrun : Decl.analyzeAll clock (before.decls ++ after.decls) ⟨⟨[global]⟩, [], none⟩ =
      (firsts ++ others, ⟨⟨[last]⟩, more ++ (new ++ []), none⟩) := by
    rw [Decl.analyzeAll_append, bind_run (hfirst []), bind_run (hother _)]
    rfl
  refine ⟨mid, by rw [hbefore], by rw [hbefore], ?_⟩
  rw [hbefore, hafter]
  simp only [Program.analyzeWith, hrun, Analysis.andThen, List.append_nil, List.reverse_append]
  rfl

/-! ## Any number of parts -/

/-- The analyses of some parts, and the analysis of all of them together. -/
structure Analysis.Join (parts : List Analysis) (whole : Analysis) : Prop where
  sound : ∀ part ∈ parts, part.fault = none
  fault : whole.fault = none
  decls : parts.flatMap (·.program.decls) = whole.program.decls
  events : parts.flatMap Analysis.events = whole.events

theorem Analysis.Join.cons {first second : Analysis} {parts : List Analysis}
    (hf : first.fault = none) (h : Join parts second) :
    Join (first :: parts) (first.andThen second) where
  sound := List.forall_mem_cons.2 ⟨hf, h.sound⟩
  fault := h.fault
  decls := by simp [andThen, h.decls]
  events := by simp [andThen, h.events]

/-- The diagnostics of the parts stand one after the other. -/
theorem Analysis.Join.diagnostics {parts : List Analysis} {whole : Analysis}
    (h : Join parts whole) : parts.flatMap Analysis.diagnostics = whole.diagnostics := by
  rw [Analysis.diagnostics, ← h.events, List.filterMap_flatMap]
  rfl

namespace Session

/-- Loads and analyses some programs, one after the other. -/
def analyzeEach (session : Session) : List Program → List Analysis × Session
  | [] => ([], session)
  | piece :: pieces =>
    let first := (session.load piece).analyze
    let others := first.2.analyzeEach pieces
    (first.1 :: others.1, others.2)

/-- The first calls do not depend on those that come later. -/
theorem analyzeEach_take (session : Session) (pieces : List Program) (count : Nat) :
    (session.analyzeEach (pieces.take count)).1 = (session.analyzeEach pieces).1.take count := by
  induction pieces generalizing session count with
  | nil => simp [analyzeEach]
  | cons piece pieces ih =>
    cases count with
    | zero => rfl
    | succ count => simp [analyzeEach, ih]

theorem analyzeEach_length (session : Session) (pieces : List Program) :
    (session.analyzeEach pieces).1.length = pieces.length := by
  induction pieces generalizing session with
  | nil => rfl
  | cons piece pieces ih => simp [analyzeEach, ih]

/-- A session keeps what each of the calls reports. -/
theorem analyzeEach_diagnostics (session : Session) (pieces : List Program) :
    (session.analyzeEach pieces).2.diagnostics =
      session.diagnostics ++ (session.analyzeEach pieces).1.flatMap Analysis.diagnostics := by
  induction pieces generalizing session with
  | nil => simp [analyzeEach]
  | cons piece pieces ih => simp [analyzeEach, ih, analyze, load]

theorem analyzeEach_join {session : Session} {global : Scope} (ht : session.table = ⟨[global]⟩)
    {pieces : List Program} (h : ∀ piece ∈ pieces, piece.WellFormed) :
    Analysis.Join (session.analyzeEach pieces).1
        (session.load ⟨pieces.flatMap Program.decls⟩).analyze.1 ∧
      (session.analyzeEach pieces).2.table =
        (session.load ⟨pieces.flatMap Program.decls⟩).analyze.1.table := by
  induction pieces generalizing session global with
  | nil =>
    simp only [analyzeEach, analyze, load, ht, List.flatMap_nil, Program.analyzeWith,
      Decl.analyzeAll]
    exact ⟨⟨by simp, rfl, rfl, rfl⟩, rfl⟩
  | cons piece pieces ih =>
    obtain ⟨hp, hps⟩ := List.forall_mem_cons.1 h
    have hrest : (Program.mk (pieces.flatMap Program.decls)).WellFormed := by
      intro decl hm
      obtain ⟨other, ho, hd⟩ := List.mem_flatMap.1 hm
      exact hps other ho decl hd
    obtain ⟨mid, hmid, hfault, hboth⟩ :=
      Program.analyzeWith_append hp hrest session.clock global
    rw [← ht] at hmid hfault hboth
    have htable : (session.load piece).analyze.2.table = ⟨[mid]⟩ := hmid
    obtain ⟨hjoin, hlast⟩ := ih htable hps
    -- the rest is analysed in the session that the first call leaves
    have hwhole : (session.load ⟨(piece :: pieces).flatMap Program.decls⟩).analyze.1 =
        (session.load piece).analyze.1.andThen
          ((session.load piece).analyze.2.load ⟨pieces.flatMap Program.decls⟩).analyze.1 := by
      rw [List.flatMap_cons]
      refine hboth.trans ?_
      rw [← hmid]
      rfl
    rw [hwhole]
    exact ⟨hjoin.cons hfault, hlast⟩

/-- A well-formed program that is split in consecutive pieces is analysed one piece after the other
as it is at once. No call fails, the calls together report the same, leave the same table and find
the same symbols. Each result holds what its own piece adds to the reports: the results of the first
pieces hold what analysis of these pieces at once reports. -/
theorem pieces_whole (session : Session) (program : Program) (h : program.WellFormed)
    (pieces : List Program) (hsplit : pieces.flatMap Program.decls = program.decls) :
    let each := session.restart.analyzeEach pieces
    let whole := (session.restart.load program).analyze
    (each.1.length = pieces.length ∧ ∀ part ∈ each.1, part.fault = none) ∧
      whole.1.fault = none ∧
      each.2.diagnostics = whole.2.diagnostics ∧
      each.2.table = whole.2.table ∧
      each.1.flatMap (·.program.decls) = whole.1.program.decls ∧
      each.1.flatMap Analysis.diagnostics = whole.1.diagnostics ∧
      ∀ count, (each.1.take count).flatMap Analysis.diagnostics =
        (session.restart.load
          ⟨(pieces.take count).flatMap Program.decls⟩).analyze.1.diagnostics := by
  have hpieces : ∀ piece ∈ pieces, piece.WellFormed := by
    intro piece hm decl hd
    exact h decl (hsplit ▸ List.mem_flatMap.2 ⟨piece, hm, hd⟩)
  obtain rfl : program = ⟨pieces.flatMap Program.decls⟩ := by rw [hsplit]
  have hnew : session.restart.table = ⟨[[]]⟩ := rfl
  obtain ⟨hjoin, htable⟩ := analyzeEach_join hnew hpieces
  refine ⟨⟨analyzeEach_length _ _, hjoin.sound⟩, hjoin.fault, ?_, htable, hjoin.decls,
    hjoin.diagnostics, fun count => ?_⟩
  · rw [analyzeEach_diagnostics, hjoin.diagnostics]
    rfl
  · rw [← analyzeEach_take]
    refine (analyzeEach_join rfl fun piece hm => ?_).1.diagnostics
    exact hpieces piece (List.mem_of_mem_take hm)

/-- `int x; int x;`, then `struct S { int a; };`, then `void v; struct S s; void f() { s.b = x; }`,
each on a line of its own. -/
def threePieces : List Program :=
  [⟨[.var (.primitive "int") ⟨"x", some ⟨1, 5⟩, none⟩,
      .var (.primitive "int") ⟨"x", some ⟨1, 12⟩, none⟩]⟩,
    ⟨[.struct ⟨"S", some ⟨2, 8⟩, none⟩ [.var (.primitive "int") ⟨"a", some ⟨2, 16⟩, none⟩]]⟩,
    ⟨[.var (.primitive "void") ⟨"v", some ⟨3, 6⟩, none⟩,
      .var (.struct ⟨"S", some ⟨3, 16⟩, none⟩) ⟨"s", some ⟨3, 18⟩, none⟩,
      .function (.primitive "void") ⟨"f", some ⟨3, 26⟩, none⟩ [] []
        [.assign (.assign (.dot (.name ⟨"s", some ⟨3, 32⟩, none⟩) ⟨"b", some ⟨3, 34⟩, none⟩ none)
          (.name ⟨"x", some ⟨3, 38⟩, none⟩))]]⟩]

/-- The third piece uses a struct type and a variable of the pieces in front of it. -/
theorem pieces_whole_three :
    (Program.mk (threePieces.flatMap Program.decls)).WellFormed ∧
      (start.analyzeEach threePieces).1.map Analysis.diagnostics =
        [[⟨⟨1, 12⟩, .redeclared⟩], [], [⟨⟨3, 6⟩, .voidVariable⟩, ⟨⟨3, 34⟩, .unknownField⟩]] ∧
      (start.load ⟨threePieces.flatMap Program.decls⟩).analyze.1.diagnostics =
        [⟨⟨1, 12⟩, .redeclared⟩, ⟨⟨3, 6⟩, .voidVariable⟩, ⟨⟨3, 34⟩, .unknownField⟩] := by
  have h : (Program.mk (threePieces.flatMap Program.decls)).WellFormed := by
    simp [threePieces, Program.WellFormed, Decl.WellFormed, TypeExpr.WellFormed, Stmt.WellFormed,
      Stmt.WellFormedAll, Expr.WellFormed, Decl.IsVariable]
  obtain ⟨-, -, -, -, -, hslices, -⟩ := pieces_whole start _ h threePieces rfl
  have heach : (start.analyzeEach threePieces).1.map Analysis.diagnostics =
      [[⟨⟨1, 12⟩, .redeclared⟩], [], [⟨⟨3, 6⟩, .voidVariable⟩, ⟨⟨3, 34⟩, .unknownField⟩]] := by
    decide +kernel
  refine ⟨h, heach, ?_⟩
  calc (start.load ⟨threePieces.flatMap Program.decls⟩).analyze.1.diagnostics
      = (start.analyzeEach threePieces).1.flatMap Analysis.diagnostics := hslices.symm
    _ = ((start.analyzeEach threePieces).1.map Analysis.diagnostics).flatten :=
        List.flatMap_def
    _ = _ := by rw [heach]; rfl

end Session

end Moo
