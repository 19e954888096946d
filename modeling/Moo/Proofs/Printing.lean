import Moo.Proofs.Printing.Stmt
import Moo.Proofs.Reading.Placement
import Moo.Proofs.RoundTrip

/-!
# Printed programs are all different

Two accepted programs have the same printed form exactly if they are the
same up to locations. This holds of programs with field accesses too, whose
printed form is not read back.

* `Decl.unique`, `Decl.uniqueAll`: declarations at top level.
* `parse_plain`: what is read has words for names and no symbols.
* `print_unique`: the statement for whole programs.
-/
namespace Moo

open Relabel (unplace)

/-! ## Declarations -/

section Declarations

variable {n : Nat} {rest rest' : List Char}

theorem formals_unique {formals formals' : List Decl} (h : ∀ d ∈ formals, d.LegibleFormal)
    (h' : ∀ d ∈ formals', d.LegibleFormal)
    (heq : betweenCommas Decl.namedChars formals (')' :: rest) =
      betweenCommas Decl.namedChars formals' (')' :: rest')) :
    Decl.relabelAll unplace formals = Decl.relabelAll unplace formals' ∧ rest = rest' := by
  have hhead : ∀ d : Decl, d.LegibleFormal → ∀ rest, (d.namedChars rest).head? ≠ some ')' := by
    intro d hd rest
    match d, hd with
    | .formal type id, hd => exact TypeExpr.head_ne hd.1 _ rfl
  rw [Decl.relabelAll_eq_map, Decl.relabelAll_eq_map]
  refine betweenCommas_unique (fun d hd d' hd' rest rest' hr hr' heq => ?_)
    (fun d hd => hhead d (h d hd)) (fun d hd => hhead d (h' d hd)) heq
  match d, d', h d hd, h' d' hd' with
  | .formal type id, .formal type' id', ⟨ht, hid⟩, ⟨ht', hid'⟩ =>
    obtain ⟨htype, hbehind⟩ := TypeExpr.unique ht ht' heq
    obtain ⟨hname, hrest⟩ := hid.plain.unique hid'.plain hr.parts hr'.parts hbehind
    exact ⟨congrArg₂ Decl.formal htype hname, hrest⟩

theorem Decl.Legible.lead {d : Decl} (h : d.Legible) : d.lead.Legible := by
  match d, h with
  | .var .., h => exact h.1
  | .function .., h => exact h.1
  | .struct .., h => exact h.1

/-- A name is not written like the brace that opens a struct. -/
theorem Ident.Fits.ne_brace {id : Ident} {spot : Spot} (h : id.Fits spot) (text rest : List Char) :
    id.name.toList ++ text ≠ '\x7b' :: rest := by
  obtain ⟨c, more, hw, hs⟩ := h.plain.head
  rw [hw]
  intro heq
  obtain rfl : c = '\x7b' := (List.cons.inj heq).1
  contradiction

theorem Decl.unique_function {returns : TypeExpr} {id : Ident} {formals decls : List Decl}
    {stmts : List Stmt} (h : (Decl.function returns id formals decls stmts).Legible)
    (hp : Plain (Decl.function returns id formals decls stmts).occurrences) {d : Decl}
    (h' : d.Legible) (hp' : Plain d.occurrences)
    (heq : (Decl.function returns id formals decls stmts).chars n rest = d.chars n rest') :
    (Decl.function returns id formals decls stmts).relabel unplace = d.relabel unplace ∧
      rest = rest' := by
  obtain ⟨hlead, hbehind⟩ := Decl.split h.lead h'.lead heq
  have hparen (text : List Char) : Parts ('(' :: text) := parts_cons _ (by decide)
  obtain ⟨-, hid, hfs, hds, hss⟩ := h
  match d, h' with
  | .function returns' id' formals' decls' stmts', ⟨_, hid', hfs', hds', hss'⟩ =>
    simp only [Decl.occurrences, plain_append] at hp hp'
    obtain ⟨hname, hbehind⟩ := hid.plain.unique hid'.plain (hparen _) (hparen _) hbehind
    obtain ⟨hformals, hbehind⟩ := formals_unique hfs hfs' (List.cons.inj hbehind).2
    have hblock : blockChars n decls stmts ('\n' :: '\n' :: rest) =
        blockChars n decls' stmts' ('\n' :: '\n' :: rest') := by
      simpa [blockChars] using hbehind
    obtain ⟨hdecls, hstmts, hrest⟩ :=
      unique_block (Stmt.uniqueAll hss hp.2 _) hds hds' hss hp.2 hss' hp'.2 hblock
    have hreturns : returns.relabel unplace = returns'.relabel unplace := hlead
    exact ⟨by simp [Decl.relabel, hreturns, hname, hformals, hdecls, hstmts], by simpa using hrest⟩
  | .var _ _, ⟨_, hid'⟩ =>
    obtain ⟨-, hbehind⟩ := hid.plain.unique hid'.plain (hparen _) (parts_semicolon _) hbehind
    cases hbehind
  | .struct _ _, _ => exact absurd hbehind (hid.ne_brace _ _)

theorem Decl.unique_struct {tag : Ident} {fields : List Decl} (h : (Decl.struct tag fields).Legible)
    {d : Decl} (h' : d.Legible) (heq : (Decl.struct tag fields).chars n rest = d.chars n rest') :
    (Decl.struct tag fields).relabel unplace = d.relabel unplace ∧ rest = rest' := by
  obtain ⟨hlead, hbehind⟩ := Decl.split h.lead h'.lead heq
  match d, h' with
  | .struct tag' fields', ⟨_, _, hfs'⟩ =>
    have hblock : blockChars n fields [] (';' :: '\n' :: '\n' :: rest) =
        blockChars n fields' [] (';' :: '\n' :: '\n' :: rest') := by
      simpa [Decl.behind, blockChars, Stmt.charsAll] using hbehind
    have hnone : Stmt.LegibleAll .blockStart [] := trivial
    have hplain : Plain (Stmt.occurrencesAll []) := List.forall_mem_nil _
    obtain ⟨hfields, -, hrest⟩ :=
      unique_block (List.forall_mem_nil _) h.2.2 hfs' hnone hplain hnone hplain hblock
    have htag : tag.relabel unplace = tag'.relabel unplace := TypeExpr.struct.inj hlead
    exact ⟨by simp [Decl.relabel, htag, hfields], by simpa using hrest⟩
  | .var _ _, ⟨_, hid'⟩ => exact absurd hbehind.symm (hid'.ne_brace _ _)
  | .function .., ⟨_, hid', _⟩ => exact absurd hbehind.symm (hid'.ne_brace _ _)

/-- Declarations that are written alike are alike, and so is what stands behind them. -/
theorem Decl.unique {d d' : Decl} (h : d.Legible) (hp : Plain d.occurrences) (h' : d'.Legible)
    (hp' : Plain d'.occurrences) (heq : d.chars n rest = d'.chars n rest') :
    d.relabel unplace = d'.relabel unplace ∧ rest = rest' := by
  match d, d' with
  | .function .., _ => exact Decl.unique_function h hp h' hp' heq
  | .struct .., _ => exact Decl.unique_struct h h' heq
  | .var type id, .var type' id' =>
    have hvar : (Decl.var type id).LegibleVar := h
    have hvar' : (Decl.var type' id').LegibleVar := h'
    exact Decl.unique_var hvar hvar' heq
  | .var .., .function .. =>
    obtain ⟨hsame, hrest⟩ := Decl.unique_function h' hp' h hp heq.symm
    exact ⟨hsame.symm, hrest.symm⟩
  | .var .., .struct .. =>
    obtain ⟨hsame, hrest⟩ := Decl.unique_struct h' h heq.symm
    exact ⟨hsame.symm, hrest.symm⟩

theorem Decl.chars_ne_nil (d : Decl) (n : Nat) (rest : List Char) : d.chars n rest ≠ [] := by
  unfold Decl.chars indented
  cases d.lead <;> simp [TypeExpr.chars]

theorem Decl.uniqueAll {ds ds' : List Decl} (h : ∀ d ∈ ds, d.Legible)
    (hp : Plain (Decl.occurrencesAll ds)) (h' : ∀ d ∈ ds', d.Legible)
    (hp' : Plain (Decl.occurrencesAll ds')) (heq : Decl.charsAll n ds [] = Decl.charsAll n ds' []) :
    Decl.relabelAll unplace ds = Decl.relabelAll unplace ds' := by
  induction ds generalizing ds' with
  | nil =>
    cases ds' with
    | nil => rfl
    | cons d' ds' => exact absurd heq.symm (d'.chars_ne_nil n _)
  | cons d ds ih =>
    cases ds' with
    | nil => exact absurd heq (d.chars_ne_nil n _)
    | cons d' ds' =>
      obtain ⟨hd, hds⟩ := List.forall_mem_cons.1 h
      obtain ⟨hd', hds'⟩ := List.forall_mem_cons.1 h'
      obtain ⟨hpd, hpds⟩ := plain_append.1 hp
      obtain ⟨hpd', hpds'⟩ := plain_append.1 hp'
      obtain ⟨hsame, hmore⟩ := Decl.unique hd hpd hd' hpd' heq
      rw [Decl.relabelAll, Decl.relabelAll, hsame, ih hds hpds hds' hpds' hmore]

end Declarations

/-! ## Programs -/

/-- The names of a program that was read are words of its text, and have no symbols yet. -/
theorem parse_plain {source : String} {p : Program} (h : parse source = .ok p) :
    Plain p.occurrences := by
  intro o ho
  obtain ⟨tokens, hleaves, -, -, hstands⟩ := parse_leaves h
  have hleaf := (parse_shaped h).wellFormed.leaf ho
  rw [← hleaves] at hleaf
  obtain ⟨token, htoken, hleaf⟩ := List.mem_filterMap.1 hleaf
  obtain ⟨front, back, hstands⟩ := hstands token htoken
  obtain ⟨hword, hname, -⟩ := hstands.leaf hleaf
  exact ⟨(parse_written h).1 o ho, hname ▸ hword⟩

/-- A program that was read has a printed form. -/
theorem parse_prints {source : String} {p : Program} (h : parse source = .ok p) :
    ∃ text, p.print false = .ok text := by
  obtain ⟨lines, hlines, -⟩ := Decl.printsAll (parse_legible h) 0
  exact ⟨unlines lines, by simp only [Program.print, hlines]; rfl⟩

/-- Accepted programs have printed forms, and two of these are the same exactly if the programs are
the same up to locations. -/
theorem print_unique {source source' : String} {p q : Program} (hp : parse source = .ok p)
    (hq : parse source' = .ok q) :
    ∃ text text', p.print false = .ok text ∧ q.print false = .ok text' ∧
      (text = text' ↔ p.relabel unplace = q.relabel unplace) := by
  obtain ⟨text, htext⟩ := parse_prints hp
  obtain ⟨text', htext'⟩ := parse_prints hq
  refine ⟨text, text', htext, htext', fun hsame => ?_, fun hsame => ?_⟩
  · have hchars : Decl.charsAll 0 p.decls [] = Decl.charsAll 0 q.decls [] := by
      rw [← Program.print_chars htext, ← Program.print_chars htext', hsame]
    exact congrArg Program.mk
      (Decl.uniqueAll (parse_legible hp) (parse_plain hp) (parse_legible hq) (parse_plain hq) hchars)
  · have hprint : p.print false = q.print false := by
      rw [← Program.print_relabel unplace p, hsame, Program.print_relabel]
    exact Except.ok.inj (htext.symm.trans (hprint.trans htext'))

/-- An assignment of a field to a variable `true`, with its words where the locations say. -/
def dottedTruth (name object first second : Loc) : Program :=
  ⟨[.function (.primitive "void") ⟨"f", some ⟨1, 6⟩, none⟩ [] []
    [.assign (.assign (.name ⟨"true", some name, none⟩)
      (.dot (.dot (.name ⟨"s", some object, none⟩) ⟨"x", some first, none⟩ none)
        ⟨"true", some second, none⟩ none))]]⟩

theorem print_unique_dots :
    ∃ p q : Program, parse "void f()\x7btrue=s.x.true;\x7d" = .ok p ∧
      parse "void f()\x7b\n  true = s.x // a comment\n .true;\n\x7d" = .ok q ∧
      p.print false = .ok "void f() \x7b\n    true = ((s).x).true;\n\x7d\n\n" ∧
      p.relabel unplace = q.relabel unplace := by
  have hp : parse "void f()\x7btrue=s.x.true;\x7d" =
      .ok (dottedTruth ⟨1, 10⟩ ⟨1, 15⟩ ⟨1, 17⟩ ⟨1, 19⟩) := by
    cbv
  have hq : parse "void f()\x7b\n  true = s.x // a comment\n .true;\n\x7d" =
      .ok (dottedTruth ⟨2, 3⟩ ⟨2, 10⟩ ⟨2, 12⟩ ⟨3, 3⟩) := by
    cbv
  have hprint (name object first second : Loc) :
      (dottedTruth name object first second).print false =
        .ok "void f() \x7b\n    true = ((s).x).true;\n\x7d\n\n" := rfl
  obtain ⟨text, text', htext, htext', hsame⟩ := print_unique hp hq
  have heq : text = text' :=
    Except.ok.inj (htext.symm.trans ((hprint ..).trans ((hprint ..).symm.trans htext')))
  exact ⟨_, _, hp, hq, hprint .., hsame.1 heq⟩

end Moo
