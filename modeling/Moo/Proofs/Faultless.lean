import Moo.Proofs.Names.Accounts
import Moo.Proofs.Reading.Placement

/-!
# What was read goes through

Analysis and printing give up on a tree that holds something where it does
not belong. The tree of a text holds nothing of the kind: it can be analysed,
which leaves only the global scope open, and it can be printed before and
after, with types and without.

* `Program.Shaped.print_ok`: a program of the shape that the language gives
  it can be printed.
* `parse_faultless`: the statement for programs that were read.
-/
namespace Moo

/-! ## Printing -/

theorem TypeExpr.WellFormed.print_ok {type : TypeExpr} (h : type.WellFormed) :
    ∃ text, type.print = .ok text := by
  cases type with
  | stray => exact h.elim
  | _ => exact ⟨_, rfl⟩

variable (annotate : Bool)

mutual

theorem Expr.WellFormed.print_ok : {expr : Expr} → expr.WellFormed →
    ∃ text, expr.print annotate = .ok text
  | .int .., _ | .str .., _ | .bool .., _ | .name _, _ => ⟨_, rfl⟩
  | .dot object field symbol, h => by
    have hobject : object.WellFormed := h
    obtain ⟨_, ho⟩ := hobject.print_ok
    exact ⟨_, by rw [Expr.print, ho]; rfl⟩
  | .assign target value, ⟨ht, hv⟩ => by
    obtain ⟨_, ht⟩ := ht.print_ok
    obtain ⟨_, hv⟩ := hv.print_ok
    exact ⟨_, by rw [Expr.print, ht, hv]; rfl⟩
  | .call callee args, h => by
    obtain ⟨_, ha⟩ := Expr.WellFormedAll.print_ok h
    exact ⟨_, by rw [Expr.print, ha]; rfl⟩
  | .unary op operand, h => by
    have hoperand : operand.WellFormed := h
    obtain ⟨_, ho⟩ := hoperand.print_ok
    exact ⟨_, by rw [Expr.print, ho]; rfl⟩
  | .binary op left right, ⟨hl, hr⟩ => by
    obtain ⟨_, hl⟩ := hl.print_ok
    obtain ⟨_, hr⟩ := hr.print_ok
    exact ⟨_, by rw [Expr.print, hl, hr]; rfl⟩

theorem Expr.WellFormedAll.print_ok : {exprs : List Expr} → Expr.WellFormedAll exprs →
    ∃ texts, Expr.printAll annotate exprs = .ok texts
  | [], _ => ⟨_, rfl⟩
  | _ :: _, ⟨he, hes⟩ => by
    obtain ⟨_, he⟩ := he.print_ok
    obtain ⟨_, hes⟩ := Expr.WellFormedAll.print_ok hes
    exact ⟨_, by rw [Expr.printAll, he, hes]; rfl⟩

end

theorem Decl.IsFormal.print_ok {formal : Decl} (h : formal.IsFormal) :
    ∃ text, formal.printFormal = .ok text := by
  cases formal with
  | formal type id =>
    obtain ⟨_, ht⟩ := TypeExpr.WellFormed.print_ok h
    exact ⟨_, by rw [Decl.printFormal, ht]; rfl⟩
  | _ => exact h.elim

theorem formals_print_ok {formals : List Decl} (h : ∀ formal ∈ formals, formal.IsFormal) :
    ∃ texts, formals.mapM Decl.printFormal = .ok texts := by
  induction formals with
  | nil => exact ⟨_, rfl⟩
  | cons formal formals ih =>
    obtain ⟨hf, hfs⟩ := List.forall_mem_cons.1 h
    obtain ⟨_, hf⟩ := hf.print_ok
    obtain ⟨_, hfs⟩ := ih hfs
    exact ⟨_, by rw [List.mapM_cons, hf, hfs]; rfl⟩

theorem variables_print_ok {decls : List Decl} (indent : Nat)
    (h : ∀ decl ∈ decls, decl.IsVariable) :
    ∃ lines, Decl.linesAll annotate indent decls = .ok lines := by
  induction decls with
  | nil => exact ⟨_, rfl⟩
  | cons decl decls ih =>
    obtain ⟨hd, hds⟩ := List.forall_mem_cons.1 h
    obtain ⟨_, hds⟩ := ih hds
    cases decl with
    | var type id =>
      obtain ⟨_, ht⟩ := TypeExpr.WellFormed.print_ok hd
      exact ⟨_, by rw [Decl.linesAll, Decl.lines, ht, hds]; rfl⟩
    | _ => exact hd.elim

mutual

theorem Stmt.Shaped.print_ok (indent : Nat) : {stmt : Stmt} → stmt.Shaped →
    ∃ lines, stmt.lines annotate indent = .ok lines
  | .assign (.assign target value), ⟨ht, hv⟩ => by
    obtain ⟨_, ht⟩ := ht.wellFormed.print_ok annotate
    obtain ⟨_, hv⟩ := hv.wellFormed.print_ok annotate
    exact ⟨_, by rw [Stmt.lines, Expr.printAssignment, ht, hv]; rfl⟩
  | .increment target, h | .decrement target, h | .read target, h => by
    obtain ⟨_, ht⟩ := (Expr.IsChain.wellFormed h).print_ok annotate
    exact ⟨_, by rw [Stmt.lines, ht]; rfl⟩
  | .write value, h | .returnValue value, h => by
    obtain ⟨_, hv⟩ := (Expr.Shaped.wellFormed h).print_ok annotate
    exact ⟨_, by rw [Stmt.lines, hv]; rfl⟩
  | .ifThen condition decls stmts, ⟨hc, hd, hs⟩ | .loop condition decls stmts, ⟨hc, hd, hs⟩ => by
    obtain ⟨_, hc⟩ := hc.wellFormed.print_ok annotate
    obtain ⟨_, hd⟩ := variables_print_ok annotate (indent + indentStep) hd
    obtain ⟨_, hs⟩ := Stmt.ShapedAll.print_ok (indent + indentStep) hs
    exact ⟨_, by rw [Stmt.lines, hc, hd, hs]; rfl⟩
  | .ifElse condition thenDecls thenStmts elseDecls elseStmts, ⟨hc, ⟨htd, hts⟩, hed, hes⟩ => by
    obtain ⟨_, hc⟩ := hc.wellFormed.print_ok annotate
    obtain ⟨_, htd⟩ := variables_print_ok annotate (indent + indentStep) htd
    obtain ⟨_, hts⟩ := Stmt.ShapedAll.print_ok (indent + indentStep) hts
    obtain ⟨_, hed⟩ := variables_print_ok annotate (indent + indentStep) hed
    obtain ⟨_, hes⟩ := Stmt.ShapedAll.print_ok (indent + indentStep) hes
    exact ⟨_, by rw [Stmt.lines, hc, htd, hts, hed, hes]; rfl⟩
  | .call (.call callee args), h => by
    obtain ⟨_, ha⟩ := (Expr.ShapedAll.wellFormed h).print_ok annotate
    exact ⟨_, by rw [Stmt.lines, Expr.print, ha]; rfl⟩
  | .returnNothing, _ => ⟨_, rfl⟩

theorem Stmt.ShapedAll.print_ok (indent : Nat) : {stmts : List Stmt} → Stmt.ShapedAll stmts →
    ∃ lines, Stmt.linesAll annotate indent stmts = .ok lines
  | [], _ => ⟨_, rfl⟩
  | _ :: _, ⟨hs, hss⟩ => by
    obtain ⟨_, hs⟩ := hs.print_ok indent
    obtain ⟨_, hss⟩ := Stmt.ShapedAll.print_ok indent hss
    exact ⟨_, by rw [Stmt.linesAll, hs, hss]; rfl⟩

end

theorem Decl.Shaped.print_ok {decl : Decl} (indent : Nat) (h : decl.Shaped) :
    ∃ lines, decl.lines annotate indent = .ok lines := by
  cases decl with
  | var type id =>
    obtain ⟨_, ht⟩ := TypeExpr.WellFormed.print_ok h
    exact ⟨_, by rw [Decl.lines, ht]; rfl⟩
  | function returns id formals decls stmts =>
    obtain ⟨hr, hf, hd, hs⟩ := h
    obtain ⟨_, hr⟩ := hr.print_ok
    obtain ⟨_, hf⟩ := formals_print_ok hf
    obtain ⟨_, hd⟩ := variables_print_ok annotate (indent + indentStep) hd
    obtain ⟨_, hs⟩ := hs.print_ok annotate (indent + indentStep)
    exact ⟨_, by rw [Decl.lines, hf, hr, hd, hs]; rfl⟩
  | struct tag fields =>
    obtain ⟨_, hf⟩ := variables_print_ok annotate (indent + indentStep) h.2
    exact ⟨_, by rw [Decl.lines, hf]; rfl⟩
  | _ => exact h.elim

theorem Program.Shaped.print_ok {program : Program} (h : program.Shaped) :
    ∃ text, program.print annotate = .ok text := by
  have hlines : ∀ decls : List Decl, (∀ decl ∈ decls, decl.Shaped) →
      ∃ lines, Decl.linesAll annotate 0 decls = .ok lines := by
    intro decls hd
    induction decls with
    | nil => exact ⟨_, rfl⟩
    | cons decl decls ih =>
      obtain ⟨hd, hds⟩ := List.forall_mem_cons.1 hd
      obtain ⟨_, hd⟩ := hd.print_ok annotate 0
      obtain ⟨_, hds⟩ := ih hds
      exact ⟨_, by rw [Decl.linesAll, hd, hds]; rfl⟩
  obtain ⟨_, hl⟩ := hlines program.decls h
  exact ⟨_, by rw [Program.print, hl]; rfl⟩

/-! ## Programs that were read -/

/-- No number of a program that was read has more digits than can be printed. -/
theorem parse_numbers {source : String} {program : Program} (h : parse source = .ok program)
    {value : Int} {loc : Option Loc} (hv : .int value loc ∈ program.leaves) :
    (toString value).length ≤ maxDigits := by
  obtain ⟨tokens, hleaves, -, hshort, hstands⟩ := parse_leaves h
  rw [← hleaves] at hv
  obtain ⟨token, htoken, hleaf⟩ := List.mem_filterMap.1 hv
  obtain ⟨ht, rfl⟩ := Token.leaf?_int hleaf
  obtain ⟨front, back, hstands⟩ := hstands token htoken
  obtain ⟨n, hn, hdigits⟩ := Token.number_digits (ht ▸ hstands.spelled) ht (hshort token htoken)
  rw [hn]
  exact hdigits

/-- A program that was read is a tree of the shape that the language gives it. Its analysis goes
through and leaves one scope open, and it can be printed before and after that. -/
theorem parse_faultless {source : String} {program : Program} (h : parse source = .ok program) :
    program.Shaped ∧ program.analyze.fault = none ∧ program.analyze.table.depth = 1 ∧
      (∀ value loc, .int value loc ∈ program.leaves → (toString value).length ≤ maxDigits) ∧
      ∀ annotate, (∃ text, program.print annotate = .ok text) ∧
        ∃ text, program.analyze.program.print annotate = .ok text := by
  have hshape := parse_shaped h
  obtain ⟨hfault, -, globals, hscopes, -⟩ :=
    analysis_explained program hshape.wellFormed (parse_written h).1
  have hdepth : program.analyze.table.depth = 1 := by
    rw [Table.depth, hscopes]
    rfl
  exact ⟨hshape, hfault, hdepth, fun _ _ => parse_numbers h,
    fun annotate => ⟨hshape.print_ok annotate, hshape.analyze.print_ok annotate⟩⟩

/-- A program with errors of both passes over names, which can be printed all the same. -/
theorem parse_faultless_misused :
    let source := "struct T s;void f()\x7bs.a=f(-1);\x7d"
    ∃ program, parse source = .ok program ∧
      program.analyze.diagnostics = [⟨⟨1, 8⟩, .unknownStruct⟩, ⟨⟨1, 21⟩, .undeclared⟩,
        ⟨⟨1, 21⟩, .notAStruct⟩] ∧
      program.Shaped ∧ program.analyze.fault = none ∧ program.analyze.table.depth = 1 ∧
      ∀ annotate, (∃ text, program.print annotate = .ok text) ∧
        ∃ text, program.analyze.program.print annotate = .ok text := by
  intro source
  have h : parse source = .ok ⟨[.var (.struct ⟨"T", some ⟨1, 8⟩, none⟩) ⟨"s", some ⟨1, 10⟩, none⟩,
      .function (.primitive "void") ⟨"f", some ⟨1, 17⟩, none⟩ [] []
        [.assign (.assign
          (.dot (.name ⟨"s", some ⟨1, 21⟩, none⟩) ⟨"a", some ⟨1, 23⟩, none⟩ none)
          (.call ⟨"f", some ⟨1, 25⟩, none⟩ [.unary "-" (.int 1 (some ⟨1, 28⟩))]))]]⟩ := by
    cbv
  obtain ⟨hshape, hfault, hdepth, -, hprint⟩ := parse_faultless h
  exact ⟨_, h, by cbv, hshape, hfault, hdepth, hprint⟩

end Moo
