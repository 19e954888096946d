import Moo.Proofs.Tree.Relabel
import Moo.Tree.Same

/-!
# Equal trees with other symbols

Symbols do not count when trees are compared: whether two trees are the same,
however literals are compared, is not changed by a `Relabel` that leaves all
locations alone. This holds of strayed things as well, which are compared only
with strayed things, and of foreign objects, which are the same as nothing
before and after.

* `Expr.same_relabel`, `Decl.same_relabel`, `Stmt.same_relabel`: the parts of
  a program, both trees taken apart at once.
* `Program.sameBy_relabel`: whole programs.
* `Program.sameBy_of_relabel`: programs that the change makes equal are the
  same as the same programs.
* `Program.relabel_of_same`: programs that are the same, literals included,
  are made equal by any change in which all symbols become one.
-/
namespace Moo

/-- The change leaves all locations alone. -/
structure Relabel.InPlace (r : Relabel) : Prop where
  loc : ∀ loc, r.loc loc = loc

section InPlace

variable {r : Relabel} {literal : LiteralSame}

theorem Ident.same_relabel (h : r.InPlace) (a b : Ident) :
    (a.relabel r).same (b.relabel r) = a.same b := by
  simp only [Ident.same, Ident.relabel, h.loc]

mutual

theorem TypeExpr.same_relabel (h : r.InPlace) : ∀ a b : TypeExpr,
    (a.relabel r).same literal (b.relabel r) = a.same literal b
  | .primitive _, b => by cases b <;> simp [TypeExpr.relabel, TypeExpr.same]
  | .struct _, b => by cases b <;> simp [TypeExpr.relabel, TypeExpr.same, Ident.same_relabel h]
  | .stray thing, b => by cases b <;> simp [TypeExpr.relabel, TypeExpr.same, thing.same_relabel h]

theorem Expr.same_relabel (h : r.InPlace) : ∀ a b : Expr,
    (a.relabel r).same literal (b.relabel r) = a.same literal b
  | .int .., b | .str .., b | .bool .., b => by cases b <;> simp [Expr.relabel, Expr.same, h.loc]
  | .name _, b => by cases b <;> simp [Expr.relabel, Expr.same, Ident.same_relabel h]
  | .dot object _ _, b => by
    cases b <;> simp [Expr.relabel, Expr.same, Ident.same_relabel h, object.same_relabel h]
  | .assign target value, b => by
    cases b <;> simp [Expr.relabel, Expr.same, target.same_relabel h, value.same_relabel h]
  | .call _ args, b => by
    cases b <;> simp [Expr.relabel, Expr.same, Ident.same_relabel h, Expr.sameAll_relabelAll h args]
  | .unary _ operand, b => by cases b <;> simp [Expr.relabel, Expr.same, operand.same_relabel h]
  | .binary _ left right, b => by
    cases b <;> simp [Expr.relabel, Expr.same, left.same_relabel h, right.same_relabel h]
  | .strayDot object field _ _, b => by
    cases b <;> simp [Expr.relabel, Expr.same, object.same_relabel h, field.same_relabel h]
  | .strayCall callee _ args, b => by
    cases b <;>
      simp [Expr.relabel, Expr.same, callee.same_relabel h, Expr.sameAll_relabelAll h args]
  | .stray thing, b => by cases b <;> simp [Expr.relabel, Expr.same, thing.same_relabel h]

theorem Expr.sameAll_relabelAll (h : r.InPlace) : ∀ as bs : List Expr,
    Expr.sameAll literal (Expr.relabelAll r as) (Expr.relabelAll r bs) = Expr.sameAll literal as bs
  | [], bs => by cases bs <;> simp [Expr.relabelAll, Expr.sameAll]
  | a :: as, bs => by
    cases bs <;>
      simp [Expr.relabelAll, Expr.sameAll, a.same_relabel h, Expr.sameAll_relabelAll h as]

theorem Decl.same_relabel (h : r.InPlace) : ∀ a b : Decl,
    (a.relabel r).same literal (b.relabel r) = a.same literal b
  | .var type _, b | .formal type _, b => by
    cases b <;> simp [Decl.relabel, Decl.same, type.same_relabel h, Ident.same_relabel h]
  | .function returns _ formals decls stmts, b => by
    cases b <;>
      simp [Decl.relabel, Decl.same, returns.same_relabel h, Ident.same_relabel h,
        Decl.sameAll_relabelAll h formals, Decl.sameAll_relabelAll h decls,
        Stmt.sameAll_relabelAll h stmts]
  | .struct _ fields, b => by
    cases b <;>
      simp [Decl.relabel, Decl.same, Ident.same_relabel h, Decl.sameAll_relabelAll h fields]
  | .stray thing, b => by cases b <;> simp [Decl.relabel, Decl.same, thing.same_relabel h]

theorem Decl.sameAll_relabelAll (h : r.InPlace) : ∀ as bs : List Decl,
    Decl.sameAll literal (Decl.relabelAll r as) (Decl.relabelAll r bs) = Decl.sameAll literal as bs
  | [], bs => by cases bs <;> simp [Decl.relabelAll, Decl.sameAll]
  | a :: as, bs => by
    cases bs <;>
      simp [Decl.relabelAll, Decl.sameAll, a.same_relabel h, Decl.sameAll_relabelAll h as]

theorem Stmt.same_relabel (h : r.InPlace) : ∀ a b : Stmt,
    (a.relabel r).same literal (b.relabel r) = a.same literal b
  | .assign expr, b | .increment expr, b | .decrement expr, b | .read expr, b | .write expr, b
  | .call expr, b | .returnValue expr, b => by
    cases b <;> simp [Stmt.relabel, Stmt.same, expr.same_relabel h]
  | .ifThen condition decls stmts, b | .loop condition decls stmts, b => by
    cases b <;>
      simp [Stmt.relabel, Stmt.same, condition.same_relabel h, Decl.sameAll_relabelAll h decls,
        Stmt.sameAll_relabelAll h stmts]
  | .ifElse condition thenDecls thenStmts elseDecls elseStmts, b => by
    cases b <;>
      simp [Stmt.relabel, Stmt.same, condition.same_relabel h, Decl.sameAll_relabelAll h thenDecls,
        Stmt.sameAll_relabelAll h thenStmts, Decl.sameAll_relabelAll h elseDecls,
        Stmt.sameAll_relabelAll h elseStmts]
  | .returnNothing, b => by cases b <;> simp [Stmt.relabel, Stmt.same]
  | .stray thing, b => by cases b <;> simp [Stmt.relabel, Stmt.same, thing.same_relabel h]

theorem Stmt.sameAll_relabelAll (h : r.InPlace) : ∀ as bs : List Stmt,
    Stmt.sameAll literal (Stmt.relabelAll r as) (Stmt.relabelAll r bs) = Stmt.sameAll literal as bs
  | [], bs => by cases bs <;> simp [Stmt.relabelAll, Stmt.sameAll]
  | a :: as, bs => by
    cases bs <;>
      simp [Stmt.relabelAll, Stmt.sameAll, a.same_relabel h, Stmt.sameAll_relabelAll h as]

theorem Stray.same_relabel (h : r.InPlace) : ∀ a b : Stray,
    (a.relabel r).same literal (b.relabel r) = a.same literal b
  | .object _, b | .text _, b | .flag _, b | .nothing, b => by
    cases b <;> simp [Stray.relabel, Stray.same]
  | .type t, b => by cases b <;> simp [Stray.relabel, Stray.same, t.same_relabel h]
  | .expr e, b => by cases b <;> simp [Stray.relabel, Stray.same, e.same_relabel h]
  | .decl d, b => by cases b <;> simp [Stray.relabel, Stray.same, d.same_relabel h]
  | .stmt s, b => by cases b <;> simp [Stray.relabel, Stray.same, s.same_relabel h]
  | .body decls stmts, b => by
    cases b <;>
      simp [Stray.relabel, Stray.same, Decl.sameAll_relabelAll h decls,
        Stmt.sameAll_relabelAll h stmts]
  | .program decls, b => by
    cases b <;> simp [Stray.relabel, Stray.same, Decl.sameAll_relabelAll h decls]

end

theorem Program.sameBy_relabel (h : r.InPlace) (a b : Program) :
    (a.relabel r).sameBy literal (b.relabel r) = a.sameBy literal b :=
  Decl.sameAll_relabelAll h a.decls b.decls

/-- Programs that the change makes equal are the same as the same programs, on either side. -/
theorem Program.sameBy_of_relabel (h : r.InPlace) {a b : Program}
    (hab : a.relabel r = b.relabel r) (other : Program) :
    a.sameBy literal other = b.sameBy literal other ∧
      other.sameBy literal a = other.sameBy literal b := by
  constructor
  · rw [← sameBy_relabel h a, hab, sameBy_relabel h b]
  · rw [← sameBy_relabel h other a, hab, sameBy_relabel h other b]

end InPlace

/-! ## Trees that are the same -/

/-- What becomes of a symbol does not depend on it. -/
structure Relabel.Blind (r : Relabel) : Prop where
  symbol : ∀ s t, r.symbol s = r.symbol t

section Blind

variable {r : Relabel}

theorem Ident.relabel_of_same (hr : r.Blind) {a b : Ident} (h : a.same b = true) :
    a.relabel r = b.relabel r := by
  obtain ⟨hname, hloc⟩ : a.name = b.name ∧ a.loc = b.loc := by simpa [Ident.same] using h
  simp only [Ident.relabel, hname, hloc, hr.symbol a.symbol b.symbol]

mutual

theorem TypeExpr.relabel_of_same (hr : r.Blind) : ∀ a b : TypeExpr, a.same .plain b = true →
    a.relabel r = b.relabel r
  | .primitive _, b, h => by
    cases b <;> simp only [TypeExpr.same, Bool.false_eq_true, beq_iff_eq] at h
    rw [h]
  | .struct _, b, h => by
    cases b <;> simp only [TypeExpr.same, Bool.false_eq_true] at h
    simp only [TypeExpr.relabel, Ident.relabel_of_same hr h]
  | .stray thing, b, h => by
    cases b <;> simp only [TypeExpr.same, Bool.false_eq_true] at h
    simp only [TypeExpr.relabel, thing.relabel_of_same hr _ h]

theorem Expr.relabel_of_same (hr : r.Blind) : ∀ a b : Expr, a.same .plain b = true →
    a.relabel r = b.relabel r
  | .int .., b, h | .str .., b, h | .bool .., b, h => by
    cases b <;>
      simp only [Expr.same, LiteralSame.plain, Bool.false_eq_true, Bool.and_eq_true,
        beq_iff_eq] at h
    rw [h.1, h.2]
  | .name _, b, h => by
    cases b <;> simp only [Expr.same, Bool.false_eq_true] at h
    simp only [Expr.relabel, Ident.relabel_of_same hr h]
  | .dot object _ symbol, b, h => by
    cases b <;> simp only [Expr.same, Bool.false_eq_true, Bool.and_eq_true] at h
    simp only [Expr.relabel, object.relabel_of_same hr _ h.1, Ident.relabel_of_same hr h.2,
      hr.symbol symbol none, hr.symbol _ none]
  | .assign target value, b, h => by
    cases b <;> simp only [Expr.same, Bool.false_eq_true, Bool.and_eq_true] at h
    simp only [Expr.relabel, target.relabel_of_same hr _ h.1, value.relabel_of_same hr _ h.2]
  | .call _ args, b, h => by
    cases b <;> simp only [Expr.same, Bool.false_eq_true, Bool.and_eq_true] at h
    simp only [Expr.relabel, Ident.relabel_of_same hr h.1, Expr.relabelAll_of_same hr args _ h.2]
  | .unary _ operand, b, h => by
    cases b <;> simp only [Expr.same, Bool.false_eq_true, Bool.and_eq_true, beq_iff_eq] at h
    simp only [Expr.relabel, h.1, operand.relabel_of_same hr _ h.2]
  | .binary _ left right, b, h => by
    cases b <;> simp only [Expr.same, Bool.false_eq_true, Bool.and_eq_true, beq_iff_eq] at h
    simp only [Expr.relabel, h.1.1, left.relabel_of_same hr _ h.1.2, right.relabel_of_same hr _ h.2]
  | .strayDot object field _ _, b, h => by
    cases b <;> simp only [Expr.same, Bool.false_eq_true, Bool.and_eq_true] at h
    simp only [Expr.relabel, object.relabel_of_same hr _ h.1, field.relabel_of_same hr _ h.2,
      hr.symbol _ none]
  | .strayCall callee _ args, b, h => by
    cases b <;> simp only [Expr.same, Bool.false_eq_true, Bool.and_eq_true] at h
    simp only [Expr.relabel, callee.relabel_of_same hr _ h.1, Expr.relabelAll_of_same hr args _ h.2,
      hr.symbol _ none]
  | .stray thing, b, h => by
    cases b <;> simp only [Expr.same, Bool.false_eq_true] at h
    simp only [Expr.relabel, thing.relabel_of_same hr _ h]

theorem Expr.relabelAll_of_same (hr : r.Blind) : ∀ as bs : List Expr,
    Expr.sameAll .plain as bs = true → Expr.relabelAll r as = Expr.relabelAll r bs
  | [], bs, h => by
    cases bs <;> simp only [Expr.sameAll, Bool.false_eq_true] at h
    rfl
  | a :: as, bs, h => by
    cases bs <;> simp only [Expr.sameAll, Bool.false_eq_true, Bool.and_eq_true] at h
    simp only [Expr.relabelAll, a.relabel_of_same hr _ h.1, Expr.relabelAll_of_same hr as _ h.2]

theorem Decl.relabel_of_same (hr : r.Blind) : ∀ a b : Decl, a.same .plain b = true →
    a.relabel r = b.relabel r
  | .var type _, b, h | .formal type _, b, h => by
    cases b <;> simp only [Decl.same, Bool.false_eq_true, Bool.and_eq_true] at h
    simp only [Decl.relabel, type.relabel_of_same hr _ h.1, Ident.relabel_of_same hr h.2]
  | .function returns _ formals decls stmts, b, h => by
    cases b <;> simp only [Decl.same, Bool.false_eq_true, Bool.and_eq_true, and_assoc] at h
    obtain ⟨hreturns, hid, hformals, hdecls, hstmts⟩ := h
    simp only [Decl.relabel, returns.relabel_of_same hr _ hreturns, Ident.relabel_of_same hr hid,
      Decl.relabelAll_of_same hr formals _ hformals, Decl.relabelAll_of_same hr decls _ hdecls,
      Stmt.relabelAll_of_same hr stmts _ hstmts]
  | .struct _ fields, b, h => by
    cases b <;> simp only [Decl.same, Bool.false_eq_true, Bool.and_eq_true] at h
    simp only [Decl.relabel, Ident.relabel_of_same hr h.1, Decl.relabelAll_of_same hr fields _ h.2]
  | .stray thing, b, h => by
    cases b <;> simp only [Decl.same, Bool.false_eq_true] at h
    simp only [Decl.relabel, thing.relabel_of_same hr _ h]

theorem Decl.relabelAll_of_same (hr : r.Blind) : ∀ as bs : List Decl,
    Decl.sameAll .plain as bs = true → Decl.relabelAll r as = Decl.relabelAll r bs
  | [], bs, h => by
    cases bs <;> simp only [Decl.sameAll, Bool.false_eq_true] at h
    rfl
  | a :: as, bs, h => by
    cases bs <;> simp only [Decl.sameAll, Bool.false_eq_true, Bool.and_eq_true] at h
    simp only [Decl.relabelAll, a.relabel_of_same hr _ h.1, Decl.relabelAll_of_same hr as _ h.2]

theorem Stmt.relabel_of_same (hr : r.Blind) : ∀ a b : Stmt, a.same .plain b = true →
    a.relabel r = b.relabel r
  | .assign expr, b, h | .increment expr, b, h | .decrement expr, b, h | .read expr, b, h
  | .write expr, b, h | .call expr, b, h | .returnValue expr, b, h => by
    cases b <;> simp only [Stmt.same, Bool.false_eq_true] at h
    simp only [Stmt.relabel, expr.relabel_of_same hr _ h]
  | .ifThen condition decls stmts, b, h | .loop condition decls stmts, b, h => by
    cases b <;> simp only [Stmt.same, Bool.false_eq_true, Bool.and_eq_true, and_assoc] at h
    obtain ⟨hcondition, hdecls, hstmts⟩ := h
    simp only [Stmt.relabel, condition.relabel_of_same hr _ hcondition,
      Decl.relabelAll_of_same hr decls _ hdecls, Stmt.relabelAll_of_same hr stmts _ hstmts]
  | .ifElse condition thenDecls thenStmts elseDecls elseStmts, b, h => by
    cases b <;> simp only [Stmt.same, Bool.false_eq_true, Bool.and_eq_true, and_assoc] at h
    obtain ⟨hcondition, hthenDecls, hthenStmts, helseDecls, helseStmts⟩ := h
    simp only [Stmt.relabel, condition.relabel_of_same hr _ hcondition,
      Decl.relabelAll_of_same hr thenDecls _ hthenDecls,
      Stmt.relabelAll_of_same hr thenStmts _ hthenStmts,
      Decl.relabelAll_of_same hr elseDecls _ helseDecls,
      Stmt.relabelAll_of_same hr elseStmts _ helseStmts]
  | .returnNothing, b, h => by
    cases b <;> simp only [Stmt.same, Bool.false_eq_true] at h
    rfl
  | .stray thing, b, h => by
    cases b <;> simp only [Stmt.same, Bool.false_eq_true] at h
    simp only [Stmt.relabel, thing.relabel_of_same hr _ h]

theorem Stmt.relabelAll_of_same (hr : r.Blind) : ∀ as bs : List Stmt,
    Stmt.sameAll .plain as bs = true → Stmt.relabelAll r as = Stmt.relabelAll r bs
  | [], bs, h => by
    cases bs <;> simp only [Stmt.sameAll, Bool.false_eq_true] at h
    rfl
  | a :: as, bs, h => by
    cases bs <;> simp only [Stmt.sameAll, Bool.false_eq_true, Bool.and_eq_true] at h
    simp only [Stmt.relabelAll, a.relabel_of_same hr _ h.1, Stmt.relabelAll_of_same hr as _ h.2]

theorem Stray.relabel_of_same (hr : r.Blind) : ∀ a b : Stray, a.same .plain b = true →
    a.relabel r = b.relabel r
  | .object _, b, h => by simp [Stray.same] at h
  | .text _, b, h | .flag _, b, h => by
    cases b <;> simp only [Stray.same, Bool.false_eq_true, beq_iff_eq] at h
    rw [h]
  | .nothing, b, h => by
    cases b <;> simp only [Stray.same, Bool.false_eq_true] at h
    rfl
  | .type type, b, h => by
    cases b <;> simp only [Stray.same, Bool.false_eq_true] at h
    simp only [Stray.relabel, type.relabel_of_same hr _ h]
  | .expr expr, b, h => by
    cases b <;> simp only [Stray.same, Bool.false_eq_true] at h
    simp only [Stray.relabel, expr.relabel_of_same hr _ h]
  | .decl decl, b, h => by
    cases b <;> simp only [Stray.same, Bool.false_eq_true] at h
    simp only [Stray.relabel, decl.relabel_of_same hr _ h]
  | .stmt stmt, b, h => by
    cases b <;> simp only [Stray.same, Bool.false_eq_true] at h
    simp only [Stray.relabel, stmt.relabel_of_same hr _ h]
  | .body decls stmts, b, h => by
    cases b <;> simp only [Stray.same, Bool.false_eq_true, Bool.and_eq_true] at h
    simp only [Stray.relabel, Decl.relabelAll_of_same hr decls _ h.1,
      Stmt.relabelAll_of_same hr stmts _ h.2]
  | .program decls, b, h => by
    cases b <;> simp only [Stray.same, Bool.false_eq_true] at h
    simp only [Stray.relabel, Decl.relabelAll_of_same hr decls _ h]

end

/-- Programs that are the same are equal, but for symbols. -/
theorem Program.relabel_of_same (hr : r.Blind) {p q : Program} (h : p.same q = true) :
    p.relabel r = q.relabel r :=
  congrArg Program.mk (Decl.relabelAll_of_same hr p.decls q.decls h)

end Blind

end Moo
