import Moo.Proofs.Json
import Moo.Proofs.Tree.Leaf
import Moo.Tree.Dump
import Moo.Tree.Same

/-!
# Dumps tell trees apart

A dump names the kind of each node and has a field for each of its parts, but
for two: symbols, which do not count when trees are compared, and the location
of a field access, which is the one of the field's name. So two trees have the
same dump exactly if they are the same, with literals compared by the units
that are dumped for them.

The trees have to be well-formed for that. A thing that strayed is dumped like
the thing itself, and nothing where a value is expected like no value.

* `Expr.dump_inj`, `Stmt.dump_inj`, `Decl.dump_inj`: the parts of a program.
  In each of them both trees are taken apart: nodes of two kinds differ in the
  dump by their `_type`, nodes of one kind part by part.
* `Program.dumpBy_inj`: whole programs, and the texts of their dumps;
  `Program.dump_inj`: the same if literals are what the tree says.
* `Program.dumpBy_congr`: of what literals may be, only those of the tree
  matter to its dump.
-/
namespace Moo

@[simp]
theorem Json.node_inj {kind kind' : String} {parts parts' : List (String × Json)} :
    Json.node kind parts = Json.node kind' parts' ↔ kind = kind' ∧ parts = parts' := by
  simp [Json.node]

theorem Json.node_ne_null (kind : String) (parts : List (String × Json)) :
    Json.node kind parts ≠ .null :=
  nofun

@[simp]
theorem Loc.dump_inj {a b : Option Loc} : Loc.dump a = Loc.dump b ↔ a = b := by
  match a, b with
  | none, none => simp
  | none, some _ | some _, none => simp [Loc.dump, Json.node]
  | some ⟨line, column⟩, some ⟨line', column'⟩ => simp [Loc.dump]

@[simp]
theorem Ident.dump_inj {a b : Ident} : a.dump = b.dump ↔ a.same b = true := by
  simp [Ident.dump, Ident.same, Expr.kind]

/-- Literals that are dumped alike, at the same location. -/
def LiteralSame.dumped (l l' : Literals) : LiteralSame :=
  fun a loc b loc' => l a loc == l' b loc' && loc == loc'

section

variable (l l' : Literals)

theorem TypeExpr.dump_inj (a : TypeExpr) (ha : a.WellFormed) (b : TypeExpr) (hb : b.WellFormed) :
    a.dump l = b.dump l' ↔ a.same (.dumped l l') b = true := by
  cases a <;> cases b <;>
    simp_all [TypeExpr.dump, TypeExpr.same, TypeExpr.kind, TypeExpr.WellFormed]

/-! ## Expressions -/

mutual

theorem Expr.dump_inj : ∀ a : Expr, a.WellFormed → ∀ b : Expr, b.WellFormed →
    (a.dump l = b.dump l' ↔ a.same (.dumped l l') b = true)
  | .int .., _, b, _ | .str .., _, b, _ | .bool .., _, b, _ | .name _, _, b, _ => by
    cases b <;>
      simp_all [Expr.dump, Expr.same, Expr.kind, Expr.WellFormed, LiteralSame.dumped, Ident.dump,
        Ident.same]
  | .dot object _ _, h, b, _ => by
    have hobject := object.dump_inj h
    cases b <;> simp_all [Expr.dump, Expr.same, Expr.kind, Expr.WellFormed, Ident.dump, Ident.same]
  | .assign target value, ⟨ht, hv⟩, b, _ => by
    have htarget := target.dump_inj ht
    have hvalue := value.dump_inj hv
    cases b <;> simp_all [Expr.dump, Expr.same, Expr.kind, Expr.WellFormed, Ident.dump]
  | .call _ args, h, b, _ => by
    have hargs := Expr.dumpAll_inj args h
    cases b <;> simp_all [Expr.dump, Expr.same, Expr.kind, Expr.WellFormed, Ident.dump, Ident.same]
  | .unary _ operand, h, b, _ => by
    have hoperand := operand.dump_inj h
    cases b <;> simp_all [Expr.dump, Expr.same, Expr.kind, Expr.WellFormed, Ident.dump]
  | .binary _ left right, ⟨hl, hr⟩, b, _ => by
    have hleft := left.dump_inj hl
    have hright := right.dump_inj hr
    cases b <;> simp_all [Expr.dump, Expr.same, Expr.kind, Expr.WellFormed, Ident.dump, and_assoc]

theorem Expr.dumpAll_inj : ∀ as : List Expr, Expr.WellFormedAll as → ∀ bs : List Expr,
    Expr.WellFormedAll bs →
      (Expr.dumpAll l as = Expr.dumpAll l' bs ↔ Expr.sameAll (.dumped l l') as bs = true)
  | [], _, bs, _ => by cases bs <;> simp [Expr.dumpAll, Expr.sameAll]
  | a :: as, ⟨ha, has⟩, bs, _ => by
    have hfirst := a.dump_inj ha
    have hmore := Expr.dumpAll_inj as has
    cases bs <;> simp_all [Expr.dumpAll, Expr.sameAll, Expr.WellFormedAll]

end

/-- What stands behind `return` is told from nothing. -/
theorem Expr.dump_ne_null (e : Expr) (h : e.WellFormed) : e.dump l ≠ .null := by
  cases e with
  | stray => exact h.elim
  | _ => simp only [Expr.dump, Ident.dump]; exact Json.node_ne_null _ _

/-! ## Declarations in front of statements -/

theorem Decl.IsVariable.dump_inj {a b : Decl} (ha : a.IsVariable) (hb : b.IsVariable) :
    a.dump l = b.dump l' ↔ a.same (.dumped l l') b = true := by
  match a, b with
  | .var _ _, .var _ _ => simp [Decl.dump, Decl.same, Decl.kind, TypeExpr.dump_inj l l' _ ha _ hb]

theorem Decl.IsFormal.dump_inj {a b : Decl} (ha : a.IsFormal) (hb : b.IsFormal) :
    a.dump l = b.dump l' ↔ a.same (.dumped l l') b = true := by
  match a, b with
  | .formal _ _, .formal _ _ =>
    simp [Decl.dump, Decl.same, Decl.kind, TypeExpr.dump_inj l l' _ ha _ hb]

theorem Decl.dumpAll_inj {as : List Decl} {Good : Decl → Prop}
    (h : ∀ {a b : Decl}, Good a → Good b → (a.dump l = b.dump l' ↔ a.same (.dumped l l') b = true))
    (ha : ∀ a ∈ as, Good a) (bs : List Decl) (hb : ∀ b ∈ bs, Good b) :
    Decl.dumpAll l as = Decl.dumpAll l' bs ↔ Decl.sameAll (.dumped l l') as bs = true := by
  induction as generalizing bs with
  | nil => cases bs <;> simp [Decl.dumpAll, Decl.sameAll]
  | cons a as ih =>
    cases bs with
    | nil => simp [Decl.dumpAll, Decl.sameAll]
    | cons b bs =>
      obtain ⟨ha, has⟩ := List.forall_mem_cons.1 ha
      obtain ⟨hb, hbs⟩ := List.forall_mem_cons.1 hb
      simp [Decl.dumpAll, Decl.sameAll, h ha hb, ih has bs hbs]

/-! ## Statements -/

mutual

theorem Stmt.dump_inj : ∀ a : Stmt, a.WellFormed → ∀ b : Stmt, b.WellFormed →
    (a.dump l = b.dump l' ↔ a.same (.dumped l l') b = true)
  | .assign expr, h, b, _ | .increment expr, h, b, _ | .decrement expr, h, b, _
  | .read expr, h, b, _ | .write expr, h, b, _ | .call expr, h, b, _
  | .returnValue expr, h, b, _ => by
    have hexpr := expr.dump_inj l l' h
    have hnull := expr.dump_ne_null l h
    cases b <;> simp_all [Stmt.dump, Stmt.same, Stmt.kind, Stmt.WellFormed]
  | .ifThen condition _ stmts, ⟨hc, hd, hs⟩, b, _
  | .loop condition _ stmts, ⟨hc, hd, hs⟩, b, _ => by
    have hcondition := condition.dump_inj l l' hc
    have hdecls := Decl.dumpAll_inj l l' (Decl.IsVariable.dump_inj l l') hd
    have hstmts := Stmt.dumpAll_inj stmts hs
    cases b <;> simp_all [Stmt.dump, Stmt.same, Stmt.kind, Stmt.WellFormed, and_assoc]
  | .ifElse condition _ thenStmts _ elseStmts, ⟨hc, ⟨htd, hts⟩, hed, hes⟩, b, _ => by
    have hcondition := condition.dump_inj l l' hc
    have hthenDecls := Decl.dumpAll_inj l l' (Decl.IsVariable.dump_inj l l') htd
    have hthenStmts := Stmt.dumpAll_inj thenStmts hts
    have helseDecls := Decl.dumpAll_inj l l' (Decl.IsVariable.dump_inj l l') hed
    have helseStmts := Stmt.dumpAll_inj elseStmts hes
    cases b <;> simp_all [Stmt.dump, Stmt.same, Stmt.kind, Stmt.WellFormed, and_assoc]
  | .returnNothing, _, b, h => by
    cases b with
    | returnValue value =>
      have hnull := value.dump_ne_null l' h
      simp [Stmt.dump, Stmt.same, Stmt.kind, hnull.symm]
    | _ => simp_all [Stmt.dump, Stmt.same, Stmt.kind, Stmt.WellFormed]

theorem Stmt.dumpAll_inj : ∀ as : List Stmt, Stmt.WellFormedAll as → ∀ bs : List Stmt,
    Stmt.WellFormedAll bs →
      (Stmt.dumpAll l as = Stmt.dumpAll l' bs ↔ Stmt.sameAll (.dumped l l') as bs = true)
  | [], _, bs, _ => by cases bs <;> simp [Stmt.dumpAll, Stmt.sameAll]
  | a :: as, ⟨ha, has⟩, bs, _ => by
    have hfirst := a.dump_inj ha
    have hmore := Stmt.dumpAll_inj as has
    cases bs <;> simp_all [Stmt.dumpAll, Stmt.sameAll, Stmt.WellFormedAll]

end

/-! ## Programs -/

theorem Decl.dump_inj {a b : Decl} (ha : a.WellFormed) (hb : b.WellFormed) :
    a.dump l = b.dump l' ↔ a.same (.dumped l l') b = true := by
  cases a with
  | var type _ =>
    have htype := type.dump_inj l l' ha
    cases b <;> simp_all [Decl.dump, Decl.same, Decl.kind, Decl.WellFormed]
  | function returns _ formals decls stmts =>
    obtain ⟨hr, hf, hd, hs⟩ := ha
    have hreturns := returns.dump_inj l l' hr
    have hformals := Decl.dumpAll_inj l l' (Decl.IsFormal.dump_inj l l') hf
    have hdecls := Decl.dumpAll_inj l l' (Decl.IsVariable.dump_inj l l') hd
    have hstmts := Stmt.dumpAll_inj l l' stmts hs
    cases b <;>
      simp_all [Decl.dump, Decl.same, Decl.kind, Decl.WellFormed, Stray.kind, and_assoc]
  | struct _ fields =>
    have hfields := Decl.dumpAll_inj l l' (Decl.IsVariable.dump_inj l l') ha
    cases b <;> simp_all [Decl.dump, Decl.same, Decl.kind, Decl.WellFormed]
  | formal => exact ha.elim
  | stray => exact ha.elim

/-- The dumps of two well-formed programs are the same text exactly if the programs are the same, as
far as literals are dumped. -/
theorem Program.dumpBy_inj {p q : Program} (hp : p.WellFormed) (hq : q.WellFormed) :
    p.dumpBy l = q.dumpBy l' ↔ p.sameBy (.dumped l l') q = true := by
  have htext : p.dumpBy l = q.dumpBy l' ↔
      (Stray.program p.decls).dump l = (Stray.program q.decls).dump l' :=
    ⟨fun h => Json.text_injective h, congrArg Json.text⟩
  have hdecls :
      Decl.dumpAll l p.decls = Decl.dumpAll l' q.decls ↔ p.sameBy (.dumped l l') q = true :=
    Decl.dumpAll_inj l l' (Decl.dump_inj l l') hp q.decls hq
  rw [htext, ← hdecls]
  simp [Stray.dump, Stray.kind]

end

/-- Strings that are literals are dumped alike if they are equal. -/
theorem LiteralSame.dumped_plain : dumped .plain .plain = plain := by
  funext a loc b loc'
  have hunits : (utf16 (.ofString a) == utf16 (.ofString b)) = (a == b) := by
    rw [Bool.eq_iff_iff, beq_iff_eq, beq_iff_eq, utf16_ofString_inj]
  simp only [dumped, plain, Literals.plain, hunits]

theorem Program.dump_inj {p q : Program} (hp : p.WellFormed) (hq : q.WellFormed) :
    p.dump = q.dump ↔ p.same q = true := by
  rw [Program.same, ← LiteralSame.dumped_plain]
  exact Program.dumpBy_inj .plain .plain hp hq

/-! ## What a dump says of literals -/

/-- Literals that are the same where they stand in a tree. -/
def Literals.AgreeOn (l l' : Literals) (leaves : List Leaf) : Prop :=
  ∀ text loc, .str text loc ∈ leaves → l text loc = l' text loc

section

variable {l l' : Literals}

@[simp]
theorem Literals.agreeOn_append {a b : List Leaf} :
    l.AgreeOn l' (a ++ b) ↔ l.AgreeOn l' a ∧ l.AgreeOn l' b := by
  simp [Literals.AgreeOn, or_imp, forall_and]

@[simp]
theorem Literals.agreeOn_ident {id : Ident} {leaves : List Leaf} :
    l.AgreeOn l' (.ident id :: leaves) ↔ l.AgreeOn l' leaves := by
  simp [Literals.AgreeOn]

mutual

theorem TypeExpr.dump_congr : ∀ e : TypeExpr, l.AgreeOn l' e.leaves → e.dump l = e.dump l'
  | .primitive _, _ | .struct _, _ => rfl
  | .stray thing, h => by simp only [TypeExpr.dump, thing.dump_congr h]

theorem Expr.dump_congr : ∀ e : Expr, l.AgreeOn l' e.leaves → e.dump l = e.dump l'
  | .int .., _ | .bool .., _ | .name _, _ => rfl
  | .str text loc, h => by simp only [Expr.dump, h text loc (List.mem_singleton.2 rfl)]
  | .dot object field _, h => by
    simp only [Expr.leaves, Literals.agreeOn_append] at h
    simp only [Expr.dump, Expr.kind, object.dump_congr h.1]
  | .assign left right, h | .binary _ left right, h => by
    simp only [Expr.leaves, Literals.agreeOn_append] at h
    simp only [Expr.dump, Expr.kind, left.dump_congr h.1, right.dump_congr h.2]
  | .call callee args, h => by
    simp only [Expr.leaves, Literals.agreeOn_ident] at h
    simp only [Expr.dump, Expr.kind, Expr.dumpAll_congr args h]
  | .unary _ operand, h => by simp only [Expr.dump, Expr.kind, operand.dump_congr h]
  | .strayDot object field _ _, h => by
    simp only [Expr.leaves, Literals.agreeOn_append] at h
    simp only [Expr.dump, Expr.kind, object.dump_congr h.1, field.dump_congr h.2]
  | .strayCall callee _ args, h => by
    simp only [Expr.leaves, Literals.agreeOn_append] at h
    simp only [Expr.dump, Expr.kind, callee.dump_congr h.1, Expr.dumpAll_congr args h.2]
  | .stray thing, h => by simp only [Expr.dump, thing.dump_congr h]

theorem Expr.dumpAll_congr : ∀ es : List Expr, l.AgreeOn l' (Expr.leavesAll es) →
    Expr.dumpAll l es = Expr.dumpAll l' es
  | [], _ => rfl
  | e :: es, h => by
    simp only [Expr.leavesAll, Literals.agreeOn_append] at h
    simp only [Expr.dumpAll, e.dump_congr h.1, Expr.dumpAll_congr es h.2]

theorem Decl.dump_congr : ∀ d : Decl, l.AgreeOn l' d.leaves → d.dump l = d.dump l'
  | .var type _, h | .formal type _, h => by
    simp only [Decl.leaves, Literals.agreeOn_append] at h
    simp only [Decl.dump, Decl.kind, type.dump_congr h.1]
  | .function returns _ formals decls stmts, h => by
    simp only [Decl.leaves, Literals.agreeOn_append, Literals.agreeOn_ident] at h
    simp only [Decl.dump, Decl.kind, Stray.kind, returns.dump_congr h.1.1,
      Decl.dumpAll_congr formals h.1.2, Decl.dumpAll_congr decls h.2.1,
      Stmt.dumpAll_congr stmts h.2.2]
  | .struct _ fields, h => by
    simp only [Decl.leaves, Literals.agreeOn_ident] at h
    simp only [Decl.dump, Decl.kind, Decl.dumpAll_congr fields h]
  | .stray thing, h => by simp only [Decl.dump, thing.dump_congr h]

theorem Decl.dumpAll_congr : ∀ ds : List Decl, l.AgreeOn l' (Decl.leavesAll ds) →
    Decl.dumpAll l ds = Decl.dumpAll l' ds
  | [], _ => rfl
  | d :: ds, h => by
    simp only [Decl.leavesAll, Literals.agreeOn_append] at h
    simp only [Decl.dumpAll, d.dump_congr h.1, Decl.dumpAll_congr ds h.2]

theorem Stmt.dump_congr : ∀ s : Stmt, l.AgreeOn l' s.leaves → s.dump l = s.dump l'
  | .assign expr, h | .increment expr, h | .decrement expr, h | .read expr, h | .write expr, h
  | .call expr, h | .returnValue expr, h => by simp only [Stmt.dump, Stmt.kind, expr.dump_congr h]
  | .ifThen condition decls stmts, h | .loop condition decls stmts, h => by
    simp only [Stmt.leaves, Literals.agreeOn_append] at h
    simp only [Stmt.dump, Stmt.kind, condition.dump_congr h.1, Decl.dumpAll_congr decls h.2.1,
      Stmt.dumpAll_congr stmts h.2.2]
  | .ifElse condition thenDecls thenStmts elseDecls elseStmts, h => by
    simp only [Stmt.leaves, Literals.agreeOn_append] at h
    simp only [Stmt.dump, Stmt.kind, condition.dump_congr h.1.1,
      Decl.dumpAll_congr thenDecls h.1.2.1, Stmt.dumpAll_congr thenStmts h.1.2.2,
      Decl.dumpAll_congr elseDecls h.2.1, Stmt.dumpAll_congr elseStmts h.2.2]
  | .returnNothing, _ => rfl
  | .stray thing, h => by simp only [Stmt.dump, thing.dump_congr h]

theorem Stmt.dumpAll_congr : ∀ ss : List Stmt, l.AgreeOn l' (Stmt.leavesAll ss) →
    Stmt.dumpAll l ss = Stmt.dumpAll l' ss
  | [], _ => rfl
  | s :: ss, h => by
    simp only [Stmt.leavesAll, Literals.agreeOn_append] at h
    simp only [Stmt.dumpAll, s.dump_congr h.1, Stmt.dumpAll_congr ss h.2]

theorem Stray.dump_congr : ∀ t : Stray, l.AgreeOn l' t.leaves → t.dump l = t.dump l'
  | .object _, _ | .text _, _ | .flag _, _ | .nothing, _ => rfl
  | .type type, h => by simp only [Stray.dump, type.dump_congr h]
  | .expr expr, h => by simp only [Stray.dump, expr.dump_congr h]
  | .decl decl, h => by simp only [Stray.dump, decl.dump_congr h]
  | .stmt stmt, h => by simp only [Stray.dump, stmt.dump_congr h]
  | .body decls stmts, h => by
    simp only [Stray.leaves, Literals.agreeOn_append] at h
    simp only [Stray.dump, Stray.kind, Decl.dumpAll_congr decls h.1, Stmt.dumpAll_congr stmts h.2]
  | .program decls, h => by simp only [Stray.dump, Stray.kind, Decl.dumpAll_congr decls h]

end

/-- A dump depends on what the literals of the tree are, and on no other ones. -/
theorem Program.dumpBy_congr {program : Program} (h : l.AgreeOn l' program.leaves) :
    program.dumpBy l = program.dumpBy l' :=
  congrArg Json.text (Stray.dump_congr (.program program.decls) h)

end

end Moo
