import Moo.Proofs.Names.Symbols
import Moo.Proofs.Tree.Same
import Moo.Session

/-!
# Analysis only sets symbols

Whatever the tree holds, whatever state analysis starts in, and also when it
gives up half-way: the tree that it gives back is the one it was given, but
for the symbols of identifiers and field accesses.

* `Walk.Yields`: what is said of an action's result alone.
* `Expr.resolve_forget`, `Stmt.analyze_forget`, `Decl.analyze_forget`: one
  part of a program.
* `Program.analyzeWith_forget`: a whole program.
* `Session.analyze_keeps_tree`: the program of a session, and that no
  comparison and no printing without annotations sees the difference.
-/
namespace Moo

namespace Walk

variable {α : Type} {action : Walk α} {post : α → Prop}

/-- In whatever state the action starts, its result is as `post` says. -/
abbrev Yields (action : Walk α) (post : α → Prop) : Prop :=
  Keeps (fun _ => True) action post

theorem Yields.of (h : ∀ state, post (action state).1) : Yields action post :=
  fun state _ => ⟨fun _ _ => trivial, h state⟩

theorem Keeps.result (h : Yields action post) (state : WalkState) : post (action state).1 :=
  (h state fun _ _ => trivial).2

theorem resolve_forget (id : Ident) :
    Yields (resolve id) fun result => result.1.relabel .forget = id.relabel .forget :=
  (resolve_keeps Scope.kept_trivial fun _ _ => trivial).mono fun _ h => h.1.1

theorem resolveTag_forget (tag : Ident) :
    Yields (resolveTag tag) fun result => result.1.relabel .forget = tag.relabel .forget :=
  (resolveTag_keeps Scope.kept_trivial fun _ _ => trivial).mono fun _ h => h.1.1

theorem bind_forget (id : Ident) (symbol : Option Symbol) :
    Yields (bind id symbol) fun result => result.relabel .forget = id.relabel .forget :=
  (bind_keeps Scope.kept_trivial (fun _ _ => trivial) fun _ _ => trivial).mono fun _ h => h.1

theorem bindMember_forget (members : Scope) (id : Ident) (symbol : Option Symbol) :
    Yields (bindMember members id symbol) fun result =>
      result.1.relabel .forget = id.relabel .forget :=
  (bindMember_keeps Scope.kept_trivial trivial (fun _ _ => trivial) trivial).mono fun _ h => h.1.1

end Walk

open Walk

/-! ## Parts of a program -/

theorem narrow_forget (object : Expr) (base : Option Symbol) (field : Ident)
    (old : Option Symbol) :
    Yields (narrow object base field old) fun result =>
      result.1.relabel .forget = field.relabel .forget :=
  (narrow_keeps Symbol.closed_trivial object (fun _ _ => trivial) (fun _ _ => trivial)
    fun _ _ => trivial).mono fun _ h => h.1.1

theorem Expr.resolve_forget (expr : Expr) :
    Yields expr.resolve fun result => result.1.relabel .forget = expr.relabel .forget :=
  (expr.resolve_keeps Scope.kept_trivial Symbol.closed_trivial (labelled_trivial _)).mono
    fun _ h => h.1.1

theorem Expr.resolveAll_forget (exprs : List Expr) :
    Yields (Expr.resolveAll exprs) fun result =>
      Expr.relabelAll .forget result = Expr.relabelAll .forget exprs :=
  (Expr.resolveAll_keeps Scope.kept_trivial Symbol.closed_trivial exprs (labelled_trivial _)).mono
    fun _ h => h.1

theorem Decl.analyzeVariables_forget (path : Origin) (part : Part) (decls : List Decl)
    (index : Nat) :
    Yields (Decl.analyzeVariables path part index decls) fun result =>
      Decl.relabelAll .forget result = Decl.relabelAll .forget decls :=
  (Decl.analyzeVariables_keeps Scope.kept_trivial Symbol.closed_trivial path part
    (labelled_trivial _) index).mono fun _ h => h.1

theorem Stmt.analyze_forget (path : Origin) (stmt : Stmt) :
    Yields (stmt.analyze path) fun result => result.relabel .forget = stmt.relabel .forget :=
  (Stmt.analyze_keeps Scope.kept_trivial Symbol.closed_trivial path stmt
    (labelled_trivial _)).mono fun _ h => h.1

theorem Stmt.analyzeAll_forget (path : Origin) (part : Part) (stmts : List Stmt) (index : Nat) :
    Yields (Stmt.analyzeAll path part index stmts) fun result =>
      Stmt.relabelAll .forget result = Stmt.relabelAll .forget stmts :=
  (Stmt.analyzeAll_keeps Scope.kept_trivial Symbol.closed_trivial path part stmts
    (labelled_trivial _) index).mono fun _ h => h.1

theorem resolveReturn_forget (returns : TypeExpr) :
    Yields returns.resolveReturn fun result =>
      result.relabel .forget = returns.relabel .forget :=
  (TypeExpr.resolveReturn_keeps Scope.kept_trivial (labelled_trivial _)).mono fun _ h => h.1

theorem bindFunction_forget (origin : Origin) (id : Ident) (returns : TypeExpr)
    (formals : List Decl) :
    Yields (bindFunction origin id returns formals) fun result =>
      result.relabel .forget = id.relabel .forget :=
  (bindFunction_keeps Scope.kept_trivial Symbol.closed_trivial origin (fun _ _ => trivial) returns
    formals).mono fun _ h => h.1

theorem Decl.analyze_forget (origin : Origin) (decl : Decl) :
    Yields (decl.analyze origin) fun result => result.relabel .forget = decl.relabel .forget :=
  (Decl.analyze_keeps Scope.kept_trivial Symbol.closed_trivial origin (labelled_trivial _)
    fun _ _ _ _ _ => trivial).mono fun _ h => h.1

theorem Decl.analyzeAll_forget (decls : List Decl) (clock : Nat) :
    Yields (Decl.analyzeAll clock decls) fun result =>
      Decl.relabelAll .forget result = Decl.relabelAll .forget decls := by
  induction decls generalizing clock with
  | nil => exact .pure rfl
  | cons decl decls ih =>
    refine (decl.analyze_forget _).bind fun _ hd => (ih (clock + 1)).last fun _ hds => ?_
    simp only [Decl.relabelAll, hd, hds]

/-- The analysed program is the one that was given, but for symbols. -/
theorem Program.analyzeWith_forget (program : Program) (table : Table) (clock : Nat) :
    (program.analyzeWith table clock).program.relabel .forget = program.relabel .forget :=
  congrArg Program.mk ((Decl.analyzeAll_forget program.decls clock).result ⟨table, [], none⟩)

/-! ## What is not seen of analysis -/

theorem Relabel.forget_inPlace : Relabel.forget.InPlace := ⟨fun _ => rfl⟩

theorem Relabel.forget_blind : Relabel.forget.Blind := ⟨fun _ _ => rfl⟩

/-- Whatever program and table a session holds, and whether analysis ends well or with a fault: the
program that the session holds afterwards is the one before, but for the symbols of identifiers and
field accesses. It is the same as the same programs, on either side, and prints the same text, or
fails to print in the same way, when annotations are not asked for. -/
theorem Session.analyze_keeps_tree (session : Session) :
    let before := session.program
    let after := session.analyze.2.program
    after.relabel .forget = before.relabel .forget ∧
      (∀ other, after.same other = before.same other ∧ other.same after = other.same before) ∧
      after.print false = before.print false := by
  intro before after
  have hforget : after.relabel .forget = before.relabel .forget :=
    before.analyzeWith_forget session.table session.clock
  refine ⟨hforget, Program.sameBy_of_relabel Relabel.forget_inPlace hforget, ?_⟩
  calc after.print false
    _ = (after.relabel .forget).print false := (after.print_relabel .forget).symm
    _ = (before.relabel .forget).print false := by rw [hforget]
    _ = before.print false := before.print_relabel .forget

end Moo
