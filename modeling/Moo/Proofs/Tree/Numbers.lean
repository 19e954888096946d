import Moo.Proofs.Tree.Leaf
import Moo.Reading

/-!
# Trees put together from their words

`Program.assemble` puts a tree together again from the leaves upwards: the
parts of a node from left to right, then the node. Each number is made of
the digits that are written at its location, which fails if there are too
many of them, and then the whole tree fails.

* `Expr.assemble_eq`, `Decl.assemble_eq`, `Stmt.assemble_eq`: if the numbers
  of a tree are those that are written, to assemble it is to check its leaves
  in their order. So the number that fails first is the first one among the
  leaves, wherever in the tree it stands.
* `Program.assemble_eq`: a whole program.
-/
namespace Moo

/-- The number that is written with the digits, unless they are too many to be read. -/
def writtenNumber (digits : List Char) : Except Nat Int :=
  if maxDigits < digits.length then .error digits.length else .ok (Nat.ofDigitChars 10 digits 0)

mutual

def TypeExpr.assemble (digits : Option Loc → List Char) : TypeExpr → Except Nat TypeExpr
  | .primitive name => pure (.primitive name)
  | .struct tag => pure (.struct tag)
  | .stray thing => do
    let thing ← thing.assemble digits
    pure (.stray thing)

def Expr.assemble (digits : Option Loc → List Char) : Expr → Except Nat Expr
  | .int _ loc => do
    let value ← writtenNumber (digits loc)
    pure (.int value loc)
  | .str text loc => pure (.str text loc)
  | .bool value loc => pure (.bool value loc)
  | .name id => pure (.name id)
  | .dot object field symbol => do
    let object ← object.assemble digits
    pure (.dot object field symbol)
  | .assign target value => do
    let target ← target.assemble digits
    let value ← value.assemble digits
    pure (.assign target value)
  | .call callee args => do
    let args ← Expr.assembleAll digits args
    pure (.call callee args)
  | .unary op operand => do
    let operand ← operand.assemble digits
    pure (.unary op operand)
  | .binary op left right => do
    let left ← left.assemble digits
    let right ← right.assemble digits
    pure (.binary op left right)
  | .strayDot object field given symbol => do
    let object ← object.assemble digits
    let field ← field.assemble digits
    pure (.strayDot object field given symbol)
  | .strayCall callee given args => do
    let callee ← callee.assemble digits
    let args ← Expr.assembleAll digits args
    pure (.strayCall callee given args)
  | .stray thing => do
    let thing ← thing.assemble digits
    pure (.stray thing)

def Expr.assembleAll (digits : Option Loc → List Char) : List Expr → Except Nat (List Expr)
  | [] => pure []
  | expr :: exprs => do
    let expr ← expr.assemble digits
    let exprs ← Expr.assembleAll digits exprs
    pure (expr :: exprs)

def Decl.assemble (digits : Option Loc → List Char) : Decl → Except Nat Decl
  | .var type id => do
    let type ← type.assemble digits
    pure (.var type id)
  | .formal type id => do
    let type ← type.assemble digits
    pure (.formal type id)
  | .function returns id formals decls stmts => do
    let returns ← returns.assemble digits
    let formals ← Decl.assembleAll digits formals
    let decls ← Decl.assembleAll digits decls
    let stmts ← Stmt.assembleAll digits stmts
    pure (.function returns id formals decls stmts)
  | .struct tag fields => do
    let fields ← Decl.assembleAll digits fields
    pure (.struct tag fields)
  | .stray thing => do
    let thing ← thing.assemble digits
    pure (.stray thing)

def Decl.assembleAll (digits : Option Loc → List Char) : List Decl → Except Nat (List Decl)
  | [] => pure []
  | decl :: decls => do
    let decl ← decl.assemble digits
    let decls ← Decl.assembleAll digits decls
    pure (decl :: decls)

def Stmt.assemble (digits : Option Loc → List Char) : Stmt → Except Nat Stmt
  | .assign assignment => do
    let assignment ← assignment.assemble digits
    pure (.assign assignment)
  | .increment target => do
    let target ← target.assemble digits
    pure (.increment target)
  | .decrement target => do
    let target ← target.assemble digits
    pure (.decrement target)
  | .read target => do
    let target ← target.assemble digits
    pure (.read target)
  | .write value => do
    let value ← value.assemble digits
    pure (.write value)
  | .ifThen condition decls stmts => do
    let condition ← condition.assemble digits
    let decls ← Decl.assembleAll digits decls
    let stmts ← Stmt.assembleAll digits stmts
    pure (.ifThen condition decls stmts)
  | .ifElse condition thenDecls thenStmts elseDecls elseStmts => do
    let condition ← condition.assemble digits
    let thenDecls ← Decl.assembleAll digits thenDecls
    let thenStmts ← Stmt.assembleAll digits thenStmts
    let elseDecls ← Decl.assembleAll digits elseDecls
    let elseStmts ← Stmt.assembleAll digits elseStmts
    pure (.ifElse condition thenDecls thenStmts elseDecls elseStmts)
  | .loop condition decls stmts => do
    let condition ← condition.assemble digits
    let decls ← Decl.assembleAll digits decls
    let stmts ← Stmt.assembleAll digits stmts
    pure (.loop condition decls stmts)
  | .call call => do
    let call ← call.assemble digits
    pure (.call call)
  | .returnNothing => pure .returnNothing
  | .returnValue value => do
    let value ← value.assemble digits
    pure (.returnValue value)
  | .stray thing => do
    let thing ← thing.assemble digits
    pure (.stray thing)

def Stmt.assembleAll (digits : Option Loc → List Char) : List Stmt → Except Nat (List Stmt)
  | [] => pure []
  | stmt :: stmts => do
    let stmt ← stmt.assemble digits
    let stmts ← Stmt.assembleAll digits stmts
    pure (stmt :: stmts)

def Stray.assemble (digits : Option Loc → List Char) : Stray → Except Nat Stray
  | .object kind => pure (.object kind)
  | .text value => pure (.text value)
  | .flag value => pure (.flag value)
  | .nothing => pure .nothing
  | .type type => do
    let type ← type.assemble digits
    pure (.type type)
  | .expr expr => do
    let expr ← expr.assemble digits
    pure (.expr expr)
  | .decl decl => do
    let decl ← decl.assemble digits
    pure (.decl decl)
  | .stmt stmt => do
    let stmt ← stmt.assemble digits
    pure (.stmt stmt)
  | .body decls stmts => do
    let decls ← Decl.assembleAll digits decls
    let stmts ← Stmt.assembleAll digits stmts
    pure (.body decls stmts)
  | .program decls => do
    let decls ← Decl.assembleAll digits decls
    pure (.program decls)

end

def Program.assemble (digits : Option Loc → List Char) (program : Program) :
    Except Nat Program := do
  let decls ← Decl.assembleAll digits program.decls
  pure ⟨decls⟩

/-! ## The leaves decide -/

/-- A number is the one that is written at its location, if it is read. -/
def Leaf.Written (digits : Option Loc → List Char) : Leaf → Prop
  | .int value loc => value = Nat.ofDigitChars 10 (digits loc) 0
  | _ => True

/-- Fails at a number that has too many digits. -/
def Leaf.check (digits : Option Loc → List Char) : Leaf → Except Nat Unit
  | .int _ loc => discard (writtenNumber (digits loc))
  | _ => pure ()

section Assemble

variable {digits : Option Loc → List Char}

theorem Expr.assemble_int {value : Int} {loc : Option Loc}
    (h : (Leaf.int value loc).Written digits) :
    (Expr.int value loc).assemble digits =
      (do (Leaf.int value loc).check digits; pure (.int value loc)) := by
  have hvalue : value = Nat.ofDigitChars 10 (digits loc) 0 := h
  simp only [Expr.assemble, Leaf.check, writtenNumber]
  split
  · rfl
  · rw [hvalue]; rfl

mutual

theorem TypeExpr.assemble_eq : ∀ {t : TypeExpr}, (∀ leaf ∈ t.leaves, leaf.Written digits) →
    t.assemble digits = do forM t.leaves (Leaf.check digits); pure t
  | .primitive _, _ | .struct _, _ => rfl
  | .stray _, h => by
    simp only [TypeExpr.assemble, TypeExpr.leaves, Stray.assemble_eq h, bind_assoc, pure_bind]

theorem Expr.assemble_eq : ∀ {e : Expr}, (∀ leaf ∈ e.leaves, leaf.Written digits) →
    e.assemble digits = do forM e.leaves (Leaf.check digits); pure e
  | .int .., h => by
    simp only [Expr.leaves, Expr.assemble_int (h _ List.mem_cons_self), List.forM_cons,
      List.forM_nil, bind_assoc, pure_bind]
  | .str .., _ | .bool .., _ | .name _, _ => rfl
  | .dot .., h => by
    obtain ⟨ho, -⟩ := List.forall_mem_append.1 h
    simp only [Expr.assemble, Expr.leaves, Expr.assemble_eq ho, List.forM_append, List.forM_cons,
      List.forM_nil, Leaf.check, bind_assoc, pure_bind]
  | .assign .., h | .binary .., h => by
    obtain ⟨hl, hr⟩ := List.forall_mem_append.1 h
    simp only [Expr.assemble, Expr.leaves, Expr.assemble_eq hl, Expr.assemble_eq hr,
      List.forM_append, bind_assoc, pure_bind]
  | .call .., h => by
    obtain ⟨-, ha⟩ := List.forall_mem_cons.1 h
    simp only [Expr.assemble, Expr.leaves, Expr.assembleAll_eq ha, List.forM_cons, Leaf.check,
      bind_assoc, pure_bind]
  | .unary _ operand, h => by
    simp only [Expr.assemble, Expr.leaves, Expr.assemble_eq (e := operand) h, bind_assoc, pure_bind]
  | .strayDot .., h => by
    obtain ⟨ho, hf⟩ := List.forall_mem_append.1 h
    simp only [Expr.assemble, Expr.leaves, Expr.assemble_eq ho, Stray.assemble_eq hf,
      List.forM_append, bind_assoc, pure_bind]
  | .strayCall .., h => by
    obtain ⟨hc, ha⟩ := List.forall_mem_append.1 h
    simp only [Expr.assemble, Expr.leaves, Stray.assemble_eq hc, Expr.assembleAll_eq ha,
      List.forM_append, bind_assoc, pure_bind]
  | .stray _, h => by
    simp only [Expr.assemble, Expr.leaves, Stray.assemble_eq h, bind_assoc, pure_bind]

theorem Expr.assembleAll_eq : ∀ {es : List Expr},
    (∀ leaf ∈ Expr.leavesAll es, leaf.Written digits) →
    Expr.assembleAll digits es = do forM (Expr.leavesAll es) (Leaf.check digits); pure es
  | [], _ => rfl
  | _ :: _, h => by
    obtain ⟨he, hes⟩ := List.forall_mem_append.1 h
    simp only [Expr.assembleAll, Expr.leavesAll, Expr.assemble_eq he, Expr.assembleAll_eq hes,
      List.forM_append, bind_assoc, pure_bind]

theorem Decl.assemble_eq : ∀ {d : Decl}, (∀ leaf ∈ d.leaves, leaf.Written digits) →
    d.assemble digits = do forM d.leaves (Leaf.check digits); pure d
  | .var .., h | .formal .., h => by
    obtain ⟨ht, -⟩ := List.forall_mem_append.1 h
    simp only [Decl.assemble, Decl.leaves, TypeExpr.assemble_eq ht, List.forM_append,
      List.forM_cons, List.forM_nil, Leaf.check, bind_assoc, pure_bind]
  | .function .., h => by
    obtain ⟨h, hbody⟩ := List.forall_mem_append.1 h
    obtain ⟨hr, hf⟩ := List.forall_mem_append.1 h
    obtain ⟨-, hf⟩ := List.forall_mem_cons.1 hf
    obtain ⟨hd, hs⟩ := List.forall_mem_append.1 hbody
    simp only [Decl.assemble, Decl.leaves, TypeExpr.assemble_eq hr, Decl.assembleAll_eq hf,
      Decl.assembleAll_eq hd, Stmt.assembleAll_eq hs, List.forM_append, List.forM_cons, Leaf.check,
      bind_assoc, pure_bind]
  | .struct .., h => by
    obtain ⟨-, hf⟩ := List.forall_mem_cons.1 h
    simp only [Decl.assemble, Decl.leaves, Decl.assembleAll_eq hf, List.forM_cons, Leaf.check,
      bind_assoc, pure_bind]
  | .stray _, h => by
    simp only [Decl.assemble, Decl.leaves, Stray.assemble_eq h, bind_assoc, pure_bind]

theorem Decl.assembleAll_eq : ∀ {ds : List Decl},
    (∀ leaf ∈ Decl.leavesAll ds, leaf.Written digits) →
    Decl.assembleAll digits ds = do forM (Decl.leavesAll ds) (Leaf.check digits); pure ds
  | [], _ => rfl
  | _ :: _, h => by
    obtain ⟨hd, hds⟩ := List.forall_mem_append.1 h
    simp only [Decl.assembleAll, Decl.leavesAll, Decl.assemble_eq hd, Decl.assembleAll_eq hds,
      List.forM_append, bind_assoc, pure_bind]

theorem Stmt.assemble_eq : ∀ {s : Stmt}, (∀ leaf ∈ s.leaves, leaf.Written digits) →
    s.assemble digits = do forM s.leaves (Leaf.check digits); pure s
  | .assign expr, h | .increment expr, h | .decrement expr, h | .read expr, h | .write expr, h
  | .call expr, h | .returnValue expr, h => by
    simp only [Stmt.assemble, Stmt.leaves, Expr.assemble_eq (e := expr) h, bind_assoc, pure_bind]
  | .ifThen .., h | .loop .., h => by
    obtain ⟨hc, hblock⟩ := List.forall_mem_append.1 h
    obtain ⟨hd, hs⟩ := List.forall_mem_append.1 hblock
    simp only [Stmt.assemble, Stmt.leaves, Expr.assemble_eq hc, Decl.assembleAll_eq hd,
      Stmt.assembleAll_eq hs, List.forM_append, bind_assoc, pure_bind]
  | .ifElse .., h => by
    obtain ⟨h, helse⟩ := List.forall_mem_append.1 h
    obtain ⟨hc, hthen⟩ := List.forall_mem_append.1 h
    obtain ⟨htd, hts⟩ := List.forall_mem_append.1 hthen
    obtain ⟨hed, hes⟩ := List.forall_mem_append.1 helse
    simp only [Stmt.assemble, Stmt.leaves, Expr.assemble_eq hc, Decl.assembleAll_eq htd,
      Stmt.assembleAll_eq hts, Decl.assembleAll_eq hed, Stmt.assembleAll_eq hes, List.forM_append,
      bind_assoc, pure_bind]
  | .returnNothing, _ => rfl
  | .stray _, h => by
    simp only [Stmt.assemble, Stmt.leaves, Stray.assemble_eq h, bind_assoc, pure_bind]

theorem Stmt.assembleAll_eq : ∀ {ss : List Stmt},
    (∀ leaf ∈ Stmt.leavesAll ss, leaf.Written digits) →
    Stmt.assembleAll digits ss = do forM (Stmt.leavesAll ss) (Leaf.check digits); pure ss
  | [], _ => rfl
  | _ :: _, h => by
    obtain ⟨hs, hss⟩ := List.forall_mem_append.1 h
    simp only [Stmt.assembleAll, Stmt.leavesAll, Stmt.assemble_eq hs, Stmt.assembleAll_eq hss,
      List.forM_append, bind_assoc, pure_bind]

theorem Stray.assemble_eq : ∀ {thing : Stray}, (∀ leaf ∈ thing.leaves, leaf.Written digits) →
    thing.assemble digits = do forM thing.leaves (Leaf.check digits); pure thing
  | .object _, _ | .text _, _ | .flag _, _ | .nothing, _ => rfl
  | .type _, h => by
    simp only [Stray.assemble, Stray.leaves, TypeExpr.assemble_eq h, bind_assoc, pure_bind]
  | .expr _, h => by
    simp only [Stray.assemble, Stray.leaves, Expr.assemble_eq h, bind_assoc, pure_bind]
  | .decl _, h => by
    simp only [Stray.assemble, Stray.leaves, Decl.assemble_eq h, bind_assoc, pure_bind]
  | .stmt _, h => by
    simp only [Stray.assemble, Stray.leaves, Stmt.assemble_eq h, bind_assoc, pure_bind]
  | .body .., h => by
    obtain ⟨hd, hs⟩ := List.forall_mem_append.1 h
    simp only [Stray.assemble, Stray.leaves, Decl.assembleAll_eq hd, Stmt.assembleAll_eq hs,
      List.forM_append, bind_assoc, pure_bind]
  | .program _, h => by
    simp only [Stray.assemble, Stray.leaves, Decl.assembleAll_eq h, bind_assoc, pure_bind]

end

/-- To put a program together whose numbers are those that are written is to check its leaves, one
after the other. -/
theorem Program.assemble_eq {program : Program} (h : ∀ leaf ∈ program.leaves, leaf.Written digits) :
    program.assemble digits =
      (do forM program.leaves (Leaf.check digits); pure program) := by
  have hdecls := @Decl.assembleAll_eq digits program.decls h
  simp only [Program.assemble, Program.leaves, hdecls, bind_assoc, pure_bind]

end Assemble

end Moo
