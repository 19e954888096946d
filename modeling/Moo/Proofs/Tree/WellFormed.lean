import Moo.Tree.Occurrence

/-!
# Well-formed trees

A tree is well-formed if every place of it holds a thing of the kind that the
place expects: formals are formals, fields and the declarations of a block are
variables, and nothing strays. It is unresolved if no identifier and no field
access of it has a symbol yet. Every tree that was read from a text is both.
-/
namespace Moo

def TypeExpr.WellFormed : TypeExpr → Prop
  | .primitive _ | .struct _ => True
  | .stray _ => False

mutual

def Expr.WellFormed : Expr → Prop
  | .int .. | .str .. | .bool .. | .name _ => True
  | .dot object _ _ => object.WellFormed
  | .assign target value => target.WellFormed ∧ value.WellFormed
  | .call _ args => Expr.WellFormedAll args
  | .unary _ operand => operand.WellFormed
  | .binary _ left right => left.WellFormed ∧ right.WellFormed
  | .strayDot .. | .strayCall .. | .stray _ => False

def Expr.WellFormedAll : List Expr → Prop
  | [] => True
  | expr :: exprs => expr.WellFormed ∧ Expr.WellFormedAll exprs

end

/-- A variable or field of a type. -/
def Decl.IsVariable : Decl → Prop
  | .var type _ => type.WellFormed
  | _ => False

def Decl.IsFormal : Decl → Prop
  | .formal type _ => type.WellFormed
  | _ => False

mutual

def Stmt.WellFormed : Stmt → Prop
  | .assign expr | .increment expr | .decrement expr | .read expr | .write expr | .call expr
  | .returnValue expr => expr.WellFormed
  | .ifThen condition decls stmts | .loop condition decls stmts =>
    condition.WellFormed ∧ (∀ decl ∈ decls, decl.IsVariable) ∧ Stmt.WellFormedAll stmts
  | .ifElse condition thenDecls thenStmts elseDecls elseStmts =>
    condition.WellFormed ∧ ((∀ decl ∈ thenDecls, decl.IsVariable) ∧ Stmt.WellFormedAll thenStmts)
      ∧ (∀ decl ∈ elseDecls, decl.IsVariable) ∧ Stmt.WellFormedAll elseStmts
  | .returnNothing => True
  | .stray _ => False

def Stmt.WellFormedAll : List Stmt → Prop
  | [] => True
  | stmt :: stmts => stmt.WellFormed ∧ Stmt.WellFormedAll stmts

end

/-- A declaration at top level. -/
def Decl.WellFormed : Decl → Prop
  | .var type _ => type.WellFormed
  | .function returns _ formals decls stmts =>
    returns.WellFormed ∧ (∀ formal ∈ formals, formal.IsFormal)
      ∧ (∀ decl ∈ decls, decl.IsVariable) ∧ Stmt.WellFormedAll stmts
  | .struct _ fields => ∀ field ∈ fields, field.IsVariable
  | .formal .. | .stray _ => False

def Program.WellFormed (program : Program) : Prop :=
  ∀ decl ∈ program.decls, decl.WellFormed

/-- None of these occurrences has a symbol. -/
def Unresolved (occurrences : List Occurrence) : Prop :=
  ∀ occurrence ∈ occurrences, occurrence.symbol = none

@[simp]
theorem unresolved_nil : Unresolved [] := by
  simp [Unresolved]

@[simp]
theorem unresolved_cons (occurrence : Occurrence) (rest : List Occurrence) :
    Unresolved (occurrence :: rest) ↔ occurrence.symbol = none ∧ Unresolved rest := by
  simp [Unresolved]

@[simp]
theorem unresolved_append (a b : List Occurrence) :
    Unresolved (a ++ b) ↔ Unresolved a ∧ Unresolved b := by
  simp only [Unresolved, List.mem_append]
  exact ⟨fun h => ⟨fun o ho => h o (.inl ho), fun o ho => h o (.inr ho)⟩,
    fun h o ho => ho.elim (h.1 o) (h.2 o)⟩

/-! ## Names only -/

/-- All of these occurrences are identifiers and field accesses. -/
def Named (occurrences : List Occurrence) : Prop :=
  ∀ symbol, .stray symbol ∉ occurrences

@[simp]
theorem named_nil : Named [] := by
  simp [Named]

@[simp]
theorem named_ident (id : Ident) (rest : List Occurrence) :
    Named (.ident id :: rest) ↔ Named rest := by
  simp [Named]

@[simp]
theorem named_dot (field : Ident) (symbol : Option Symbol) (rest : List Occurrence) :
    Named (.dot field symbol :: rest) ↔ Named rest := by
  simp [Named]

@[simp]
theorem named_append (a b : List Occurrence) : Named (a ++ b) ↔ Named a ∧ Named b := by
  simp [Named, forall_and]

theorem TypeExpr.WellFormed.named {type : TypeExpr} (h : type.WellFormed) :
    Named type.occurrences := by
  cases type with
  | stray => exact h.elim
  | _ => simp [TypeExpr.occurrences]

mutual

theorem Expr.WellFormed.named : ∀ {expr : Expr}, expr.WellFormed → Named expr.occurrences
  | .int .., _ | .str .., _ | .bool .., _ | .name _, _ => by simp [Expr.occurrences]
  | .dot object _ _, h => by
    have hobject : object.WellFormed := h
    simp [Expr.occurrences, hobject.named]
  | .assign _ _, ⟨hl, hr⟩ | .binary _ _ _, ⟨hl, hr⟩ => by
    simp [Expr.occurrences, hl.named, hr.named]
  | .call _ args, h => by
    have hargs : Expr.WellFormedAll args := h
    simp [Expr.occurrences, hargs.named]
  | .unary _ operand, h => by
    have hoperand : operand.WellFormed := h
    exact hoperand.named

theorem Expr.WellFormedAll.named : ∀ {exprs : List Expr}, Expr.WellFormedAll exprs →
    Named (Expr.occurrencesAll exprs)
  | [], _ => named_nil
  | _ :: _, ⟨he, hes⟩ => (named_append _ _).2 ⟨he.named, hes.named⟩

end

/-- Variables and formals. -/
theorem Decl.named_variables {decls : List Decl}
    (h : ∀ decl ∈ decls, decl.IsVariable ∨ decl.IsFormal) : Named (Decl.occurrencesAll decls) := by
  induction decls with
  | nil => exact named_nil
  | cons decl decls ih =>
    obtain ⟨hd, hds⟩ := List.forall_mem_cons.1 h
    refine (named_append _ _).2 ⟨?_, ih hds⟩
    cases decl with
    | var type id | formal type id =>
      have htype : type.WellFormed := by simpa [Decl.IsVariable, Decl.IsFormal] using hd
      simp [Decl.occurrences, htype.named]
    | _ => simp [Decl.IsVariable, Decl.IsFormal] at hd

mutual

theorem Stmt.WellFormed.named : ∀ {stmt : Stmt}, stmt.WellFormed → Named stmt.occurrences
  | .assign expr, h | .increment expr, h | .decrement expr, h | .read expr, h | .write expr, h
  | .call expr, h | .returnValue expr, h => @Expr.WellFormed.named expr h
  | .ifThen .., ⟨hc, hd, hs⟩ | .loop .., ⟨hc, hd, hs⟩ => by
    simp [Stmt.occurrences, hc.named, Decl.named_variables fun d hm => .inl (hd d hm), hs.named]
  | .ifElse .., ⟨hc, ⟨hd, hs⟩, hd', hs'⟩ => by
    simp [Stmt.occurrences, hc.named, Decl.named_variables fun d hm => .inl (hd d hm), hs.named,
      Decl.named_variables fun d hm => .inl (hd' d hm), hs'.named]
  | .returnNothing, _ => named_nil

theorem Stmt.WellFormedAll.named : ∀ {stmts : List Stmt}, Stmt.WellFormedAll stmts →
    Named (Stmt.occurrencesAll stmts)
  | [], _ => named_nil
  | _ :: _, ⟨hs, hss⟩ => (named_append _ _).2 ⟨hs.named, hss.named⟩

end

theorem Decl.WellFormed.named {decl : Decl} (h : decl.WellFormed) : Named decl.occurrences := by
  cases decl with
  | var type id =>
    have htype : type.WellFormed := h
    simp [Decl.occurrences, htype.named]
  | function returns id formals decls stmts =>
    obtain ⟨hr, hf, hd, hs⟩ := h
    simp [Decl.occurrences, hr.named, Decl.named_variables fun d hm => .inr (hf d hm),
      Decl.named_variables fun d hm => .inl (hd d hm), hs.named]
  | struct tag fields =>
    simp [Decl.occurrences, Decl.named_variables fun d hm => .inl (h d hm)]
  | formal | stray => exact h.elim

/-- In a well-formed program nothing but names has a place for a symbol. -/
theorem Program.WellFormed.named {program : Program} (h : program.WellFormed) :
    Named program.occurrences := by
  obtain ⟨decls⟩ := program
  have hall : ∀ decl ∈ decls, decl.WellFormed := h
  clear h
  show Named (Decl.occurrencesAll decls)
  induction decls with
  | nil => exact named_nil
  | cons decl decls ih =>
    obtain ⟨hd, hds⟩ := List.forall_mem_cons.1 hall
    exact (named_append _ _).2 ⟨hd.named, ih hds⟩

end Moo
