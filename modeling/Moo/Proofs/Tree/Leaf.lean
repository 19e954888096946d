import Moo.Proofs.Tree.WellFormed

/-!
# Leaves

The identifiers and literals of a tree, in the order in which the fields of
its nodes come. They are what the tree keeps of the words of a text: all else
in it are kinds of nodes, and operators and types that a keyword or a sign
alone names.

* `Program.WellFormed.leaf`: the identifiers of all occurrences are among the
  leaves, those of the field accesses included.
-/
namespace Moo

inductive Leaf
  | ident (id : Ident)
  | int (value : Int) (loc : Option Loc)
  | str (text : String) (loc : Option Loc)
  | bool (value : Bool) (loc : Option Loc)

def Leaf.loc : Leaf → Option Loc
  | ident id => id.loc
  | int _ loc | str _ loc | bool _ loc => loc

/-- Where an occurrence is said to be: a field access is where its field is. -/
def Occurrence.loc : Occurrence → Option Loc
  | ident id => id.loc
  | dot field _ => field.loc
  | stray _ => none

mutual

def TypeExpr.leaves : TypeExpr → List Leaf
  | .primitive _ => []
  | .struct tag => [.ident tag]
  | .stray thing => thing.leaves

def Expr.leaves : Expr → List Leaf
  | .int value loc => [.int value loc]
  | .str text loc => [.str text loc]
  | .bool value loc => [.bool value loc]
  | .name id => [.ident id]
  | .dot object field _ => object.leaves ++ [.ident field]
  | .assign target value => target.leaves ++ value.leaves
  | .call callee args => .ident callee :: Expr.leavesAll args
  | .unary _ operand => operand.leaves
  | .binary _ left right => left.leaves ++ right.leaves
  | .strayDot object field _ _ => object.leaves ++ field.leaves
  | .strayCall callee _ args => callee.leaves ++ Expr.leavesAll args
  | .stray thing => thing.leaves

def Expr.leavesAll : List Expr → List Leaf
  | [] => []
  | expr :: exprs => expr.leaves ++ Expr.leavesAll exprs

def Decl.leaves : Decl → List Leaf
  | .var type id | .formal type id => type.leaves ++ [.ident id]
  | .function returns id formals decls stmts =>
    returns.leaves ++ .ident id :: Decl.leavesAll formals
      ++ (Decl.leavesAll decls ++ Stmt.leavesAll stmts)
  | .struct tag fields => .ident tag :: Decl.leavesAll fields
  | .stray thing => thing.leaves

def Decl.leavesAll : List Decl → List Leaf
  | [] => []
  | decl :: decls => decl.leaves ++ Decl.leavesAll decls

def Stmt.leaves : Stmt → List Leaf
  | .assign expr | .increment expr | .decrement expr | .read expr | .write expr | .call expr
  | .returnValue expr => expr.leaves
  | .ifThen condition decls stmts | .loop condition decls stmts =>
    condition.leaves ++ (Decl.leavesAll decls ++ Stmt.leavesAll stmts)
  | .ifElse condition thenDecls thenStmts elseDecls elseStmts =>
    condition.leaves ++ (Decl.leavesAll thenDecls ++ Stmt.leavesAll thenStmts)
      ++ (Decl.leavesAll elseDecls ++ Stmt.leavesAll elseStmts)
  | .returnNothing => []
  | .stray thing => thing.leaves

def Stmt.leavesAll : List Stmt → List Leaf
  | [] => []
  | stmt :: stmts => stmt.leaves ++ Stmt.leavesAll stmts

def Stray.leaves : Stray → List Leaf
  | .object _ | .text _ | .flag _ | .nothing => []
  | .type type => type.leaves
  | .expr expr => expr.leaves
  | .decl decl => decl.leaves
  | .stmt stmt => stmt.leaves
  | .body decls stmts => Decl.leavesAll decls ++ Stmt.leavesAll stmts
  | .program decls => Decl.leavesAll decls

end

def Program.leaves (program : Program) : List Leaf :=
  Decl.leavesAll program.decls

@[simp]
theorem Expr.leavesAll_append (es fs : List Expr) :
    Expr.leavesAll (es ++ fs) = Expr.leavesAll es ++ Expr.leavesAll fs := by
  induction es with
  | nil => rfl
  | cons e es ih => simp [Expr.leavesAll, ih]

@[simp]
theorem Decl.leavesAll_append (ds es : List Decl) :
    Decl.leavesAll (ds ++ es) = Decl.leavesAll ds ++ Decl.leavesAll es := by
  induction ds with
  | nil => rfl
  | cons d ds ih => simp [Decl.leavesAll, ih]

@[simp]
theorem Stmt.leavesAll_append (ss ts : List Stmt) :
    Stmt.leavesAll (ss ++ ts) = Stmt.leavesAll ss ++ Stmt.leavesAll ts := by
  induction ss with
  | nil => rfl
  | cons s ss ih => simp [Stmt.leavesAll, ih]

/-! ## Occurrences and leaves -/

variable {o : Occurrence}

theorem TypeExpr.WellFormed.leaf {type : TypeExpr} (h : type.WellFormed)
    (ho : o ∈ type.occurrences) : .ident o.id ∈ type.leaves := by
  cases type with
  | primitive => cases ho
  | struct tag =>
    obtain rfl := List.mem_singleton.1 ho
    exact List.mem_singleton.2 rfl
  | stray => exact h.elim

mutual

theorem Expr.WellFormed.leaf : {expr : Expr} → expr.WellFormed → o ∈ expr.occurrences →
    .ident o.id ∈ expr.leaves
  | .int .., _, ho | .str .., _, ho | .bool .., _, ho => nomatch ho
  | .name id, _, ho => by
    obtain rfl := List.mem_singleton.1 ho
    exact List.mem_singleton.2 rfl
  | .dot object field symbol, h, ho => by
    have hobject : object.WellFormed := h
    simp only [Expr.occurrences, List.cons_append, List.mem_cons, List.mem_append,
      List.not_mem_nil, or_false] at ho
    simp only [Expr.leaves, List.mem_append, List.mem_singleton]
    rcases ho with rfl | ho | rfl
    · exact .inr rfl
    · exact .inl (hobject.leaf ho)
    · exact .inr rfl
  | .assign target value, ⟨ht, hv⟩, ho => by
    simp only [Expr.occurrences, Expr.leaves, List.mem_append] at ho ⊢
    exact ho.imp ht.leaf hv.leaf
  | .call callee args, h, ho => by
    simp only [Expr.occurrences, Expr.leaves, List.mem_cons] at ho ⊢
    exact ho.imp (fun ho => by rw [ho]; rfl) (Expr.WellFormedAll.leaf h)
  | .unary _ operand, h, ho => @Expr.WellFormed.leaf operand h ho
  | .binary _ left right, ⟨hl, hr⟩, ho => by
    simp only [Expr.occurrences, Expr.leaves, List.mem_append] at ho ⊢
    exact ho.imp hl.leaf hr.leaf

theorem Expr.WellFormedAll.leaf : {exprs : List Expr} → Expr.WellFormedAll exprs →
    o ∈ Expr.occurrencesAll exprs → .ident o.id ∈ Expr.leavesAll exprs
  | [], _, ho => nomatch ho
  | _ :: _, ⟨he, hes⟩, ho => by
    simp only [Expr.occurrencesAll, Expr.leavesAll, List.mem_append] at ho ⊢
    exact ho.imp he.leaf hes.leaf

end

theorem Decl.variable_leaf {decl : Decl} (h : decl.IsVariable ∨ decl.IsFormal)
    (ho : o ∈ decl.occurrences) : .ident o.id ∈ decl.leaves := by
  cases decl with
  | var type id | formal type id =>
    have htype : type.WellFormed := by simpa [Decl.IsVariable, Decl.IsFormal] using h
    simp only [Decl.occurrences, Decl.leaves, List.mem_append, List.mem_singleton] at ho ⊢
    exact ho.imp htype.leaf (fun ho => by rw [ho]; rfl)
  | _ => exact (h.elim (fun h => h) fun h => h).elim

theorem Decl.variables_leaf {decls : List Decl}
    (h : ∀ decl ∈ decls, decl.IsVariable ∨ decl.IsFormal) (ho : o ∈ Decl.occurrencesAll decls) :
    .ident o.id ∈ Decl.leavesAll decls := by
  induction decls with
  | nil => cases ho
  | cons decl decls ih =>
    obtain ⟨hd, hds⟩ := List.forall_mem_cons.1 h
    simp only [Decl.occurrencesAll, Decl.leavesAll, List.mem_append] at ho ⊢
    exact ho.imp (Decl.variable_leaf hd) (ih hds)

mutual

theorem Stmt.WellFormed.leaf : {stmt : Stmt} → stmt.WellFormed → o ∈ stmt.occurrences →
    .ident o.id ∈ stmt.leaves
  | .assign expr, h, ho | .increment expr, h, ho | .decrement expr, h, ho | .read expr, h, ho
  | .write expr, h, ho | .call expr, h, ho | .returnValue expr, h, ho =>
    @Expr.WellFormed.leaf o expr h ho
  | .ifThen .., ⟨hc, hd, hs⟩, ho | .loop .., ⟨hc, hd, hs⟩, ho => by
    simp only [Stmt.occurrences, Stmt.leaves, List.mem_append, or_assoc] at ho ⊢
    exact ho.imp hc.leaf <|
      Or.imp (Decl.variables_leaf fun d hm => .inl (hd d hm)) (Stmt.WellFormedAll.leaf hs)
  | .ifElse .., ⟨hc, ⟨htd, hts⟩, hed, hes⟩, ho => by
    simp only [Stmt.occurrences, Stmt.leaves, List.mem_append, or_assoc] at ho ⊢
    exact ho.imp hc.leaf <|
      Or.imp (Decl.variables_leaf fun d hm => .inl (htd d hm)) <|
      Or.imp (Stmt.WellFormedAll.leaf hts) <|
      Or.imp (Decl.variables_leaf fun d hm => .inl (hed d hm)) (Stmt.WellFormedAll.leaf hes)
  | .returnNothing, _, ho => nomatch ho

theorem Stmt.WellFormedAll.leaf : {stmts : List Stmt} → Stmt.WellFormedAll stmts →
    o ∈ Stmt.occurrencesAll stmts → .ident o.id ∈ Stmt.leavesAll stmts
  | [], _, ho => nomatch ho
  | _ :: _, ⟨hs, hss⟩, ho => by
    simp only [Stmt.occurrencesAll, Stmt.leavesAll, List.mem_append] at ho ⊢
    exact ho.imp hs.leaf hss.leaf

end

theorem Decl.WellFormed.leaf {decl : Decl} (h : decl.WellFormed) (ho : o ∈ decl.occurrences) :
    .ident o.id ∈ decl.leaves := by
  cases decl with
  | var type id =>
    have hvar : (Decl.var type id).IsVariable := h
    exact Decl.variable_leaf (.inl hvar) ho
  | function returns id formals decls stmts =>
    obtain ⟨hr, hf, hd, hs⟩ := h
    simp only [Decl.occurrences, Decl.leaves, List.mem_append, List.mem_cons, or_assoc] at ho ⊢
    exact ho.imp hr.leaf <| Or.imp (fun ho => by rw [ho]; rfl) <|
      Or.imp (Decl.variables_leaf fun f hm => .inr (hf f hm)) <|
      Or.imp (Decl.variables_leaf fun d hm => .inl (hd d hm)) (Stmt.WellFormedAll.leaf hs)
  | struct tag fields =>
    simp only [Decl.occurrences, Decl.leaves, List.mem_cons] at ho ⊢
    exact ho.imp (fun ho => by rw [ho]; rfl) (Decl.variables_leaf fun f hm => .inl (h f hm))
  | _ => exact h.elim

/-- The identifier of every occurrence in a well-formed program, and the field of every field access,
is a leaf. -/
theorem Program.WellFormed.leaf {program : Program} (h : program.WellFormed)
    (ho : o ∈ program.occurrences) : .ident o.id ∈ program.leaves := by
  obtain ⟨decls⟩ := program
  have hdecls : ∀ decl ∈ decls, decl.WellFormed := h
  replace ho : o ∈ Decl.occurrencesAll decls := ho
  show Leaf.ident o.id ∈ Decl.leavesAll decls
  clear h
  induction decls with
  | nil => cases ho
  | cons decl decls ih =>
    obtain ⟨hd, hds⟩ := List.forall_mem_cons.1 hdecls
    simp only [Decl.occurrencesAll, Decl.leavesAll, List.mem_append] at ho ⊢
    exact ho.imp hd.leaf (ih hds)

end Moo
