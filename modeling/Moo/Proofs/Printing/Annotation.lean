import Moo.Printer

/-!
# Annotations are part of names

To print a tree with annotations is to print another tree without: the one
where each name that is used and has a symbol is longer by the annotation.
The layout, the parentheses and the ways to fail are those of plain printing,
for any tree, whatever of it has symbols and whatever stands where it does
not belong, with one exception. A callee or a field that is no identifier is
asked for its symbol before it is asked for its name, and most things have no
place for a symbol. If printing with annotations comes to one of these before
it fails at anything else, then it fails there, while plain printing may go
on: a type has a name.

* `Program.annotated`: the tree with the longer names. A name is used where
  it is an expression, a field behind a dot or a callee; names that are
  declared and the tags of struct types stay.
* `Program.obstacles`: all that printing fails at in either way, in the order
  in which it comes to them.
* `PrintsAs`: how the two ways to print compare; a sequence of two steps
  compares as the steps do (`PrintsAs.bind`).
* `Expr.print_annotated`, `Decl.lines_annotated`, `Stmt.lines_annotated`: the
  parts of a program.
* `print_with_annotations`: a whole program; `callsType_unmarked`: one that
  prints without annotations only.
-/
namespace Moo

/-! ## The longer names -/

/-- A used name with the type of its symbol. -/
def Ident.annotated (id : Ident) : Ident :=
  match id.symbol with
  | some symbol => { id with name := id.name ++ "(" ++ symbol.typeName ++ ")" }
  | none => id

/-- A called name: that of a function has its signature behind the type. -/
def Ident.annotatedCallee (id : Ident) : Ident :=
  match id.symbol with
  | some (.function origin returns params) =>
    { id with
      name := id.annotated.name ++ "(" ++ (Symbol.function origin returns params).text ++ ")" }
  | _ => id.annotated

/-- A thing in the place of an identifier, with the name that an identifier of its name and symbol
would be given. -/
def Stray.decorated (longer : Ident → Ident) (given : Option Symbol) : Stray → Stray
  | .type (.primitive name) => .type (.primitive (longer ⟨name, none, given⟩).name)
  | .type (.struct tag) =>
    .type (.struct { tag with name := (longer ⟨tag.name, none, given⟩).name })
  | thing => thing

mutual

def TypeExpr.annotated : TypeExpr → TypeExpr
  | .primitive name => .primitive name
  | .struct tag => .struct tag
  | .stray thing => .stray thing.annotated

def Expr.annotated : Expr → Expr
  | .int value loc => .int value loc
  | .str text loc => .str text loc
  | .bool value loc => .bool value loc
  | .name id => .name id.annotated
  | .dot object field symbol => .dot object.annotated field.annotated symbol
  | .assign target value => .assign target.annotated value.annotated
  | .call callee args => .call callee.annotatedCallee (Expr.annotatedAll args)
  | .unary op operand => .unary op operand.annotated
  | .binary op left right => .binary op left.annotated right.annotated
  | .strayDot object field given symbol =>
    .strayDot object.annotated (field.annotated.decorated Ident.annotated given) given symbol
  | .strayCall callee given args =>
    .strayCall (callee.annotated.decorated Ident.annotatedCallee given) given
      (Expr.annotatedAll args)
  | .stray thing => .stray thing.annotated

def Expr.annotatedAll : List Expr → List Expr
  | [] => []
  | expr :: exprs => expr.annotated :: Expr.annotatedAll exprs

def Decl.annotated : Decl → Decl
  | .var type id => .var type.annotated id
  | .formal type id => .formal type.annotated id
  | .function returns id formals decls stmts =>
    .function returns.annotated id (Decl.annotatedAll formals) (Decl.annotatedAll decls)
      (Stmt.annotatedAll stmts)
  | .struct tag fields => .struct tag (Decl.annotatedAll fields)
  | .stray thing => .stray thing.annotated

def Decl.annotatedAll : List Decl → List Decl
  | [] => []
  | decl :: decls => decl.annotated :: Decl.annotatedAll decls

def Stmt.annotated : Stmt → Stmt
  | .assign assignment => .assign assignment.annotated
  | .increment target => .increment target.annotated
  | .decrement target => .decrement target.annotated
  | .read target => .read target.annotated
  | .write value => .write value.annotated
  | .ifThen condition decls stmts =>
    .ifThen condition.annotated (Decl.annotatedAll decls) (Stmt.annotatedAll stmts)
  | .ifElse condition thenDecls thenStmts elseDecls elseStmts =>
    .ifElse condition.annotated (Decl.annotatedAll thenDecls) (Stmt.annotatedAll thenStmts)
      (Decl.annotatedAll elseDecls) (Stmt.annotatedAll elseStmts)
  | .loop condition decls stmts =>
    .loop condition.annotated (Decl.annotatedAll decls) (Stmt.annotatedAll stmts)
  | .call call => .call call.annotated
  | .returnNothing => .returnNothing
  | .returnValue value => .returnValue value.annotated
  | .stray thing => .stray thing.annotated

def Stmt.annotatedAll : List Stmt → List Stmt
  | [] => []
  | stmt :: stmts => stmt.annotated :: Stmt.annotatedAll stmts

def Stray.annotated : Stray → Stray
  | .object kind => .object kind
  | .text value => .text value
  | .flag value => .flag value
  | .nothing => .nothing
  | .type type => .type type.annotated
  | .expr expr => .expr expr.annotated
  | .decl decl => .decl decl.annotated
  | .stmt stmt => .stmt stmt.annotated
  | .body decls stmts => .body (Decl.annotatedAll decls) (Stmt.annotatedAll stmts)
  | .program decls => .program (Decl.annotatedAll decls)

end

def Program.annotated (program : Program) : Program :=
  ⟨Decl.annotatedAll program.decls⟩

/-! ## The kinds of nodes stay -/

mutual

@[simp]
theorem TypeExpr.kind_annotated : ∀ t : TypeExpr, t.annotated.kind = t.kind
  | .primitive _ | .struct _ => by simp only [TypeExpr.annotated]
  | .stray thing => by simp only [TypeExpr.annotated, TypeExpr.kind, thing.kind_annotated]

@[simp]
theorem Expr.kind_annotated : ∀ e : Expr, e.annotated.kind = e.kind
  | .int .. | .str .. | .bool .. | .name _ | .dot .. | .assign .. | .call .. | .unary ..
  | .binary .. | .strayDot .. | .strayCall .. => by simp only [Expr.annotated, Expr.kind]
  | .stray thing => by simp only [Expr.annotated, Expr.kind, thing.kind_annotated]

@[simp]
theorem Decl.kind_annotated : ∀ d : Decl, d.annotated.kind = d.kind
  | .var .. | .formal .. | .function .. | .struct .. => by simp only [Decl.annotated, Decl.kind]
  | .stray thing => by simp only [Decl.annotated, Decl.kind, thing.kind_annotated]

@[simp]
theorem Stmt.kind_annotated : ∀ s : Stmt, s.annotated.kind = s.kind
  | .assign _ | .increment _ | .decrement _ | .read _ | .write _ | .ifThen .. | .ifElse ..
  | .loop .. | .call _ | .returnNothing | .returnValue _ => by
    simp only [Stmt.annotated, Stmt.kind]
  | .stray thing => by simp only [Stmt.annotated, Stmt.kind, thing.kind_annotated]

@[simp]
theorem Stray.kind_annotated : ∀ thing : Stray, thing.annotated.kind = thing.kind
  | .object _ | .text _ | .flag _ | .nothing | .body .. | .program _ => by
    simp only [Stray.annotated, Stray.kind]
  | .type t => by simp only [Stray.annotated, Stray.kind, t.kind_annotated]
  | .expr e => by simp only [Stray.annotated, Stray.kind, e.kind_annotated]
  | .decl d => by simp only [Stray.annotated, Stray.kind, d.kind_annotated]
  | .stmt s => by simp only [Stray.annotated, Stray.kind, s.kind_annotated]

end

@[simp]
theorem Stray.name_annotated (thing : Stray) : thing.annotated.name = thing.name := by
  match thing with
  | .type (.primitive _) | .type (.struct _) => rfl
  | .type (.stray _) | .expr _ | .decl _ | .stmt _ =>
    simp [Stray.annotated, TypeExpr.annotated, Stray.name, Stray.kind, TypeExpr.kind]
  | .object _ | .text _ | .flag _ | .nothing | .body .. | .program _ => rfl

theorem Stray.name_decorated (longer : Ident → Ident) (given : Option Symbol) (thing : Stray) :
    (thing.decorated longer given).name =
      (fun name => (longer ⟨name, none, given⟩).name) <$> thing.name := by
  match thing with
  | .type (.primitive _) | .type (.struct _) | .type (.stray _) => rfl
  | .expr _ | .decl _ | .stmt _ => rfl
  | .object _ | .text _ | .flag _ | .nothing | .body .. | .program _ => rfl

/-! ## Where printing fails -/

/-- Where printing comes to something that it cannot print. -/
inductive Obstacle
  /-- What fails with annotations and without. -/
  | fault (fault : Fault)
  /-- What is asked for a symbol, with annotations, and has no place for one. -/
  | unmarked (thing : Stray)

/-- The failure of a step that is the same with annotations and without. -/
def obstaclesOf {α : Type} : Except Fault α → List Obstacle
  | .ok _ => []
  | .error fault => [.fault fault]

/-- Something in the place of an identifier: it needs a symbol with annotations, and a name. -/
def Stray.obstacles (given : Option Symbol) (thing : Stray) : List Obstacle :=
  (if thing.hasSymbol given then [] else [.unmarked thing]) ++ obstaclesOf thing.name

mutual

def Expr.obstacles : Expr → List Obstacle
  | .int .. | .str .. | .bool .. | .name _ => []
  | .dot object _ _ => object.obstacles
  | .assign target value => target.obstacles ++ value.obstacles
  | .call _ args => Expr.obstaclesAll args
  | .unary _ operand => operand.obstacles
  | .binary _ left right => left.obstacles ++ right.obstacles
  | .strayDot object field given _ => object.obstacles ++ field.obstacles given
  | .strayCall callee given args => Expr.obstaclesAll args ++ callee.obstacles given
  | .stray thing => [.fault (.unprintable .expression thing.kind)]

def Expr.obstaclesAll : List Expr → List Obstacle
  | [] => []
  | expr :: exprs => expr.obstacles ++ Expr.obstaclesAll exprs

end

/-- An assignment that is a statement. -/
def Expr.assignmentObstacles : Expr → List Obstacle
  | .assign target value => target.obstacles ++ value.obstacles
  | expr => [.fault (.lacks expr.kind "lhs")]

mutual

def Decl.obstacles : Decl → List Obstacle
  | .var type _ => obstaclesOf type.print
  | .function returns _ formals decls stmts =>
    obstaclesOf (formals.mapM Decl.printFormal) ++ (obstaclesOf returns.print ++
      (Decl.obstaclesAll decls ++ Stmt.obstaclesAll stmts))
  | .struct _ fields => Decl.obstaclesAll fields
  | .formal type id => [.fault (.unprintable .declaration (Decl.formal type id).kind)]
  | .stray thing => [.fault (.unprintable .declaration thing.kind)]

def Decl.obstaclesAll : List Decl → List Obstacle
  | [] => []
  | decl :: decls => decl.obstacles ++ Decl.obstaclesAll decls

def Stmt.obstacles : Stmt → List Obstacle
  | .assign assignment => assignment.assignmentObstacles
  | .increment expr | .decrement expr | .read expr | .write expr | .call expr
  | .returnValue expr => expr.obstacles
  | .ifThen condition decls stmts | .loop condition decls stmts =>
    condition.obstacles ++ (Decl.obstaclesAll decls ++ Stmt.obstaclesAll stmts)
  | .ifElse condition thenDecls thenStmts elseDecls elseStmts =>
    condition.obstacles ++ (Decl.obstaclesAll thenDecls ++ (Stmt.obstaclesAll thenStmts ++
      (Decl.obstaclesAll elseDecls ++ Stmt.obstaclesAll elseStmts)))
  | .returnNothing => []
  | .stray thing => [.fault (.unprintable .statement thing.kind)]

def Stmt.obstaclesAll : List Stmt → List Obstacle
  | [] => []
  | stmt :: stmts => stmt.obstacles ++ Stmt.obstaclesAll stmts

end

/-- The obstacles in a program, in the order in which printing comes to them. -/
def Program.obstacles (program : Program) : List Obstacle :=
  Decl.obstaclesAll program.decls

/-- What comes out unless the first obstacle is one to annotations only. -/
def unlessUnmarked {α : Type} (obstacles : List Obstacle) (plain : Except Fault α) :
    Except Fault α :=
  match obstacles with
  | .unmarked thing :: _ => .error (.lacks thing.kind "symbol")
  | _ => plain

/-- What printing with annotations comes to, by what plain printing of another tree comes to: the
same text, if there are no obstacles; the same fault, if the first one is an obstacle to both; and
if the first one is unmarked its fault, whatever plain printing comes to. -/
inductive PrintsAs {α : Type} : List Obstacle → Except Fault α → Except Fault α → Prop
  | text (a : α) : PrintsAs [] (.ok a) (.ok a)
  | fault (fault : Fault) (others : List Obstacle) :
    PrintsAs (.fault fault :: others) (.error fault) (.error fault)
  | unmarked (thing : Stray) (others : List Obstacle) (plain : Except Fault α) :
    PrintsAs (.unmarked thing :: others) (.error (.lacks thing.kind "symbol")) plain

namespace PrintsAs

variable {α β : Type} {os ps : List Obstacle} {x x' : Except Fault α} {f f' : α → Except Fault β}

theorem bind (h : PrintsAs os x x') (hf : ∀ a, PrintsAs ps (f a) (f' a)) :
    PrintsAs (os ++ ps) (x >>= f) (x' >>= f') := by
  cases h with
  | text a => exact hf a
  | fault fault others => exact .fault fault (others ++ ps)
  | unmarked thing others => exact .unmarked thing (others ++ ps) (x' >>= f')

/-- A step that is the same in both ways to print. -/
theorem same (x : Except Fault α) : PrintsAs (obstaclesOf x) x x := by
  cases x with
  | ok a => exact .text a
  | error fault => exact .fault fault []

/-- The last step, after which the text is put together. -/
theorem map (h : PrintsAs os x x') (g : α → β) :
    PrintsAs os (x >>= fun a => .ok (g a)) (x' >>= fun a => .ok (g a)) := by
  simpa using h.bind fun a => .text (g a)

theorem eq (h : PrintsAs os x x') : x = unlessUnmarked os x' := by
  cases h <;> rfl

end PrintsAs

/-! ## Printing -/

theorem Ident.use_annotated (id : Ident) : id.use true = id.annotated.name := by
  obtain ⟨name, loc, symbol⟩ := id
  cases symbol <;> rfl

theorem Ident.callee_annotated (id : Ident) : id.callee true = id.annotatedCallee.name := by
  obtain ⟨name, loc, symbol⟩ := id
  match symbol with
  | none => rfl
  | some (.function ..) => rfl
  | some (.value ..) => rfl
  | some (.structType _) => rfl
  | some (.structValue ..) => rfl

/-- Behind the name of a function that is called stand its return type and its signature. -/
example : Ident.callee true ⟨"f", none, some (.function (.top 0) "int" ["int", "bool"])⟩ =
    "f(int)(int,bool->int)" := by
  decide +kernel

@[simp]
theorem Ident.use_false (id : Ident) : id.use false = id.name := rfl

@[simp]
theorem Ident.callee_false (id : Ident) : id.callee false = id.name := rfl

theorem Stray.printedName_annotated (longer : Ident → Ident) (given : Option Symbol)
    (thing : Stray) :
    PrintsAs (thing.obstacles given)
      ((fun name => (longer ⟨name, none, given⟩).name) <$> thing.printedName true given)
      ((thing.annotated.decorated longer given).printedName false given) := by
  have hname : (thing.annotated.decorated longer given).printedName false given =
      (fun name => (longer ⟨name, none, given⟩).name) <$> thing.name := by
    rw [← thing.name_annotated, ← name_decorated]
    rfl
  rw [hname, Stray.obstacles, Stray.printedName]
  cases hmark : thing.hasSymbol given with
  | false => exact .unmarked thing _ _
  | true =>
    cases thing.name with
    | ok name => exact .text (longer ⟨name, none, given⟩).name
    | error fault => exact .fault fault []

@[simp]
theorem TypeExpr.print_annotated (t : TypeExpr) : t.annotated.print = t.print := by
  cases t <;> simp [TypeExpr.annotated, TypeExpr.print]

@[simp]
theorem Decl.printFormal_annotated (d : Decl) : d.annotated.printFormal = d.printFormal := by
  cases d <;> simp [Decl.annotated, Decl.printFormal, Decl.kind]

@[simp]
theorem Decl.printFormals_annotated (ds : List Decl) :
    (Decl.annotatedAll ds).mapM Decl.printFormal = ds.mapM Decl.printFormal := by
  induction ds with
  | nil => rfl
  | cons d ds ih => simp [Decl.annotatedAll, ih]

mutual

theorem Expr.print_annotated : ∀ e : Expr,
    PrintsAs e.obstacles (e.print true) (e.annotated.print false)
  | .int .. | .str .. | .bool .. => .text _
  | .name id => by
    rw [Expr.print, id.use_annotated]
    exact .text id.annotated.name
  | .stray thing => by
    simp only [Expr.annotated, Expr.print, thing.kind_annotated]
    exact .fault _ []
  | .dot object field _ => by
    simp only [Expr.annotated, Expr.print, field.use_annotated, Ident.use_false]
    exact object.print_annotated.map _
  | .assign target value | .binary _ target value => by
    simp only [Expr.annotated, Expr.print]
    exact target.print_annotated.bind fun _ => value.print_annotated.map _
  | .call callee args => by
    simp only [Expr.annotated, Expr.print, callee.callee_annotated, Ident.callee_false]
    exact (Expr.printAll_annotated args).map _
  | .unary _ operand => by
    simp only [Expr.annotated, Expr.print]
    exact operand.print_annotated.map _
  | .strayDot object field given _ => by
    have hfield := field.printedName_annotated Ident.annotated given
    simp only [Expr.annotated, Expr.print, Ident.use_annotated, Ident.use_false]
    refine object.print_annotated.bind fun text => ?_
    simpa only [bind_map_left] using hfield.map fun name => "(" ++ text ++ ")." ++ name
  | .strayCall callee given args => by
    have hcallee := callee.printedName_annotated Ident.annotatedCallee given
    simp only [Expr.annotated, Expr.print, Ident.callee_annotated, Ident.callee_false]
    refine (Expr.printAll_annotated args).bind fun texts => ?_
    simpa only [bind_map_left] using
      hcallee.map fun name => name ++ "(" ++ ", ".intercalate texts ++ ")"

theorem Expr.printAll_annotated : ∀ es : List Expr,
    PrintsAs (Expr.obstaclesAll es) (Expr.printAll true es)
      (Expr.printAll false (Expr.annotatedAll es))
  | [] => .text []
  | e :: es => e.print_annotated.bind fun text =>
      (Expr.printAll_annotated es).map fun texts => text :: texts

end

theorem Expr.printAssignment_annotated (e : Expr) :
    PrintsAs e.assignmentObstacles (e.printAssignment true)
      (e.annotated.printAssignment false) := by
  cases e with
  | assign target value =>
    exact target.print_annotated.bind fun left =>
      value.print_annotated.map fun right => left ++ " = " ++ right
  | stray thing =>
    simp only [Expr.annotated, Expr.printAssignment, Expr.kind, thing.kind_annotated]
    exact .fault _ []
  | _ => exact .fault _ []

mutual

theorem Decl.lines_annotated : ∀ (d : Decl) (indent : Nat),
    PrintsAs d.obstacles (d.lines true indent) (d.annotated.lines false indent)
  | .var type id, _ => by
    simp only [Decl.annotated, Decl.lines, type.print_annotated]
    exact (PrintsAs.same type.print).map _
  | .formal .., _ => .fault _ []
  | .function returns id formals decls stmts, indent => by
    simp only [Decl.annotated, Decl.lines, returns.print_annotated, Decl.printFormals_annotated]
    exact (PrintsAs.same (formals.mapM Decl.printFormal)).bind fun _ =>
      (PrintsAs.same returns.print).bind fun _ => (Decl.linesAll_annotated decls _).bind fun _ =>
      (Stmt.linesAll_annotated stmts _).map _
  | .struct _ fields, _ => by
    simp only [Decl.annotated, Decl.lines]
    exact (Decl.linesAll_annotated fields _).map _
  | .stray thing, _ => by
    simp only [Decl.annotated, Decl.lines, thing.kind_annotated]
    exact .fault _ []

theorem Decl.linesAll_annotated : ∀ (ds : List Decl) (indent : Nat),
    PrintsAs (Decl.obstaclesAll ds) (Decl.linesAll true indent ds)
      (Decl.linesAll false indent (Decl.annotatedAll ds))
  | [], _ => .text []
  | d :: ds, indent => (d.lines_annotated indent).bind fun first =>
      (Decl.linesAll_annotated ds indent).map fun others => first ++ others

theorem Stmt.lines_annotated : ∀ (s : Stmt) (indent : Nat),
    PrintsAs s.obstacles (s.lines true indent) (s.annotated.lines false indent)
  | .assign expr, _ => by
    simp only [Stmt.annotated, Stmt.lines]
    exact expr.printAssignment_annotated.map _
  | .increment expr, _ | .decrement expr, _ | .read expr, _ | .write expr, _ | .call expr, _
  | .returnValue expr, _ => by
    simp only [Stmt.annotated, Stmt.lines]
    exact expr.print_annotated.map _
  | .returnNothing, _ => .text _
  | .stray thing, _ => by
    simp only [Stmt.annotated, Stmt.lines, thing.kind_annotated]
    exact .fault _ []
  | .ifThen condition decls stmts, _ | .loop condition decls stmts, _ => by
    simp only [Stmt.annotated, Stmt.lines]
    exact condition.print_annotated.bind fun _ => (Decl.linesAll_annotated decls _).bind fun _ =>
      (Stmt.linesAll_annotated stmts _).map _
  | .ifElse condition thenDecls thenStmts elseDecls elseStmts, _ => by
    simp only [Stmt.annotated, Stmt.lines]
    exact condition.print_annotated.bind fun _ =>
      (Decl.linesAll_annotated thenDecls _).bind fun _ =>
      (Stmt.linesAll_annotated thenStmts _).bind fun _ =>
      (Decl.linesAll_annotated elseDecls _).bind fun _ =>
      (Stmt.linesAll_annotated elseStmts _).map _

theorem Stmt.linesAll_annotated : ∀ (ss : List Stmt) (indent : Nat),
    PrintsAs (Stmt.obstaclesAll ss) (Stmt.linesAll true indent ss)
      (Stmt.linesAll false indent (Stmt.annotatedAll ss))
  | [], _ => .text []
  | s :: ss, indent => (s.lines_annotated indent).bind fun first =>
      (Stmt.linesAll_annotated ss indent).map fun others => first ++ others

end

/-- A program prints with annotations as the program with the longer names prints without, or fails
in the same way, unless the first thing that it fails at is one without a place for a symbol. -/
theorem print_with_annotations (program : Program) :
    program.print true = unlessUnmarked program.obstacles (program.annotated.print false) :=
  ((Decl.linesAll_annotated program.decls 0).map unlines).eq

/-- A function that calls the type `g`. -/
def Program.callsType : Program :=
  ⟨[.function (.primitive "void") ⟨"f", none, none⟩ [] []
    [.call (.strayCall (.type (.primitive "g")) none [])]]⟩

/-- Without annotations the type is printed by its name. With annotations it is asked for a symbol,
and has none. -/
theorem callsType_unmarked :
    Program.callsType.print true = .error (.lacks "PrimitiveType" "symbol") ∧
      Program.callsType.annotated.print false =
        .ok "void f() \x7b\n    g();\n\x7d\n\n" := by
  constructor <;> rfl

end Moo
