import Mathlib.Data.List.Forall2
import Moo.Printer
import Moo.Terminal

/-!
# Printed trees in front of a text

Printing puts texts together from their parts, and lines. Here the same
characters are written in front of whatever follows, so what stands behind a
part is in sight where the part is. Nothing is annotated.

* `Expr.print_chars`, `Decl.lines_chars`: both are the same text.
* `Program.print_chars`: for whole programs.
-/
namespace Moo

/-! ## Writing -/

/-- Items, each behind a comma and a blank. -/
def behindCommas {α : Type} (chars : α → List Char → List Char) : List α → List Char → List Char
  | [], rest => rest
  | item :: items, rest => ',' :: ' ' :: chars item (behindCommas chars items rest)

/-- Items with a comma and a blank between them. -/
def betweenCommas {α : Type} (chars : α → List Char → List Char) : List α → List Char → List Char
  | [], rest => rest
  | item :: items, rest => chars item (behindCommas chars items rest)

/-- The name of something in the place of an identifier. -/
def Stray.chars (thing : Stray) (rest : List Char) : List Char :=
  match thing.name with
  | .ok name => name.toList ++ rest
  | .error _ => rest

mutual

def Expr.chars : Expr → List Char → List Char
  | .int value _, rest => (toString value).toList ++ rest
  | .str text _, rest => text.toList ++ rest
  | .bool value _, rest => (if value then "true" else "false").toList ++ rest
  | .name id, rest => id.name.toList ++ rest
  | .dot object field _, rest => '(' :: object.chars (')' :: '.' :: (field.name.toList ++ rest))
  | .assign target value, rest =>
    '(' :: target.chars (' ' :: '=' :: ' ' :: value.chars (')' :: rest))
  | .call callee args, rest => callee.name.toList ++ '(' :: Expr.argChars args (')' :: rest)
  | .unary op operand, rest => '(' :: (op.toList ++ operand.chars (')' :: rest))
  | .binary op left right, rest =>
    '(' :: left.chars (' ' :: (op.toList ++ ' ' :: right.chars (')' :: rest)))
  | .strayDot object field _ _, rest => '(' :: object.chars (')' :: '.' :: field.chars rest)
  | .strayCall callee _ args, rest => callee.chars ('(' :: Expr.argChars args (')' :: rest))
  | .stray _, rest => rest

def Expr.argChars : List Expr → List Char → List Char
  | [], rest => rest
  | expr :: exprs, rest => expr.chars (Expr.moreArgChars exprs rest)

/-- Arguments behind another one. -/
def Expr.moreArgChars : List Expr → List Char → List Char
  | [], rest => rest
  | expr :: exprs, rest => ',' :: ' ' :: expr.chars (Expr.moreArgChars exprs rest)

end

def TypeExpr.chars : TypeExpr → List Char → List Char
  | .primitive name, rest => name.toList ++ rest
  | .struct tag, rest => Fixed.struct.spelling.toList ++ ' ' :: (tag.name.toList ++ rest)
  | .stray _, rest => rest

/-- A type and a name. -/
def Decl.namedChars : Decl → List Char → List Char
  | .var type id, rest | .formal type id, rest => type.chars (' ' :: (id.name.toList ++ rest))
  | _, rest => rest

/-- So many blanks. -/
def indented (indent : Nat) (rest : List Char) : List Char :=
  List.replicate indent ' ' ++ rest

/-- The type that a declaration starts with. -/
def Decl.lead : Decl → TypeExpr
  | .var type _ | .formal type _ | .function type .. => type
  | .struct tag _ => .struct tag
  | .stray thing => .stray thing

/-- A keyword, taken for a name. -/
def Fixed.named (f : Fixed) : Expr :=
  .name ⟨f.spelling, none, none⟩

/-- What a statement starts with: a target, the name of a function or a keyword. -/
def Stmt.lead : Stmt → Expr
  | .assign (.assign target _) | .increment target | .decrement target => target
  | .call (.call callee _) => .name callee
  | .read _ => Fixed.cin.named
  | .write _ => Fixed.cout.named
  | .ifThen .. | .ifElse .. => Fixed.ifWord.named
  | .loop .. => Fixed.whileWord.named
  | .returnNothing | .returnValue _ => Fixed.returnWord.named
  | .assign expr | .call expr => expr
  | .stray thing => .stray thing

/-- A condition in parentheses, and the block behind it. -/
def guarded (condition : Expr) (block : List Char) : List Char :=
  ' ' :: '(' :: condition.chars (')' :: ' ' :: '\x7b' :: '\n' :: block)

/-- The line that opens the other block of an `if`, and the block. -/
def otherwise (indent : Nat) (block : List Char) : List Char :=
  indented indent (Fixed.elseWord.named.chars (' ' :: '\x7b' :: '\n' :: block))

mutual

/-- What stands behind the lead of a declaration and a blank. -/
def Decl.behind (indent : Nat) : Decl → List Char → List Char
  | .var _ id, rest => id.name.toList ++ ';' :: '\n' :: rest
  | .function _ id formals decls stmts, rest =>
    id.name.toList ++ '(' :: betweenCommas Decl.namedChars formals (')' :: ' ' :: '\x7b' :: '\n' ::
      (Decl.charsAll (indent + indentStep) decls <| Stmt.charsAll (indent + indentStep) stmts <|
        indented indent ('\x7d' :: '\n' :: '\n' :: rest)))
  | .struct _ fields, rest => '\x7b' :: '\n' :: (Decl.charsAll (indent + indentStep) fields <|
      indented indent ('\x7d' :: ';' :: '\n' :: '\n' :: rest))
  | .formal .., rest | .stray _, rest => rest

def Decl.charsAll (indent : Nat) : List Decl → List Char → List Char
  | [], rest => rest
  | decl :: decls, rest => indented indent <| decl.lead.chars <| ' ' ::
      decl.behind indent (Decl.charsAll indent decls rest)

/-- What stands behind the lead of a statement. -/
def Stmt.behind (indent : Nat) : Stmt → List Char → List Char
  | .assign (.assign _ value), rest => ' ' :: '=' :: ' ' :: value.chars (';' :: '\n' :: rest)
  | .increment _, rest => '+' :: '+' :: ';' :: '\n' :: rest
  | .decrement _, rest => '-' :: '-' :: ';' :: '\n' :: rest
  | .read target, rest => ' ' :: '>' :: '>' :: ' ' :: target.chars (';' :: '\n' :: rest)
  | .write value, rest => ' ' :: '<' :: '<' :: ' ' :: value.chars (';' :: '\n' :: rest)
  | .ifThen condition decls stmts, rest | .loop condition decls stmts, rest =>
    guarded condition <| Decl.charsAll (indent + indentStep) decls <|
      Stmt.charsAll (indent + indentStep) stmts <| indented indent ('\x7d' :: '\n' :: rest)
  | .ifElse condition thenDecls thenStmts elseDecls elseStmts, rest =>
    guarded condition <| Decl.charsAll (indent + indentStep) thenDecls <|
      Stmt.charsAll (indent + indentStep) thenStmts <| indented indent <| '\x7d' :: '\n' ::
        otherwise indent (Decl.charsAll (indent + indentStep) elseDecls <|
          Stmt.charsAll (indent + indentStep) elseStmts <| indented indent ('\x7d' :: '\n' :: rest))
  | .call (.call _ args), rest =>
    '(' :: betweenCommas Expr.chars args (')' :: ';' :: '\n' :: rest)
  | .call _, rest | .returnNothing, rest => ';' :: '\n' :: rest
  | .returnValue value, rest => ' ' :: value.chars (';' :: '\n' :: rest)
  | .assign _, rest | .stray _, rest => rest

def Stmt.charsAll (indent : Nat) : List Stmt → List Char → List Char
  | [], rest => rest
  | stmt :: stmts, rest =>
    indented indent (stmt.lead.chars (stmt.behind indent (Stmt.charsAll indent stmts rest)))

end

def Decl.chars (indent : Nat) (decl : Decl) (rest : List Char) : List Char :=
  indented indent (decl.lead.chars (' ' :: decl.behind indent rest))

def Stmt.chars (indent : Nat) (stmt : Stmt) (rest : List Char) : List Char :=
  indented indent (stmt.lead.chars (stmt.behind indent rest))

/-! ## Printing is writing -/

theorem bind_eq_ok {α β : Type} {x : Except Fault α} {f : α → Except Fault β} {b : β} :
    (x >>= f) = .ok b ↔ ∃ a, x = .ok a ∧ f a = .ok b := by
  cases x <;> simp [bind, Except.bind]

theorem toList_commas (text : String) (texts : List String) :
    (", ".intercalate (text :: texts)).toList =
      text.toList ++ texts.flatMap fun next => ',' :: ' ' :: next.toList := by
  induction texts generalizing text with
  | nil => simp
  | cons next texts ih => simp [String.intercalate_cons_cons, ih]

theorem betweenCommas_eq {α : Type} {chars : α → List Char → List Char} {items : List α}
    {texts : List String}
    (h : List.Forall₂ (fun item text => ∀ rest, chars item rest = text.toList ++ rest) items texts)
    (rest : List Char) :
    betweenCommas chars items rest = (", ".intercalate texts).toList ++ rest := by
  have hmore {items : List α} {texts : List String}
      (h : List.Forall₂ (fun item text => ∀ rest, chars item rest = text.toList ++ rest)
        items texts) :
      behindCommas chars items rest =
        (texts.flatMap fun next => ',' :: ' ' :: next.toList) ++ rest := by
    induction h with
    | nil => rfl
    | cons hitem _ ih => simp [behindCommas, hitem, ih]
  cases h with
  | nil => rfl
  | cons hitem hitems => rw [betweenCommas, hitem, hmore hitems, toList_commas, List.append_assoc]

theorem Expr.moreArgChars_eq (exprs : List Expr) (rest : List Char) :
    Expr.moreArgChars exprs rest = behindCommas Expr.chars exprs rest := by
  induction exprs with
  | nil => rfl
  | cons expr exprs ih => rw [Expr.moreArgChars, ih, behindCommas]

theorem Expr.argChars_eq (exprs : List Expr) (rest : List Char) :
    Expr.argChars exprs rest = betweenCommas Expr.chars exprs rest := by
  cases exprs with
  | nil => rfl
  | cons expr exprs => rw [Expr.argChars, Expr.moreArgChars_eq, betweenCommas]

theorem Stray.printedName_chars {thing : Stray} {given : Option Symbol} {name : String}
    (h : thing.printedName false given = .ok name) (rest : List Char) :
    thing.chars rest = name.toList ++ rest := by
  have hname : thing.name = .ok name := h
  rw [Stray.chars, hname]

mutual

theorem Expr.print_chars : ∀ {expr : Expr} {text : String}, expr.print false = .ok text →
    ∀ rest, expr.chars rest = text.toList ++ rest
  | .int .., _, h, _ | .str .., _, h, _ | .bool .., _, h, _ | .name _, _, h, _ => by
    cases h
    rfl
  | .stray _, _, h, _ => by cases h
  | .dot object field _, _, h, rest => by
    simp only [Expr.print, bind_eq_ok] at h
    obtain ⟨text, hobject, h⟩ := h
    cases h
    simp [Expr.chars, Expr.print_chars hobject, Ident.use]
  | .assign target value, _, h, rest => by
    simp only [Expr.print, bind_eq_ok] at h
    obtain ⟨text, htarget, text', hvalue, h⟩ := h
    cases h
    simp [Expr.chars, Expr.print_chars htarget, Expr.print_chars hvalue]
  | .call callee args, _, h, rest => by
    simp only [Expr.print, bind_eq_ok] at h
    obtain ⟨texts, hargs, h⟩ := h
    cases h
    rw [Expr.chars, Expr.argChars_eq, betweenCommas_eq (Expr.printAll_chars hargs)]
    simp [Ident.callee, Ident.use]
  | .unary op operand, _, h, rest => by
    simp only [Expr.print, bind_eq_ok] at h
    obtain ⟨text, hoperand, h⟩ := h
    cases h
    simp [Expr.chars, Expr.print_chars hoperand]
  | .binary op left right, _, h, rest => by
    simp only [Expr.print, bind_eq_ok] at h
    obtain ⟨text, hleft, text', hright, h⟩ := h
    cases h
    simp [Expr.chars, Expr.print_chars hleft, Expr.print_chars hright]
  | .strayDot object field _ _, _, h, rest => by
    simp only [Expr.print, bind_eq_ok] at h
    obtain ⟨text, hobject, name, hname, h⟩ := h
    cases h
    simp [Expr.chars, Expr.print_chars hobject, Stray.printedName_chars hname, Ident.use]
  | .strayCall callee _ args, _, h, rest => by
    simp only [Expr.print, bind_eq_ok] at h
    obtain ⟨texts, hargs, name, hname, h⟩ := h
    cases h
    rw [Expr.chars, Expr.argChars_eq, betweenCommas_eq (Expr.printAll_chars hargs),
      Stray.printedName_chars hname]
    simp [Ident.callee, Ident.use]

theorem Expr.printAll_chars : ∀ {exprs : List Expr} {texts : List String},
    Expr.printAll false exprs = .ok texts →
    List.Forall₂ (fun expr text => ∀ rest, Expr.chars expr rest = text.toList ++ rest) exprs texts
  | [], _, h => by
    cases h
    exact .nil
  | expr :: exprs, _, h => by
    simp only [Expr.printAll, bind_eq_ok] at h
    obtain ⟨text, hexpr, texts, hexprs, h⟩ := h
    cases h
    exact .cons (Expr.print_chars hexpr) (Expr.printAll_chars hexprs)

end

theorem TypeExpr.print_chars {type : TypeExpr} {text : String} (h : type.print = .ok text)
    (rest : List Char) : type.chars rest = text.toList ++ rest := by
  cases type with
  | primitive name =>
    cases h
    rfl
  | struct tag =>
    simp only [TypeExpr.print, Except.ok.injEq] at h
    subst h
    simp [TypeExpr.chars, Fixed.spelling]
  | stray => cases h

theorem Decl.printFormal_chars {decl : Decl} {text : String} (h : decl.printFormal = .ok text)
    (rest : List Char) : decl.namedChars rest = text.toList ++ rest := by
  cases decl with
  | var type id | formal type id =>
    simp only [Decl.printFormal, bind_eq_ok] at h
    obtain ⟨text, htype, h⟩ := h
    cases h
    simp [Decl.namedChars, TypeExpr.print_chars htype]
  | _ => simp [Decl.printFormal] at h

theorem Decl.printFormals_chars : ∀ {decls : List Decl} {texts : List String},
    decls.mapM Decl.printFormal = .ok texts →
    List.Forall₂ (fun decl text => ∀ rest, Decl.namedChars decl rest = text.toList ++ rest)
      decls texts
  | [], _, h => by
    obtain rfl := Except.ok.inj (List.mapM_nil.symm.trans h)
    exact .nil
  | decl :: decls, _, h => by
    simp only [List.mapM_cons, bind_eq_ok] at h
    obtain ⟨text, hdecl, texts, hdecls, h⟩ := h
    cases h
    exact .cons (Decl.printFormal_chars hdecl) (Decl.printFormals_chars hdecls)

/-! ## Lines -/

@[simp]
theorem toList_line (indent : Nat) (text : String) :
    (line indent text).toList = indented indent text.toList := by
  simp [line, indented]

@[simp]
theorem indented_append (indent : Nat) (text rest : List Char) :
    indented indent text ++ rest = indented indent (text ++ rest) := by
  simp [indented]

/-- A line with one expression in it. -/
theorem line_chars {indent : Nat} {expr : Expr} {make : String → String} {lines : List String}
    (front back : List Char)
    (h : (do
      let text ← expr.print false
      .ok [line indent (make text)]) = Except.ok lines)
    (hmake : ∀ text, (make text).toList = front ++ (text.toList ++ back)) (rest : List Char) :
    indented indent (front ++ expr.chars (back ++ '\n' :: rest)) =
      (unlines lines).toList ++ rest := by
  obtain ⟨text, hexpr, h⟩ := bind_eq_ok.1 h
  cases h
  simp [hmake, Expr.print_chars hexpr]

mutual

theorem Decl.lines_chars (indent : Nat) : ∀ {decl : Decl} {lines : List String},
    decl.lines false indent = .ok lines →
    ∀ rest, decl.chars indent rest = (unlines lines).toList ++ rest
  | .var type id, _, h, rest => by
    simp only [Decl.lines, bind_eq_ok] at h
    obtain ⟨text, htype, h⟩ := h
    cases h
    simp [Decl.chars, Decl.lead, Decl.behind, TypeExpr.print_chars htype]
  | .function returns id formals decls stmts, _, h, rest => by
    simp only [Decl.lines, bind_eq_ok] at h
    obtain ⟨texts, hformals, text, hreturns, dlines, hdecls, slines, hstmts, h⟩ := h
    cases h
    rw [Decl.chars, Decl.lead, Decl.behind, TypeExpr.print_chars hreturns,
      betweenCommas_eq (Decl.printFormals_chars hformals), Decl.linesAll_chars _ hdecls,
      Stmt.linesAll_chars _ hstmts]
    simp [openLine, closeLine]
  | .struct tag fields, _, h, rest => by
    simp only [Decl.lines, bind_eq_ok] at h
    obtain ⟨lines, hfields, h⟩ := h
    cases h
    rw [Decl.chars, Decl.lead, Decl.behind, Decl.linesAll_chars _ hfields]
    simp [openLine, TypeExpr.chars, Fixed.spelling]
  | .formal .., _, h, _ | .stray _, _, h, _ => by cases h

theorem Decl.linesAll_chars (indent : Nat) : ∀ {decls : List Decl} {lines : List String},
    Decl.linesAll false indent decls = .ok lines →
    ∀ rest, Decl.charsAll indent decls rest = (unlines lines).toList ++ rest
  | [], _, h, _ => by
    cases h
    rfl
  | decl :: decls, _, h, rest => by
    simp only [Decl.linesAll, bind_eq_ok] at h
    obtain ⟨lines, hdecl, more, hdecls, h⟩ := h
    cases h
    have hfirst := Decl.lines_chars indent hdecl
    rw [Decl.charsAll, ← Decl.chars, hfirst, Decl.linesAll_chars indent hdecls]
    simp

theorem Stmt.lines_chars (indent : Nat) : ∀ {stmt : Stmt} {lines : List String},
    stmt.lines false indent = .ok lines →
    ∀ rest, stmt.chars indent rest = (unlines lines).toList ++ rest
  | .assign assignment, _, h, rest => by
    simp only [Stmt.lines, bind_eq_ok] at h
    obtain ⟨text, hassignment, h⟩ := h
    cases h
    cases assignment with
    | assign target value =>
      simp only [Expr.printAssignment, bind_eq_ok] at hassignment
      obtain ⟨text, htarget, text', hvalue, h⟩ := hassignment
      cases h
      simp [Stmt.chars, Stmt.lead, Stmt.behind, Expr.print_chars htarget, Expr.print_chars hvalue]
    | _ => simp [Expr.printAssignment] at hassignment
  | .increment _, _, h, rest => line_chars [] "++;".toList h (fun _ => by simp) rest
  | .decrement _, _, h, rest => line_chars [] "--;".toList h (fun _ => by simp) rest
  | .read _, _, h, rest => line_chars "cin >> ".toList [';'] h (fun _ => by simp) rest
  | .write _, _, h, rest => line_chars "cout << ".toList [';'] h (fun _ => by simp) rest
  | .call call, _, h, rest => by
    have hline := line_chars [] [';'] h (fun _ => by simp) rest
    rw [← hline]
    cases call with
    | call callee args =>
      simp [Stmt.chars, Stmt.lead, Stmt.behind, Expr.chars, Expr.argChars_eq]
    | _ => rfl
  | .returnNothing, _, h, rest => by
    cases h
    simp [Stmt.chars, Stmt.lead, Stmt.behind, Fixed.named, Expr.chars, Fixed.spelling]
  | .returnValue _, _, h, rest => line_chars "return ".toList [';'] h (fun _ => by simp) rest
  | .stray _, _, h, _ => by cases h
  | .ifThen condition decls stmts, _, h, rest => by
    simp only [Stmt.lines, bind_eq_ok] at h
    obtain ⟨text, hcondition, dlines, hdecls, slines, hstmts, h⟩ := h
    cases h
    rw [Stmt.chars, Stmt.behind, guarded, Expr.print_chars hcondition, Decl.linesAll_chars _ hdecls,
      Stmt.linesAll_chars _ hstmts]
    simp [openLine, closeLine, Stmt.lead, Fixed.named, Expr.chars, Fixed.spelling]
  | .ifElse condition thenDecls thenStmts elseDecls elseStmts, _, h, rest => by
    simp only [Stmt.lines, bind_eq_ok] at h
    obtain ⟨text, hcondition, tdlines, htd, tslines, hts, edlines, hed, eslines, hes, h⟩ := h
    cases h
    rw [Stmt.chars, Stmt.behind, guarded, Expr.print_chars hcondition, Decl.linesAll_chars _ htd,
      Stmt.linesAll_chars _ hts, Decl.linesAll_chars _ hed, Stmt.linesAll_chars _ hes]
    simp [openLine, closeLine, otherwise, Stmt.lead, Fixed.named, Expr.chars, Fixed.spelling]
  | .loop condition decls stmts, _, h, rest => by
    simp only [Stmt.lines, bind_eq_ok] at h
    obtain ⟨text, hcondition, dlines, hdecls, slines, hstmts, h⟩ := h
    cases h
    rw [Stmt.chars, Stmt.behind, guarded, Expr.print_chars hcondition, Decl.linesAll_chars _ hdecls,
      Stmt.linesAll_chars _ hstmts]
    simp [openLine, closeLine, Stmt.lead, Fixed.named, Expr.chars, Fixed.spelling]

theorem Stmt.linesAll_chars (indent : Nat) : ∀ {stmts : List Stmt} {lines : List String},
    Stmt.linesAll false indent stmts = .ok lines →
    ∀ rest, Stmt.charsAll indent stmts rest = (unlines lines).toList ++ rest
  | [], _, h, _ => by
    cases h
    rfl
  | stmt :: stmts, _, h, rest => by
    simp only [Stmt.linesAll, bind_eq_ok] at h
    obtain ⟨lines, hstmt, more, hstmts, h⟩ := h
    cases h
    have hfirst := Stmt.lines_chars indent hstmt
    rw [Stmt.charsAll, ← Stmt.chars, hfirst, Stmt.linesAll_chars indent hstmts]
    simp

end

/-- A program that prints is printed as it is written. -/
theorem Program.print_chars {program : Program} {text : String} (h : program.print false = .ok text) :
    text.toList = Decl.charsAll 0 program.decls [] := by
  simp only [Program.print, bind_eq_ok] at h
  obtain ⟨lines, hlines, h⟩ := h
  cases h
  rw [Decl.linesAll_chars 0 hlines, List.append_nil]

end Moo
