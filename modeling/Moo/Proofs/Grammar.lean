import Moo.Reading.Step

/-!
# The grammar of programs

`Derives n tokens value` says that the words `tokens` are derived from the
nonterminal `n`, and that `value` is what they stand for. There is one rule
for each production; repetition is an empty or left-recursive list, and an
option is a rule with it and a rule without. The rules know nothing of
places, of what may follow a word, or of the order in which words are read.

* `level`: the nonterminal of the expressions whose operators, outside
  parentheses, bind at least as tightly as given; `Derives.loosen` goes
  from one level to every looser one.
* `Derives.operator`: the productions of all operators between two
  operands, as one rule on how tightly they bind.
-/
namespace Moo

inductive Nonterminal
  | start | decls | decl | varDecl | structDecl | fields | fnDecl | formals | formalDecl | fnBody
  | declList | stmtList | type | stmt | block
  | exp | assignExp | orExp | andExp | relExp | addExp | mulExp | unaryExp | term
  | fnCall | actuals | loc
deriving DecidableEq

/-- What the words of a nonterminal stand for. -/
@[reducible]
def Nonterminal.Value : Nonterminal → Type
  | start => Program
  | decls | fields | formals | declList => List Decl
  | decl | varDecl | structDecl | fnDecl | formalDecl => Decl
  | fnBody | block => List Decl × List Stmt
  | stmtList => List Stmt
  | type => TypeExpr
  | stmt => Stmt
  | actuals => List Expr
  | exp | assignExp | orExp | andExp | relExp | addExp | mulExp | unaryExp | term | fnCall | loc =>
    Expr

/-- The words are derived from the nonterminal and stand for the value. -/
inductive Derives : (n : Nonterminal) → List Token → n.Value → Prop
  -- a program and its declarations
  | start {ts ds} : Derives .decls ts ds → Derives .start ts ⟨ds⟩
  | noDecls : Derives .decls [] []
  | moreDecls {ts us ds d} : Derives .decls ts ds → Derives .decl us d →
    Derives .decls (ts ++ us) (ds ++ [d])
  | varDeclIsDecl {ts d} : Derives .varDecl ts d → Derives .decl ts d
  | fnDeclIsDecl {ts d} : Derives .fnDecl ts d → Derives .decl ts d
  | structDeclIsDecl {ts d} : Derives .structDecl ts d → Derives .decl ts d
  | varDecl {ts type name semicolon} : Derives .type ts type → name.terminal = .ident →
    semicolon.terminal = .fixed .semicolon →
    Derives .varDecl (ts ++ [name, semicolon]) (.var type name.ident)
  | structDecl {word tag openBrace ts fields closeBrace semicolon} :
    word.terminal = .fixed .struct → tag.terminal = .ident →
    openBrace.terminal = .fixed .openBrace → Derives .fields ts fields →
    closeBrace.terminal = .fixed .closeBrace → semicolon.terminal = .fixed .semicolon →
    Derives .structDecl (word :: tag :: openBrace :: ts ++ [closeBrace, semicolon])
      (.struct tag.ident fields)
  | oneField {ts d} : Derives .varDecl ts d → Derives .fields ts [d]
  | moreFields {ts us ds d} : Derives .fields ts ds → Derives .varDecl us d →
    Derives .fields (ts ++ us) (ds ++ [d])
  | fnDecl {ts returns name openParen us formals closeParen vs body} :
    Derives .type ts returns → name.terminal = .ident → openParen.terminal = .fixed .openParen →
    Derives .formals us formals → closeParen.terminal = .fixed .closeParen →
    Derives .fnBody vs body →
    Derives .fnDecl (ts ++ name :: openParen :: us ++ closeParen :: vs)
      (.function returns name.ident formals body.1 body.2)
  | fnDeclNoFormals {ts returns name openParen closeParen vs body} :
    Derives .type ts returns → name.terminal = .ident → openParen.terminal = .fixed .openParen →
    closeParen.terminal = .fixed .closeParen → Derives .fnBody vs body →
    Derives .fnDecl (ts ++ name :: openParen :: closeParen :: vs)
      (.function returns name.ident [] body.1 body.2)
  | oneFormal {ts d} : Derives .formalDecl ts d → Derives .formals ts [d]
  | moreFormals {ts comma us ds d} : Derives .formals ts ds → comma.terminal = .fixed .comma →
    Derives .formalDecl us d → Derives .formals (ts ++ comma :: us) (ds ++ [d])
  | formalDecl {ts type name} : Derives .type ts type → name.terminal = .ident →
    Derives .formalDecl (ts ++ [name]) (.formal type name.ident)
  | fnBody {openBrace ts us ds ss closeBrace} : openBrace.terminal = .fixed .openBrace →
    Derives .declList ts ds → Derives .stmtList us ss →
    closeBrace.terminal = .fixed .closeBrace →
    Derives .fnBody (openBrace :: ts ++ us ++ [closeBrace]) (ds, ss)
  | noLocals : Derives .declList [] []
  | moreLocals {ts us ds d} : Derives .declList ts ds → Derives .varDecl us d →
    Derives .declList (ts ++ us) (ds ++ [d])
  | noStmts : Derives .stmtList [] []
  | moreStmts {ts us ss s} : Derives .stmtList ts ss → Derives .stmt us s →
    Derives .stmtList (ts ++ us) (ss ++ [s])
  -- types
  | primitiveType {word token} : word ∈ [Fixed.int, .bool, .void] →
    token.terminal = .fixed word → Derives .type [token] (.primitive word.spelling)
  | structType {word tag} : word.terminal = .fixed .struct → tag.terminal = .ident →
    Derives .type [word, tag] (.struct tag.ident)
  -- statements
  | assignStmt {ts e semicolon} : Derives .assignExp ts e →
    semicolon.terminal = .fixed .semicolon → Derives .stmt (ts ++ [semicolon]) (.assign e)
  | postIncStmt {ts e op semicolon} : Derives .loc ts e → op.terminal = .fixed .increment →
    semicolon.terminal = .fixed .semicolon → Derives .stmt (ts ++ [op, semicolon]) (.increment e)
  | postDecStmt {ts e op semicolon} : Derives .loc ts e → op.terminal = .fixed .decrement →
    semicolon.terminal = .fixed .semicolon → Derives .stmt (ts ++ [op, semicolon]) (.decrement e)
  | readStmt {word arrow ts e semicolon} : word.terminal = .fixed .cin →
    arrow.terminal = .fixed .readArrow → Derives .loc ts e →
    semicolon.terminal = .fixed .semicolon →
    Derives .stmt (word :: arrow :: ts ++ [semicolon]) (.read e)
  | writeStmt {word arrow ts e semicolon} : word.terminal = .fixed .cout →
    arrow.terminal = .fixed .writeArrow → Derives .exp ts e →
    semicolon.terminal = .fixed .semicolon →
    Derives .stmt (word :: arrow :: ts ++ [semicolon]) (.write e)
  | ifStmt {word openParen ts e closeParen us body} : word.terminal = .fixed .ifWord →
    openParen.terminal = .fixed .openParen → Derives .exp ts e →
    closeParen.terminal = .fixed .closeParen → Derives .block us body →
    Derives .stmt (word :: openParen :: ts ++ closeParen :: us) (.ifThen e body.1 body.2)
  | ifElseStmt {word openParen ts e closeParen us thenBody elseWord vs elseBody} :
    word.terminal = .fixed .ifWord → openParen.terminal = .fixed .openParen →
    Derives .exp ts e → closeParen.terminal = .fixed .closeParen → Derives .block us thenBody →
    elseWord.terminal = .fixed .elseWord → Derives .block vs elseBody →
    Derives .stmt (word :: openParen :: ts ++ closeParen :: us ++ elseWord :: vs)
      (.ifElse e thenBody.1 thenBody.2 elseBody.1 elseBody.2)
  | whileStmt {word openParen ts e closeParen us body} : word.terminal = .fixed .whileWord →
    openParen.terminal = .fixed .openParen → Derives .exp ts e →
    closeParen.terminal = .fixed .closeParen → Derives .block us body →
    Derives .stmt (word :: openParen :: ts ++ closeParen :: us) (.loop e body.1 body.2)
  | callStmt {ts e semicolon} : Derives .fnCall ts e → semicolon.terminal = .fixed .semicolon →
    Derives .stmt (ts ++ [semicolon]) (.call e)
  | returnStmt {word semicolon} : word.terminal = .fixed .returnWord →
    semicolon.terminal = .fixed .semicolon → Derives .stmt [word, semicolon] .returnNothing
  | returnValueStmt {word ts e semicolon} : word.terminal = .fixed .returnWord →
    Derives .exp ts e → semicolon.terminal = .fixed .semicolon →
    Derives .stmt (word :: ts ++ [semicolon]) (.returnValue e)
  | block {openBrace ts us ds ss closeBrace} : openBrace.terminal = .fixed .openBrace →
    Derives .declList ts ds → Derives .stmtList us ss →
    closeBrace.terminal = .fixed .closeBrace →
    Derives .block (openBrace :: ts ++ us ++ [closeBrace]) (ds, ss)
  -- expressions
  | assignIsExp {ts e} : Derives .assignExp ts e → Derives .exp ts e
  | orIsExp {ts e} : Derives .orExp ts e → Derives .exp ts e
  | assignExp {ts target becomes us value} : Derives .loc ts target →
    becomes.terminal = .fixed .becomes → Derives .exp us value →
    Derives .assignExp (ts ++ becomes :: us) (.assign target value)
  | andIsOr {ts e} : Derives .andExp ts e → Derives .orExp ts e
  | orOp {ts l token us r} : Derives .orExp ts l → token.terminal = .fixed .disjunction →
    Derives .andExp us r →
    Derives .orExp (ts ++ token :: us) (.binary Fixed.disjunction.spelling l r)
  | relIsAnd {ts e} : Derives .relExp ts e → Derives .andExp ts e
  | andOp {ts l token us r} : Derives .andExp ts l → token.terminal = .fixed .conjunction →
    Derives .relExp us r →
    Derives .andExp (ts ++ token :: us) (.binary Fixed.conjunction.spelling l r)
  | addIsRel {ts e} : Derives .addExp ts e → Derives .relExp ts e
  | relOp {ts l op token us r} :
    op ∈ [Fixed.equal, .notEqual, .less, .greater, .lessEqual, .greaterEqual] →
    Derives .addExp ts l → token.terminal = .fixed op → Derives .addExp us r →
    Derives .relExp (ts ++ token :: us) (.binary op.spelling l r)
  | mulIsAdd {ts e} : Derives .mulExp ts e → Derives .addExp ts e
  | addOp {ts l op token us r} : op ∈ [Fixed.plus, .minus] →
    Derives .addExp ts l → token.terminal = .fixed op → Derives .mulExp us r →
    Derives .addExp (ts ++ token :: us) (.binary op.spelling l r)
  | unaryIsMul {ts e} : Derives .unaryExp ts e → Derives .mulExp ts e
  | mulOp {ts l op token us r} : op ∈ [Fixed.times, .divide] →
    Derives .mulExp ts l → token.terminal = .fixed op → Derives .unaryExp us r →
    Derives .mulExp (ts ++ token :: us) (.binary op.spelling l r)
  | termIsUnary {ts e} : Derives .term ts e → Derives .unaryExp ts e
  | unaryOp {op token ts e} : op ∈ [Fixed.minus, .not] → token.terminal = .fixed op →
    Derives .unaryExp ts e → Derives .unaryExp (token :: ts) (.unary op.spelling e)
  | locIsTerm {ts e} : Derives .loc ts e → Derives .term ts e
  | intLit {token} : token.terminal = .number →
    Derives .term [token] (.int token.number token.loc)
  | strLit {token} : token.terminal = .text → Derives .term [token] (.str token.text token.loc)
  | trueLit {token} : token.terminal = .fixed .trueWord →
    Derives .term [token] (.bool true token.loc)
  | falseLit {token} : token.terminal = .fixed .falseWord →
    Derives .term [token] (.bool false token.loc)
  | group {openParen ts e closeParen} : openParen.terminal = .fixed .openParen →
    Derives .exp ts e → closeParen.terminal = .fixed .closeParen →
    Derives .term (openParen :: ts ++ [closeParen]) e
  | callIsTerm {ts e} : Derives .fnCall ts e → Derives .term ts e
  | fnCall {name openParen ts args closeParen} : name.terminal = .ident →
    openParen.terminal = .fixed .openParen → Derives .actuals ts args →
    closeParen.terminal = .fixed .closeParen →
    Derives .fnCall (name :: openParen :: ts ++ [closeParen]) (.call name.ident args)
  | fnCallNoActuals {name openParen closeParen} : name.terminal = .ident →
    openParen.terminal = .fixed .openParen → closeParen.terminal = .fixed .closeParen →
    Derives .fnCall [name, openParen, closeParen] (.call name.ident [])
  | oneActual {ts e} : Derives .exp ts e → Derives .actuals ts [e]
  | moreActuals {ts comma us es e} : Derives .actuals ts es → comma.terminal = .fixed .comma →
    Derives .exp us e → Derives .actuals (ts ++ comma :: us) (es ++ [e])
  | idRef {name} : name.terminal = .ident → Derives .loc [name] (.name name.ident)
  | dotAccess {ts e dot name} : Derives .loc ts e → dot.terminal = .fixed .dot →
    name.terminal = .ident → Derives .loc (ts ++ [dot, name]) (.dot e name.ident none)

namespace Derives

/-- The same words, put together in another way. -/
theorem of_eq {n : Nonterminal} {ts us : List Token} {v : n.Value} (h : Derives n ts v)
    (e : ts = us) : Derives n us v :=
  e ▸ h

end Derives

/-! ## Levels of expressions -/

/-- The expressions whose operators outside parentheses bind at least as tightly as `k`.
An assignment binds at 0, and only what needs no operator between operands is at level 6. -/
def level : Nat → List Token → Expr → Prop
  | 0 => Derives .exp
  | 1 => Derives .orExp
  | 2 => Derives .andExp
  | 3 => Derives .relExp
  | 4 => Derives .addExp
  | 5 => Derives .mulExp
  | _ => Derives .unaryExp

/-- The level of the left operand of an operator: its own, except that a comparison is no operand
of another. -/
def leftLevel (binding : Nat) : Nat :=
  if binding = 3 then 4 else binding

namespace Derives

theorem loosen_succ {k : Nat} {ts : List Token} {e : Expr} (h : level (k + 1) ts e) :
    level k ts e := by
  match k, h with
  | 0, h => exact .orIsExp h
  | 1, h => exact .andIsOr h
  | 2, h => exact .relIsAnd h
  | 3, h => exact .addIsRel h
  | 4, h => exact .mulIsAdd h
  | 5, h => exact .unaryIsMul h
  | _ + 6, h => exact h

/-- An expression of a level is one of every looser level. -/
theorem loosen {j k : Nat} {ts : List Token} {e : Expr} (hjk : j ≤ k) (h : level k ts e) :
    level j ts e := by
  induction hjk with
  | refl => exact h
  | step _ ih => exact ih (loosen_succ h)

/-- Two operands and an operator between them are an expression of the operator's level. -/
theorem operator {word : Fixed} {binding : Nat} {ts us : List Token} {l r : Expr} {token : Token}
    (hw : word.binding? = some binding) (hl : level (leftLevel binding) ts l)
    (ht : token.terminal = .fixed word) (hr : level (binding + 1) us r) :
    level binding (ts ++ token :: us) (.binary word.spelling l r) := by
  cases word <;> cases hw
  case disjunction => exact .orOp hl ht hr
  case conjunction => exact .andOp hl ht hr
  case plus | minus => exact .addOp (by simp) hl ht hr
  case times | divide => exact .mulOp (by simp) hl ht hr
  all_goals exact .relOp (by simp) hl ht hr

end Derives

end Moo
