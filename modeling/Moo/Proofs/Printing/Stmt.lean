import Moo.Proofs.Printing.Expr

/-!
# Printed statements are all different

A line is told by what it starts with and by the first character or two
behind that: `lineForm`. What it starts with is a target, or a word that is
taken for a name whether it is a keyword or not. So no line of a statement
is taken for one that declares a variable, that opens the other block of an
`if` or that closes a block, and what stands behind a block tells whether
the `if` in front of it has another one.

* `TypeExpr.unique`, `Decl.unique_var`: types and variables.
* `Stmt.split`: two statements that are written alike are of one form, and
  go on alike.
* `Stmt.unique`: every statement; blocks line by line, `unique_block`.
-/
namespace Moo

open Relabel (unplace)

/-! ## Lines -/

/-- What a line is for. -/
inductive LineForm
  | assign | increment | decrement | read | write | branch | loop | call | returnNothing
  | returnValue | otherwise | declare

/-- What a line is for if only its first word tells. -/
def Expr.lineForm : Expr → LineForm
  | .name id =>
    if id.name = Fixed.ifWord.spelling then .branch
    else if id.name = Fixed.whileWord.spelling then .loop
    else if id.name = Fixed.returnWord.spelling then .returnValue
    else .declare
  | _ => .declare

/-- What a line is for, by what it starts with and what stands behind that. -/
def lineForm (lead : Expr) : List Char → LineForm
  | ' ' :: c :: _ =>
    if c = '=' then .assign
    else if c = '>' then .read
    else if c = '<' then .write
    else if c = '\x7b' then .otherwise
    else lead.lineForm
  | '+' :: _ => .increment
  | '-' :: _ => .decrement
  | '(' :: _ => .call
  | _ => .returnNothing

theorem lineForm_relabel (lead : Expr) (text : List Char) :
    lineForm (lead.relabel unplace) text = lineForm lead text := by
  have hlead : (lead.relabel unplace).lineForm = lead.lineForm := by
    cases lead <;> rfl
  unfold lineForm
  split <;> simp [hlead]

/-- Behind a blank a word, a string or a parenthesis leaves it to the first word. -/
theorem lineForm_begins (lead : Expr) {text : List Char} (h : Begins text) :
    lineForm lead (' ' :: text) = lead.lineForm := by
  obtain ⟨c, more, rfl, hc⟩ := h
  have hne : c ≠ '=' ∧ c ≠ '>' ∧ c ≠ '<' ∧ c ≠ '\x7b' := by
    refine ⟨?_, ?_, ?_, ?_⟩ <;> rintro rfl <;> revert hc <;> decide
  simp [lineForm, hne]

/-- The text starts with a line of the form. A text starts with a line of one form at most. -/
def Line (form : LineForm) (text : List Char) : Prop :=
  ∃ indent lead behind, text = indented indent (lead.chars behind) ∧ lead.Chain ∧ Parts behind ∧
    lineForm lead behind = form

/-- Blanks at the front of a line, and what it starts with. -/
theorem indented_unique {n m : Nat} {text text' : List Char} (h : text.head? ≠ some ' ')
    (h' : text'.head? ≠ some ' ') (heq : indented n text = indented m text') : text = text' := by
  have hblanks (n : Nat) {text : List Char} (h : text.head? ≠ some ' ') :
      (indented n text).dropWhile (· = ' ') = text := by
    rw [indented, List.dropWhile_append_of_pos (by simp)]
    cases text with
    | nil => rfl
    | cons c text => rw [List.dropWhile_cons_of_neg (by simpa using h)]
  rw [← hblanks n h, heq, hblanks m h']

theorem Expr.Chain.head_ne {e : Expr} (h : e.Chain) (rest : List Char) {c : Char}
    (hc : isWordStart c = false ∧ c ≠ '(') : (e.chars rest).head? ≠ some c := by
  obtain ⟨d, more, hchars, hd⟩ := h.head rest
  rw [hchars]
  rintro ⟨⟩
  rcases hd with hd | hd
  · exact absurd hd (by simp [hc.1])
  · exact hc.2 hd

theorem split_line {n m : Nat} {lead lead' : Expr} {behind behind' : List Char} (h : lead.Chain)
    (h' : lead'.Chain) (hr : Parts behind) (hr' : Parts behind')
    (heq : indented n (lead.chars behind) = indented m (lead'.chars behind')) :
    lead.relabel unplace = lead'.relabel unplace ∧ behind = behind' :=
  h.unique h' hr hr' <|
    indented_unique (h.head_ne _ (by decide)) (h'.head_ne _ (by decide)) heq

theorem Line.unique {form form' : LineForm} {text : List Char} (h : Line form text)
    (h' : Line form' text) : form = form' := by
  obtain ⟨n, lead, behind, rfl, hlead, hr, rfl⟩ := h
  obtain ⟨m, lead', behind', heq, hlead', hr', rfl⟩ := h'
  obtain ⟨hsame, rfl⟩ := split_line hlead hlead' hr hr' heq
  rw [← lineForm_relabel lead, hsame, lineForm_relabel]

/-- The brace that closes a block starts no line that has a form. -/
theorem Line.not_close {form : LineForm} {indent : Nat} {rest : List Char} :
    ¬ Line form (indented indent ('\x7d' :: rest)) := by
  rintro ⟨n, lead, behind, heq, hlead, -⟩
  have hclose := indented_unique (by simp) (hlead.head_ne _ (by decide)) heq
  exact hlead.head_ne behind (c := '\x7d') (by decide) (by rw [← hclose]; rfl)

/-- A keyword is a word like others. -/
theorem Fixed.chain_named {f : Fixed} (h : f.isKeyword = true) : f.named.Chain := by
  have key : ∀ f ∈ Fixed.all, f.isKeyword = true →
      f.spelling.toList.head?.any isWordStart ∧ f.spelling.toList.all isWordPart := by
    decide +kernel
  obtain ⟨hhead, hall⟩ := key f f.mem_all h
  obtain ⟨c, more, hword⟩ : ∃ c more, f.spelling.toList = c :: more := by
    cases hw : f.spelling.toList with
    | nil => simp [hw] at hhead
    | cons c more => exact ⟨c, more, rfl⟩
  refine ⟨rfl, c, more, hword, by simpa [hword] using hhead, fun d hd => ?_⟩
  rw [hword] at hall
  exact List.all_eq_true.1 hall d (List.mem_cons_of_mem _ hd)

theorem line_otherwise (indent : Nat) (block : List Char) :
    Line .otherwise (otherwise indent block) :=
  ⟨indent, _, _, rfl, Fixed.chain_named rfl, parts_blank _, rfl⟩

/-! ## Variables -/

theorem TypeExpr.unique {type type' : TypeExpr} (h : type.Legible) (h' : type'.Legible)
    {rest rest' : List Char} (heq : type.chars (' ' :: rest) = type'.chars (' ' :: rest')) :
    type.relabel unplace = type'.relabel unplace ∧ rest = rest' := by
  match type, type', h, h' with
  | .primitive _, .primitive _, ⟨word, _, hw⟩, ⟨word', _, hw'⟩ =>
    subst hw hw'
    obtain ⟨hword, -, hrest⟩ := (front_fixed word rest).unique (front_fixed word' rest') heq
    obtain rfl := Terminal.fixed.inj hword
    exact ⟨rfl, (List.cons.inj hrest).2⟩
  | .struct tag, .struct tag', h, h' =>
    obtain ⟨-, -, hrest⟩ := (front_fixed .struct _).unique (front_fixed .struct _) heq
    obtain ⟨htag, hrest⟩ := h.plain.unique h'.plain (parts_blank _) (parts_blank _)
      (List.cons.inj hrest).2
    exact ⟨congrArg TypeExpr.struct htag, (List.cons.inj hrest).2⟩
  | .primitive _, .struct _, ⟨word, hmem, hw⟩, _ =>
    subst hw
    obtain ⟨hword, -, -⟩ := (front_fixed word _).unique (front_fixed .struct _) heq
    obtain rfl := Terminal.fixed.inj hword
    simp at hmem
  | .struct _, .primitive _, _, ⟨word, hmem, hw⟩ =>
    subst hw
    obtain ⟨hword, -, -⟩ := (front_fixed .struct _).unique (front_fixed word _) heq
    obtain rfl := Terminal.fixed.inj hword
    simp at hmem

/-- A type and what is declared of it, as a line. -/
theorem TypeExpr.line_declare {type : TypeExpr} (h : type.Legible) (indent : Nat)
    {text : List Char} (ht : Begins text) :
    Line .declare (indented indent (type.chars (' ' :: text))) := by
  match type, h with
  | .primitive _, ⟨word, hmem, hw⟩ =>
    subst hw
    have hword : word.isKeyword = true ∧ word.named.lineForm = .declare := by
      simp only [List.mem_cons, List.not_mem_nil, or_false] at hmem
      rcases hmem with rfl | rfl | rfl <;> exact ⟨rfl, rfl⟩
    exact ⟨indent, word.named, _, rfl, Fixed.chain_named hword.1, parts_blank _,
      (lineForm_begins _ ht).trans hword.2⟩
  | .struct tag, h =>
    exact ⟨indent, Fixed.struct.named, _, rfl, Fixed.chain_named rfl, parts_blank _,
      lineForm_begins _ (h.plain.begins _)⟩

theorem Decl.line_var {decl : Decl} (h : decl.LegibleVar) (indent : Nat) (rest : List Char) :
    Line .declare (decl.chars indent rest) := by
  match decl, h with
  | .var type id, ⟨htype, hid⟩ => exact TypeExpr.line_declare htype indent (hid.plain.begins _)

/-- A type starts with a keyword. -/
theorem TypeExpr.head_ne {type : TypeExpr} (h : type.Legible) (rest : List Char) {c : Char}
    (hc : isWordStart c = false) : (type.chars rest).head? ≠ some c := by
  have hhead : ∃ f : Fixed, ∃ more, type.chars rest = f.spelling.toList ++ more ∧
      f.isKeyword = true := by
    match type, h with
    | .primitive _, ⟨word, hmem, hw⟩ =>
      subst hw
      refine ⟨word, rest, rfl, ?_⟩
      simp only [List.mem_cons, List.not_mem_nil, or_false] at hmem
      rcases hmem with rfl | rfl | rfl <;> rfl
    | .struct tag, _ => exact ⟨.struct, _, rfl, rfl⟩
  obtain ⟨f, more, hchars, hkey⟩ := hhead
  obtain ⟨d, tail, hword, hd⟩ := Ident.Plain.head (Fixed.chain_named hkey)
  have hword : f.spelling.toList = d :: tail := hword
  rw [hchars, hword]
  rintro ⟨⟩
  exact absurd hd (by simp [hc])

theorem Decl.split {decl decl' : Decl} {n m : Nat} (h : decl.lead.Legible) (h' : decl'.lead.Legible)
    {rest rest' : List Char} (heq : decl.chars n rest = decl'.chars m rest') :
    decl.lead.relabel unplace = decl'.lead.relabel unplace ∧
      decl.behind n rest = decl'.behind m rest' :=
  TypeExpr.unique h h' <|
    indented_unique (TypeExpr.head_ne h _ rfl) (TypeExpr.head_ne h' _ rfl) heq

theorem Decl.unique_var {decl decl' : Decl} {n m : Nat} (h : decl.LegibleVar)
    (h' : decl'.LegibleVar) {rest rest' : List Char}
    (heq : decl.chars n rest = decl'.chars m rest') :
    decl.relabel unplace = decl'.relabel unplace ∧ rest = rest' := by
  match decl, decl', h, h' with
  | .var type id, .var type' id', ⟨htype, hid⟩, ⟨htype', hid'⟩ =>
    have hlead : (Decl.var type id).lead.Legible := htype
    have hlead' : (Decl.var type' id').lead.Legible := htype'
    obtain ⟨hsame, hbehind⟩ := Decl.split hlead hlead' heq
    obtain ⟨hname, hrest⟩ :=
      hid.plain.unique hid'.plain (parts_semicolon _) (parts_semicolon _) hbehind
    exact ⟨congrArg₂ Decl.var hsame hname, by simpa using hrest⟩

/-! ## One statement -/

/-- What the line that a statement starts with is for. -/
def Stmt.form : Stmt → LineForm
  | .assign _ => .assign
  | .increment _ => .increment
  | .decrement _ => .decrement
  | .read _ => .read
  | .write _ => .write
  | .ifThen .. | .ifElse .. => .branch
  | .loop .. => .loop
  | .call _ => .call
  | .returnNothing | .stray _ => .returnNothing
  | .returnValue _ => .returnValue

theorem Stmt.form_ne (stmt : Stmt) : stmt.form ≠ .otherwise ∧ stmt.form ≠ .declare := by
  cases stmt <;> simp [Stmt.form]

section Split

variable {spot spot' : Spot} {stmt stmt' : Stmt}

theorem Stmt.Legible.chain_lead (h : stmt.Legible spot) (hp : Plain stmt.occurrences) :
    stmt.lead.Chain := by
  match stmt, h with
  | .assign (.assign target value), h => exact h.1.chain (plain_append.1 hp).1
  | .increment _, h | .decrement _, h => exact Expr.Heads.chain h hp
  | .call (.call callee args), h => exact h.1.plain
  | .read _, _ | .write _, _ | .ifThen .., _ | .ifElse .., _ | .loop .., _ | .returnNothing, _
  | .returnValue _, _ => exact Fixed.chain_named rfl

/-- What stands behind the lead does not go on with a word, and tells the form of the line. -/
theorem Stmt.Legible.behind (h : stmt.Legible spot) (indent : Nat) (rest : List Char) :
    Parts (stmt.behind indent rest) ∧ lineForm stmt.lead (stmt.behind indent rest) = stmt.form := by
  match stmt, h with
  | .returnValue value, h => exact ⟨parts_blank _, lineForm_begins _ (Expr.begins h _)⟩
  | .assign (.assign target value), _ | .increment _, _ | .decrement _, _
  | .call (.call callee args), _ | .read _, _ | .write _, _ | .ifThen .., _ | .ifElse .., _
  | .loop .., _ | .returnNothing, _ => exact ⟨parts_cons _ (by decide), rfl⟩

theorem Stmt.Legible.line (h : stmt.Legible spot) (hp : Plain stmt.occurrences) (indent : Nat)
    (rest : List Char) : Line stmt.form (stmt.chars indent rest) :=
  ⟨indent, _, _, rfl, h.chain_lead hp, h.behind indent rest⟩

/-- Statements that are written alike are of one form, start alike and go on alike. -/
theorem Stmt.split {n m : Nat} {rest rest' : List Char} (h : stmt.Legible spot)
    (hp : Plain stmt.occurrences) (h' : stmt'.Legible spot') (hp' : Plain stmt'.occurrences)
    (heq : stmt.chars n rest = stmt'.chars m rest') :
    stmt.form = stmt'.form ∧ stmt.lead.relabel unplace = stmt'.lead.relabel unplace ∧
      stmt.behind n rest = stmt'.behind m rest' := by
  -- the text is one, so its first line has one form
  refine ⟨?_, split_line (h.chain_lead hp) (h'.chain_lead hp') (h.behind n rest).1
    (h'.behind m rest').1 heq⟩
  exact (h.line hp n rest).unique (heq ▸ h'.line hp' m rest')

end Split

/-! ## Blocks -/

/-- What stands in a block and behind its closing brace. -/
def blockChars (indent : Nat) (decls : List Decl) (stmts : List Stmt) (rest : List Char) :
    List Char :=
  Decl.charsAll (indent + indentStep) decls <| Stmt.charsAll (indent + indentStep) stmts <|
    indented indent ('\x7d' :: rest)

/-- What follows is no other block of an `if`. -/
def Closes (rest : List Char) : Prop :=
  ¬ Line .otherwise rest

/-- No other statement is written like it. -/
def Stmt.Unique (indent : Nat) (stmt : Stmt) : Prop :=
  ∀ (stmt' : Stmt) (spot' : Spot), stmt'.Legible spot' → Plain stmt'.occurrences →
    ∀ rest rest', Closes rest → Closes rest' → stmt.chars indent rest = stmt'.chars indent rest' →
      stmt.relabel unplace = stmt'.relabel unplace ∧ rest = rest'

section Block

variable {indent n : Nat} {rest rest' : List Char}

theorem Stmt.line_charsAll {spot : Spot} {stmt : Stmt} {stmts : List Stmt}
    (h : Stmt.LegibleAll spot (stmt :: stmts)) (hp : Plain (Stmt.occurrencesAll (stmt :: stmts)))
    (n : Nat) (rest : List Char) : Line stmt.form (Stmt.charsAll n (stmt :: stmts) rest) :=
  h.1.line (plain_append.1 hp).1 n _

/-- Statements and the end of their block do not start with a line of another form. -/
theorem Stmt.charsAll_not_line {spot : Spot} {stmts : List Stmt} (h : Stmt.LegibleAll spot stmts)
    (hp : Plain (Stmt.occurrencesAll stmts)) {form : LineForm}
    (hform : form = .otherwise ∨ form = .declare) :
    ¬ Line form (Stmt.charsAll n stmts (indented indent ('\x7d' :: rest))) := by
  cases stmts with
  | nil => exact Line.not_close
  | cons stmt stmts =>
    intro hline
    have hsame := hline.unique (Stmt.line_charsAll h hp n _)
    rcases hform with rfl | rfl
    · exact stmt.form_ne.1 hsame.symm
    · exact stmt.form_ne.2 hsame.symm

theorem Stmt.unique_all {stmts : List Stmt} (hunique : ∀ stmt ∈ stmts, stmt.Unique n)
    {spot spot' : Spot} {stmts' : List Stmt} (h : Stmt.LegibleAll spot stmts)
    (hp : Plain (Stmt.occurrencesAll stmts)) (h' : Stmt.LegibleAll spot' stmts')
    (hp' : Plain (Stmt.occurrencesAll stmts'))
    (heq : Stmt.charsAll n stmts (indented indent ('\x7d' :: rest)) =
      Stmt.charsAll n stmts' (indented indent ('\x7d' :: rest'))) :
    Stmt.relabelAll unplace stmts = Stmt.relabelAll unplace stmts' ∧ rest = rest' := by
  induction stmts generalizing stmts' spot spot' with
  | nil =>
    cases stmts' with
    | nil => exact ⟨rfl, (List.cons.inj (List.append_cancel_left heq)).2⟩
    | cons stmt' stmts' =>
      have hline := Stmt.line_charsAll h' hp' n (indented indent ('\x7d' :: rest'))
      rw [← heq] at hline
      exact absurd hline Line.not_close
  | cons stmt stmts ih =>
    obtain ⟨hstmt, hstmts⟩ := List.forall_mem_cons.1 hunique
    cases stmts' with
    | nil =>
      have hline := Stmt.line_charsAll h hp n (indented indent ('\x7d' :: rest))
      rw [heq] at hline
      exact absurd hline Line.not_close
    | cons stmt' stmts' =>
      obtain ⟨-, hps⟩ := plain_append.1 hp
      obtain ⟨hp', hps'⟩ := plain_append.1 hp'
      obtain ⟨hsame, hmore⟩ := hstmt stmt' spot' h'.1 hp' _ _
        (Stmt.charsAll_not_line h.2 hps (.inl rfl)) (Stmt.charsAll_not_line h'.2 hps' (.inl rfl)) heq
      obtain ⟨hsames, hrest⟩ := ih hstmts h.2 hps h'.2 hps' hmore
      exact ⟨by rw [Stmt.relabelAll, Stmt.relabelAll, hsame, hsames], hrest⟩

/-- Blocks that are written alike are alike, and so is what stands behind them. -/
theorem unique_block {decls decls' : List Decl} {stmts stmts' : List Stmt} {spot spot' : Spot}
    (hunique : ∀ stmt ∈ stmts, stmt.Unique (indent + indentStep))
    (hds : ∀ decl ∈ decls, decl.LegibleVar) (hds' : ∀ decl ∈ decls', decl.LegibleVar)
    (h : Stmt.LegibleAll spot stmts) (hp : Plain (Stmt.occurrencesAll stmts))
    (h' : Stmt.LegibleAll spot' stmts') (hp' : Plain (Stmt.occurrencesAll stmts'))
    (heq : blockChars indent decls stmts rest = blockChars indent decls' stmts' rest') :
    Decl.relabelAll unplace decls = Decl.relabelAll unplace decls' ∧
      Stmt.relabelAll unplace stmts = Stmt.relabelAll unplace stmts' ∧ rest = rest' := by
  induction decls generalizing decls' with
  | nil =>
    cases decls' with
    | nil => exact ⟨rfl, Stmt.unique_all hunique h hp h' hp' heq⟩
    | cons decl' decls' =>
      have hline : Line .declare (blockChars indent (decl' :: decls') stmts' rest') :=
        Decl.line_var (hds' decl' List.mem_cons_self) _ _
      rw [← heq] at hline
      exact absurd hline (Stmt.charsAll_not_line h hp (.inr rfl))
  | cons decl decls ih =>
    obtain ⟨hd, hds⟩ := List.forall_mem_cons.1 hds
    cases decls' with
    | nil =>
      have hline : Line .declare (blockChars indent (decl :: decls) stmts rest) :=
        Decl.line_var hd _ _
      rw [heq] at hline
      exact absurd hline (Stmt.charsAll_not_line h' hp' (.inr rfl))
    | cons decl' decls' =>
      obtain ⟨hd', hds'⟩ := List.forall_mem_cons.1 hds'
      obtain ⟨hsame, hmore⟩ := Decl.unique_var hd hd' heq
      obtain ⟨hsames, hstmts⟩ := ih hds hds' hmore
      exact ⟨by rw [Decl.relabelAll, Decl.relabelAll, hsame, hsames], hstmts⟩

end Block

/-! ## Statements without a block -/

section Simple

variable {spot : Spot} {indent : Nat}

/-- An expression and the end of its line. -/
theorem Expr.unique_ended {e e' : Expr} (h : e.Legible) (hp : Plain e.occurrences)
    (h' : e'.Legible) (hp' : Plain e'.occurrences) {rest rest' : List Char}
    (heq : e.chars (';' :: '\n' :: rest) = e'.chars (';' :: '\n' :: rest')) :
    e.relabel unplace = e'.relabel unplace ∧ rest = rest' := by
  have hends (rest : List Char) : Ends (';' :: rest) := ends_cons _ (by decide)
  obtain ⟨hsame, hrest⟩ := Expr.unique h hp _ h' hp' _ _ (hends _) (hends _) heq
  exact ⟨hsame, by simpa using hrest⟩

theorem Stmt.unique_assign {target value : Expr}
    (h : (Stmt.assign (.assign target value)).Legible spot)
    (hp : Plain (Stmt.assign (.assign target value)).occurrences) :
    (Stmt.assign (.assign target value)).Unique indent := by
  intro stmt' spot' h' hp' rest rest' _ _ heq
  obtain ⟨hform, hlead, hbehind⟩ := Stmt.split h hp h' hp' heq
  cases stmt' with
  | assign assignment =>
    cases assignment with
    | assign target' value' =>
      have hafter : value.chars (';' :: '\n' :: rest) = value'.chars (';' :: '\n' :: rest') := by
        simpa [Stmt.behind] using hbehind
      obtain ⟨hvalue, hrest⟩ :=
        Expr.unique_ended h.2 (plain_append.1 hp).2 h'.2 (plain_append.1 hp').2 hafter
      have htarget : target.relabel unplace = target'.relabel unplace := hlead
      exact ⟨by simp [Stmt.relabel, Expr.relabel, htarget, hvalue], hrest⟩
    | _ => exact h'.elim
  | _ => cases hform

theorem Stmt.unique_increment {target : Expr} (h : (Stmt.increment target).Legible spot)
    (hp : Plain (Stmt.increment target).occurrences) : (Stmt.increment target).Unique indent := by
  intro stmt' spot' h' hp' rest rest' _ _ heq
  obtain ⟨hform, hlead, hbehind⟩ := Stmt.split h hp h' hp' heq
  cases stmt' with
  | increment target' => exact ⟨congrArg Stmt.increment hlead, by simpa [Stmt.behind] using hbehind⟩
  | _ => cases hform

theorem Stmt.unique_decrement {target : Expr} (h : (Stmt.decrement target).Legible spot)
    (hp : Plain (Stmt.decrement target).occurrences) : (Stmt.decrement target).Unique indent := by
  intro stmt' spot' h' hp' rest rest' _ _ heq
  obtain ⟨hform, hlead, hbehind⟩ := Stmt.split h hp h' hp' heq
  cases stmt' with
  | decrement target' => exact ⟨congrArg Stmt.decrement hlead, by simpa [Stmt.behind] using hbehind⟩
  | _ => cases hform

theorem Stmt.unique_read {target : Expr} (h : (Stmt.read target).Legible spot)
    (hp : Plain (Stmt.read target).occurrences) : (Stmt.read target).Unique indent := by
  intro stmt' spot' h' hp' rest rest' _ _ heq
  obtain ⟨hform, -, hbehind⟩ := Stmt.split h hp h' hp' heq
  cases stmt' with
  | read target' =>
    have hafter : target.chars (';' :: '\n' :: rest) = target'.chars (';' :: '\n' :: rest') := by
      simpa [Stmt.behind] using hbehind
    obtain ⟨hsame, hrest⟩ := (Expr.Heads.chain h hp).unique (Expr.Heads.chain h' hp')
      (parts_semicolon _) (parts_semicolon _) hafter
    exact ⟨congrArg Stmt.read hsame, by simpa using hrest⟩
  | _ => cases hform

theorem Stmt.unique_write {value : Expr} (h : (Stmt.write value).Legible spot)
    (hp : Plain (Stmt.write value).occurrences) : (Stmt.write value).Unique indent := by
  intro stmt' spot' h' hp' rest rest' _ _ heq
  obtain ⟨hform, -, hbehind⟩ := Stmt.split h hp h' hp' heq
  cases stmt' with
  | write value' =>
    have hafter : value.chars (';' :: '\n' :: rest) = value'.chars (';' :: '\n' :: rest') := by
      simpa [Stmt.behind] using hbehind
    obtain ⟨hsame, hrest⟩ := Expr.unique_ended h hp h' hp' hafter
    exact ⟨congrArg Stmt.write hsame, hrest⟩
  | _ => cases hform

theorem Stmt.unique_returnValue {value : Expr} (h : (Stmt.returnValue value).Legible spot)
    (hp : Plain (Stmt.returnValue value).occurrences) :
    (Stmt.returnValue value).Unique indent := by
  intro stmt' spot' h' hp' rest rest' _ _ heq
  obtain ⟨hform, -, hbehind⟩ := Stmt.split h hp h' hp' heq
  cases stmt' with
  | returnValue value' =>
    have hafter : value.chars (';' :: '\n' :: rest) = value'.chars (';' :: '\n' :: rest') := by
      simpa [Stmt.behind] using hbehind
    obtain ⟨hsame, hrest⟩ := Expr.unique_ended h hp h' hp' hafter
    exact ⟨congrArg Stmt.returnValue hsame, hrest⟩
  | _ => cases hform

theorem Stmt.unique_returnNothing : Stmt.returnNothing.Unique indent := by
  intro stmt' spot' h' hp' rest rest' _ _ heq
  have h : Stmt.returnNothing.Legible .blockStart := trivial
  obtain ⟨hform, -, hbehind⟩ := Stmt.split h (List.forall_mem_nil _) h' hp' heq
  cases stmt' with
  | returnNothing => exact ⟨rfl, by simpa [Stmt.behind] using hbehind⟩
  | stray => exact h'.elim
  | _ => cases hform

theorem Stmt.unique_call {callee : Ident} {args : List Expr}
    (h : (Stmt.call (.call callee args)).Legible spot)
    (hp : Plain (Stmt.call (.call callee args)).occurrences) :
    (Stmt.call (.call callee args)).Unique indent := by
  intro stmt' spot' h' hp' rest rest' _ _ heq
  obtain ⟨hform, hlead, hbehind⟩ := Stmt.split h hp h' hp' heq
  cases stmt' with
  | call call' =>
    cases call' with
    | call callee' args' =>
      have hargs := (plain_cons.1 hp).2
      obtain ⟨hsame, hrest⟩ := Expr.args_unique h.2 (Expr.uniqueAll h.2 hargs) h'.2
        (plain_cons.1 hp').2 (List.cons.inj hbehind).2
      obtain hcallee : callee.relabel unplace = callee'.relabel unplace := Expr.name.inj hlead
      exact ⟨by simp [Stmt.relabel, Expr.relabel, hcallee, hsame], by simpa using hrest⟩
    | _ => exact h'.elim
  | _ => cases hform

end Simple

/-! ## Statements with blocks -/

section Blocks

variable {spot : Spot} {indent : Nat}

/-- Conditions in parentheses that are written alike with what stands behind them. -/
theorem unique_guarded {condition condition' : Expr} (h : condition.Legible)
    (hp : Plain condition.occurrences) (h' : condition'.Legible) (hp' : Plain condition'.occurrences)
    {rest rest' : List Char} (heq : guarded condition rest = guarded condition' rest') :
    condition.relabel unplace = condition'.relabel unplace ∧ rest = rest' := by
  have hafter : condition.chars (')' :: ' ' :: '\x7b' :: '\n' :: rest) =
      condition'.chars (')' :: ' ' :: '\x7b' :: '\n' :: rest') := by
    simpa [guarded] using heq
  obtain ⟨hsame, hrest⟩ :=
    Expr.unique h hp _ h' hp' _ _ (ends_closeParen _) (ends_closeParen _) hafter
  exact ⟨hsame, by simpa using hrest⟩

theorem otherwise_inj {block block' : List Char}
    (h : otherwise indent block = otherwise indent block') : block = block' := by
  simpa [otherwise, indented, Fixed.named, Expr.chars] using h

theorem Stmt.unique_loop {condition : Expr} {decls : List Decl} {stmts : List Stmt}
    (h : (Stmt.loop condition decls stmts).Legible spot)
    (hp : Plain (Stmt.loop condition decls stmts).occurrences)
    (hunique : ∀ stmt ∈ stmts, stmt.Unique (indent + indentStep)) :
    (Stmt.loop condition decls stmts).Unique indent := by
  intro stmt' spot' h' hp' rest rest' _ _ heq
  obtain ⟨hform, -, hbehind⟩ := Stmt.split h hp h' hp' heq
  cases stmt' with
  | loop condition' decls' stmts' =>
    simp only [Stmt.occurrences, plain_append] at hp hp'
    obtain ⟨hcondition, hblock⟩ := unique_guarded h.1 hp.1.1 h'.1 hp'.1.1 hbehind
    obtain ⟨hdecls, hstmts, hrest⟩ :=
      unique_block hunique h.2.1 h'.2.1 h.2.2 hp.2 h'.2.2 hp'.2 hblock
    exact ⟨by simp [Stmt.relabel, hcondition, hdecls, hstmts], by simpa using hrest⟩
  | _ => cases hform

/-- An `if` without another block: what stands behind it shows that there is none. -/
theorem Stmt.unique_ifThen {condition : Expr} {decls : List Decl} {stmts : List Stmt}
    (h : (Stmt.ifThen condition decls stmts).Legible spot)
    (hp : Plain (Stmt.ifThen condition decls stmts).occurrences)
    (hunique : ∀ stmt ∈ stmts, stmt.Unique (indent + indentStep)) :
    (Stmt.ifThen condition decls stmts).Unique indent := by
  intro stmt' spot' h' hp' rest rest' hcloses _ heq
  obtain ⟨hform, -, hbehind⟩ := Stmt.split h hp h' hp' heq
  simp only [Stmt.occurrences, plain_append] at hp
  cases stmt' with
  | ifThen condition' decls' stmts' =>
    simp only [Stmt.occurrences, plain_append] at hp'
    obtain ⟨hcondition, hblock⟩ := unique_guarded h.1 hp.1.1 h'.1 hp'.1.1 hbehind
    obtain ⟨hdecls, hstmts, hrest⟩ :=
      unique_block hunique h.2.1 h'.2.1 h.2.2 hp.2 h'.2.2 hp'.2 hblock
    exact ⟨by simp [Stmt.relabel, hcondition, hdecls, hstmts], by simpa using hrest⟩
  | ifElse condition' thenDecls thenStmts elseDecls elseStmts =>
    simp only [Stmt.occurrences, plain_append] at hp'
    obtain ⟨-, hblock⟩ := unique_guarded h.1 hp.1.1 h'.1 hp'.1.1.1.1 hbehind
    obtain ⟨-, -, hrest⟩ :=
      unique_block hunique h.2.1 h'.2.1 h.2.2 hp.2 h'.2.2.1 hp'.1.1.2 hblock
    -- behind the same block the one text closes, and the other opens a block
    rw [(List.cons.inj hrest).2] at hcloses
    exact absurd (line_otherwise _ _) hcloses
  | _ => cases hform

theorem Stmt.unique_ifElse {condition : Expr} {thenDecls elseDecls : List Decl}
    {thenStmts elseStmts : List Stmt}
    (h : (Stmt.ifElse condition thenDecls thenStmts elseDecls elseStmts).Legible spot)
    (hp : Plain (Stmt.ifElse condition thenDecls thenStmts elseDecls elseStmts).occurrences)
    (hthen : ∀ stmt ∈ thenStmts, stmt.Unique (indent + indentStep))
    (helse : ∀ stmt ∈ elseStmts, stmt.Unique (indent + indentStep)) :
    (Stmt.ifElse condition thenDecls thenStmts elseDecls elseStmts).Unique indent := by
  intro stmt' spot' h' hp' rest rest' _ hcloses' heq
  obtain ⟨hform, -, hbehind⟩ := Stmt.split h hp h' hp' heq
  simp only [Stmt.occurrences, plain_append] at hp
  obtain ⟨hc, htd, hts, hed, hes⟩ := h
  cases stmt' with
  | ifThen condition' decls' stmts' =>
    simp only [Stmt.occurrences, plain_append] at hp'
    obtain ⟨-, hblock⟩ := unique_guarded hc hp.1.1.1.1 h'.1 hp'.1.1 hbehind
    obtain ⟨-, -, hrest⟩ := unique_block hthen htd h'.2.1 hts hp.1.1.2 h'.2.2 hp'.2 hblock
    rw [← (List.cons.inj hrest).2] at hcloses'
    exact absurd (line_otherwise _ _) hcloses'
  | ifElse condition' thenDecls' thenStmts' elseDecls' elseStmts' =>
    simp only [Stmt.occurrences, plain_append] at hp'
    obtain ⟨hc', htd', hts', hed', hes'⟩ := h'
    obtain ⟨hcondition, hblock⟩ := unique_guarded hc hp.1.1.1.1 hc' hp'.1.1.1.1 hbehind
    obtain ⟨hdecls, hstmts, hrest⟩ :=
      unique_block hthen htd htd' hts hp.1.1.2 hts' hp'.1.1.2 hblock
    have hother : blockChars indent elseDecls elseStmts ('\n' :: rest) =
        blockChars indent elseDecls' elseStmts' ('\n' :: rest') :=
      otherwise_inj (List.cons.inj hrest).2
    obtain ⟨hdecls', hstmts', hrest⟩ := unique_block helse hed hed' hes hp.2 hes' hp'.2 hother
    exact ⟨by simp [Stmt.relabel, hcondition, hdecls, hstmts, hdecls', hstmts'], by simpa using hrest⟩
  | _ => cases hform

end Blocks

mutual

/-- Legible statements that are written alike are alike, and so is what stands behind them. -/
theorem Stmt.unique : ∀ {stmt : Stmt} {spot : Spot}, stmt.Legible spot → Plain stmt.occurrences →
    ∀ indent, stmt.Unique indent
  | .assign (.assign _ _), _, h, hp, _ => Stmt.unique_assign h hp
  | .increment _, _, h, hp, _ => Stmt.unique_increment h hp
  | .decrement _, _, h, hp, _ => Stmt.unique_decrement h hp
  | .read _, _, h, hp, _ => Stmt.unique_read h hp
  | .write _, _, h, hp, _ => Stmt.unique_write h hp
  | .call (.call _ _), _, h, hp, _ => Stmt.unique_call h hp
  | .returnNothing, _, _, _, _ => Stmt.unique_returnNothing
  | .returnValue _, _, h, hp, _ => Stmt.unique_returnValue h hp
  | .ifThen .., _, h, hp, indent =>
    Stmt.unique_ifThen h hp (Stmt.uniqueAll h.2.2 (plain_append.1 hp).2 (indent + indentStep))
  | .loop .., _, h, hp, indent =>
    Stmt.unique_loop h hp (Stmt.uniqueAll h.2.2 (plain_append.1 hp).2 (indent + indentStep))
  | .ifElse condition thenDecls thenStmts elseDecls elseStmts, _, h, hp, indent => by
    have hps := hp
    simp only [Stmt.occurrences, plain_append] at hps
    exact Stmt.unique_ifElse h hp
      (Stmt.uniqueAll h.2.2.1 hps.1.1.2 (indent + indentStep))
      (Stmt.uniqueAll h.2.2.2.2 hps.2 (indent + indentStep))

theorem Stmt.uniqueAll : ∀ {stmts : List Stmt} {spot : Spot}, Stmt.LegibleAll spot stmts →
    Plain (Stmt.occurrencesAll stmts) → ∀ indent, ∀ stmt ∈ stmts, stmt.Unique indent
  | [], _, _, _, _ => List.forall_mem_nil _
  | _ :: _, _, h, hp, indent =>
    List.forall_mem_cons.2 ⟨Stmt.unique h.1 (plain_append.1 hp).1 indent,
      Stmt.uniqueAll h.2 (plain_append.1 hp).2 indent⟩

end

end Moo
