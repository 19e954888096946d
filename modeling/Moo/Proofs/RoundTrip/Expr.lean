import Moo.Printer
import Moo.Proofs.Reading.Judgments
import Moo.Proofs.Reading.Run
import Moo.Proofs.Tree.Relabel
import Moo.Tree.Occurrence

/-!
# Printed expressions, read back

A printed expression is an operand: operators and assignments stand in
parentheses. Where an operand starts it is read as the same expression, at
other locations; but what stands in front of a dot is printed in
parentheses too, and behind a closing parenthesis no dot is read.

* `Expr.ReadsBack`: what reading a text back as the expression means.
* `Expr.prints`: a legible expression prints, and its text reads back.
* `Expr.printsAll`: the same for the arguments of a call.
-/
namespace Moo

open Relabel (unplace)

def Occurrence.isDot : Occurrence → Bool
  | ident _ | stray _ => false
  | dot .. => true

/-- Whether there is a field access among the occurrences. -/
def dotted (occurrences : List Occurrence) : Bool :=
  occurrences.any Occurrence.isDot

@[simp]
theorem dotted_nil : dotted [] = false := rfl

@[simp]
theorem dotted_ident (id : Ident) (os : List Occurrence) :
    dotted (.ident id :: os) = dotted os := rfl

@[simp]
theorem dotted_append (os ps : List Occurrence) :
    dotted (os ++ ps) = (dotted os || dotted ps) :=
  List.any_append

/-- After an operand that is the expression, up to locations. -/
def Place.AfterOperand (pending : List Pending) (hole : Hole) (e : Expr) (place : Place) : Prop :=
  ∃ e' : Expr, e'.relabel unplace = e.relabel unplace ∧ place.EndsOperand pending hole e'

/-- Where an operand starts, the text is read as the expression, unless that has a dot. -/
def Expr.ReadsBack (e : Expr) (text : List Char) : Prop :=
  ∀ pending hole rest, Parts rest →
    (Place.atOperand pending hole).ReadsUnless (dotted e.occurrences) (text ++ rest) rest
      (Place.AfterOperand pending hole e)

/-- The text starts with no character that makes another sign of a minus or an exclamation mark. -/
def StartsOperand (text : List Char) : Prop :=
  ∃ c more, text = c :: more ∧ c ≠ '-' ∧ c ≠ '='

theorem StartsOperand.append {text : List Char} (h : StartsOperand text) (rest : List Char) :
    StartsOperand (text ++ rest) := by
  obtain ⟨c, more, rfl, hc⟩ := h
  exact ⟨c, more ++ rest, rfl, hc⟩

theorem startsOperand_openParen (text : List Char) : StartsOperand ('(' :: text) :=
  ⟨'(', text, rfl, by decide, by decide⟩

/-- The expression prints as a text that reads back. -/
def Expr.Prints (e : Expr) : Prop :=
  ∃ text, e.print false = .ok text ∧ StartsOperand text.toList ∧ e.ReadsBack text.toList

/-! ## One word -/

theorem Ident.relabel_unplace {id : Ident} (loc : Option Loc) (h : id.symbol = none) :
    (⟨id.name, loc, none⟩ : Ident).relabel unplace = id.relabel unplace := by
  simp [Ident.relabel, unplace, h]

theorem Ident.Fits.startsOperand {id : Ident} {spot : Spot} (h : id.Fits spot) :
    StartsOperand id.name.toList := by
  obtain ⟨c, more, hw, hs, _⟩ := h.spelled
  exact ⟨c, more, hw, ne_of_kind hs (by decide), ne_of_kind hs (by decide)⟩

/-- A name that fits where an operand must start fits where one may. -/
theorem Ident.Fits.atOperand {id : Ident} (h : id.Fits .operand) (pending : List Pending)
    (hole : Hole) : id.Fits (Place.atOperand pending hole).spot := by
  refine h.mono fun f hk hf => ?_
  have hsigns : f ≠ .semicolon ∧ f ≠ .closeParen := by
    constructor <;> rintro rfl <;> revert hk <;> decide
  revert hf
  unfold Place.spot
  split <;> simp_all [Spot.offers, Spot.terminals]

/-- A name where one may start. -/
theorem reads_name {place : Place} {seat : Seat} {id : Ident} (hid : id.Fits place.spot)
    (hs : place.StartsName seat) {rest : List Char} (hr : Parts rest) :
    place.Reads (id.name.toList ++ rest) rest fun next =>
      ∃ id' : Ident, id'.relabel unplace = id.relabel unplace ∧
        next = .afterTarget seat (.name id') :=
  .ident hid hr fun loc => ⟨_, hs ⟨.ident, id.name, loc⟩ rfl, _, Ident.relabel_unplace _ hid.symbol,
    rfl⟩

theorem reads_operandName {id : Ident} (h : id.Fits .operand) (pending : List Pending)
    (hole : Hole) {rest : List Char} (hr : Parts rest) :
    (Place.atOperand pending hole).Reads (id.name.toList ++ rest) rest fun next =>
      ∃ id' : Ident, id'.relabel unplace = id.relabel unplace ∧
        next = .afterTarget (.operand pending hole) (.name id') :=
  reads_name (h.atOperand pending hole) (startsName_atOperand pending hole) hr

/-- A word that is a whole operand but no target. -/
theorem Expr.prints_literal {e : Expr} (text : String) (t : Terminal)
    (hp : e.print false = .ok text) (hstart : StartsOperand text.toList)
    (hd : e.occurrences = []) (hlex : IsLexeme t text.toList) (hi : t ≠ .ident)
    (hshort : t = .number → text.length ≤ maxDigits)
    (hjoin : ∀ d, isWordPart d = false → t.joins d = false)
    (hs : ∀ pending hole loc, ∃ e' : Expr, e'.relabel unplace = e.relabel unplace ∧
      (Place.atOperand pending hole).step? ⟨t, text, loc⟩ = some (.afterValue pending hole e')) :
    e.Prints := by
  refine ⟨text, hp, hstart, fun pending hole rest hr => ?_⟩
  rw [hd]
  refine .word hlex (fun h => absurd h hi) hshort (fun d h => hjoin d (hr d h)) fun loc => ?_
  obtain ⟨e', he, hstep⟩ := hs pending hole loc
  exact ⟨_, hstep, e', he, fun _ _ => rfl⟩

theorem Expr.prints_int {value : Int} {loc : Option Loc} (h : (Expr.int value loc).Legible) :
    (Expr.int value loc).Prints := by
  obtain ⟨n, rfl, hlen⟩ := h
  obtain ⟨hne, hdigits⟩ := isLexeme_repr n
  obtain ⟨c, more, hcons⟩ := List.exists_cons_of_ne_nil hne
  have hc : c.isDigit = true := hdigits c (by rw [hcons]; exact List.mem_cons_self)
  refine Expr.prints_literal n.repr .number rfl
    ⟨c, more, hcons, ne_of_kind hc (by decide), ne_of_kind hc (by decide)⟩ rfl ⟨hne, hdigits⟩
    (by simp) (fun _ => hlen) (fun d => isDigit_isWordPart) fun pending hole loc' => ?_
  refine ⟨.int n loc', by simp [Expr.relabel, unplace], ?_⟩
  simp [Place.step?, operandStep?, Token.number]

theorem Expr.prints_str {text : String} {loc : Option Loc} (h : (Expr.str text loc).Legible) :
    (Expr.str text loc).Prints := by
  obtain ⟨inside, _, hw⟩ := id h
  refine Expr.prints_literal text .text rfl ⟨'"', _, hw, by decide, by decide⟩ rfl h
    (by simp) (by simp) (fun _ _ => rfl) fun pending hole loc' => ?_
  exact ⟨.str text loc', by simp [Expr.relabel, unplace], by simp [Place.step?, operandStep?]⟩

theorem Expr.prints_bool (value : Bool) (loc : Option Loc) : (Expr.bool value loc).Prints := by
  have hword : ∃ f : Fixed, (Expr.bool value loc).print false = .ok f.spelling ∧
      f.isKeyword = true ∧ StartsOperand f.spelling.toList ∧ ∀ pending hole (loc' : Loc),
        (Place.atOperand pending hole).step? ⟨.fixed f, f.spelling, loc'⟩ =
          some (.afterValue pending hole (.bool value loc')) := by
    cases value with
    | true =>
      exact ⟨.trueWord, rfl, by decide, ⟨'t', _, rfl, by decide, by decide⟩, fun _ _ _ => rfl⟩
    | false =>
      exact ⟨.falseWord, rfl, by decide, ⟨'f', _, rfl, by decide, by decide⟩, fun _ _ _ => rfl⟩
  obtain ⟨f, hp, hk, hstart, hstep⟩ := hword
  refine Expr.prints_literal f.spelling (.fixed f) hp hstart rfl rfl (by simp) (by simp)
    (fun d hd => ?_) fun pending hole loc' => ⟨.bool value loc', rfl, hstep pending hole loc'⟩
  simpa [Terminal.joins, hk] using hd

theorem Expr.prints_name {id : Ident} (h : id.Fits .operand) : (Expr.name id).Prints := by
  refine ⟨id.name, rfl, h.startsOperand, fun pending hole rest hr => ?_⟩
  refine (reads_operandName h pending hole hr).mono ?_
  intro next hnext
  obtain ⟨id', hid, rfl⟩ := hnext
  exact ⟨.name id', by simp [Expr.relabel, hid], endsOperand_afterTarget pending hole _⟩

/-! ## Parentheses -/

theorem reads_openGroup (pending : List Pending) (hole : Hole) (rest : List Char) :
    (Place.atOperand pending hole).Reads ('(' :: rest) rest
      (· = .atOperand [] (.group pending hole)) :=
  .sign .openParen (by decide) fun _ => Place.Steps.step?_eq (.operand (.group rfl))

/-- The parenthesis behind an expression in parentheses. -/
theorem reads_closeGroup {pending : List Pending} {hole : Hole} {e : Expr} {place : Place}
    (h : place.EndsExp (.group pending hole) e) (rest : List Char) :
    place.Reads (')' :: rest) rest (· = .afterValue pending hole e) := by
  refine .sign .closeParen (by decide) fun loc => ?_
  rw [h _ (by simp)]
  simp [Hole.close?]

theorem Expr.prints_dot {object : Expr} {field : Ident} {symbol : Option Symbol}
    (h : object.Prints) : (Expr.dot object field symbol).Prints := by
  obtain ⟨text, hp, _, hback⟩ := h
  refine ⟨"(" ++ text ++ ")." ++ field.name, ?_, ?_, fun pending hole rest _ => ?_⟩
  · simp only [Expr.print, hp]
    rfl
  · simpa using startsOperand_openParen _
  · have htext : ("(" ++ text ++ ")." ++ field.name).toList ++ rest =
        '(' :: (text.toList ++ ')' :: '.' :: (field.name.toList ++ rest)) := by simp
    rw [htext]
    refine (reads_openGroup pending hole _).toRefuses ?_
    refine (hback _ _ _ (parts_closeParen _)).refuses fun next hnext => ?_
    obtain ⟨object', _, hend⟩ := hnext
    refine (reads_closeGroup hend.exp _).toRefuses ?_
    have hdot : ('.', Fixed.dot) ∈ Place.loneSigns := by decide
    exact .sign hdot rfl

theorem Expr.prints_unary {op : Fixed} {operand : Expr} (ho : op ∈ [Fixed.minus, .not])
    (h : operand.Prints) : (Expr.unary op.spelling operand).Prints := by
  obtain ⟨text, hp, ⟨c, more, hc, hminus, hequal⟩, hback⟩ := h
  have hsign (pending : List Pending) (hole : Hole) (rest : List Char) :
      (Place.atOperand pending hole).Reads (op.spelling.toList ++ (text.toList ++ rest))
        (text.toList ++ rest) (· = .atOperand (.unary op.spelling :: pending) hole) := by
    refine .fixed op (fun d hd => ?_) fun loc => ?_
    · rw [hc] at hd
      cases hd
      exact Fixed.joins_minus_not ho ⟨hminus, hequal⟩
    · exact Place.Steps.step?_eq (.operand (.sign ho rfl))
  refine ⟨"(" ++ op.spelling ++ text ++ ")", ?_, ?_, fun pending hole rest _ => ?_⟩
  · simp only [Expr.print, hp]
    rfl
  · simpa using startsOperand_openParen _
  · have htext : ("(" ++ op.spelling ++ text ++ ")").toList ++ rest =
        '(' :: (op.spelling.toList ++ (text.toList ++ ')' :: rest)) := by simp
    rw [htext]
    refine (reads_openGroup pending hole _).toUnless ((hsign _ _ _).toUnless ?_)
    refine (hback _ _ _ (parts_closeParen _)).reads fun next hnext => ?_
    obtain ⟨operand', hlike, hend⟩ := hnext
    refine (reads_closeGroup hend.exp _).mono ?_
    rintro _ rfl
    exact ⟨.unary op.spelling operand', by simp [Expr.relabel, hlike], fun _ _ => rfl⟩

/-! ## Operators and assignments -/

/-- Two operands in parentheses with a word between them. The first is read, and `wait` keeps it
until the second is; `wait` also says what they are together. -/
theorem Expr.prints_infix {e left right : Expr} (text text' : List Char) (word : Fixed)
    (wait : Expr → Pending) (printed : String) (hp : e.print false = .ok printed)
    (htext : printed.toList =
      '(' :: (text ++ ' ' :: (word.spelling.toList ++ ' ' :: (text' ++ [')']))))
    (ho : e.occurrences = left.occurrences ++ right.occurrences)
    (hl : ∀ hole rest, (Place.atOperand [] hole).ReadsUnless (dotted left.occurrences)
      (text ++ ' ' :: (word.spelling.toList ++ ' ' :: rest)) rest fun next =>
        ∃ left' : Expr, left'.relabel unplace = left.relabel unplace ∧
          next = .atOperand [wait left'] hole)
    (hr : right.ReadsBack text')
    (hjoin : ∀ left' right' : Expr, left'.relabel unplace = left.relabel unplace →
      right'.relabel unplace = right.relabel unplace →
        (settleAll right' [wait left']).relabel unplace = e.relabel unplace) : e.Prints := by
  refine ⟨printed, hp, htext ▸ startsOperand_openParen _, fun pending hole rest _ => ?_⟩
  have hrest : printed.toList ++ rest =
      '(' :: (text ++ ' ' :: (word.spelling.toList ++ ' ' :: (text' ++ ')' :: rest))) := by
    simp [htext]
  rw [hrest, ho, dotted_append]
  refine (reads_openGroup pending hole _).toUnless ((hl _ _).seq ?_)
  intro next hnext
  obtain ⟨left', hleft, rfl⟩ := hnext
  refine (hr _ _ _ (parts_closeParen _)).reads fun next hnext => ?_
  obtain ⟨right', hright, hend⟩ := hnext
  refine (reads_closeGroup hend.exp _).mono ?_
  rintro _ rfl
  exact ⟨_, hjoin left' right' hleft hright, fun _ _ => rfl⟩

theorem pendOperator?_nil (binding : Nat) (op : String) (e : Expr) :
    pendOperator? binding op e [] = some [.binary binding op e] := by
  simp only [pendOperator?, settle]
  split <;> rfl

theorem Expr.prints_binary {word : Fixed} {binding : Nat} {left right : Expr}
    (hw : word.binding? = some binding) (hl : left.Prints) (hr : right.Prints) :
    (Expr.binary word.spelling left right).Prints := by
  obtain ⟨text, hp, _, hback⟩ := hl
  obtain ⟨text', hp', _, hback'⟩ := hr
  refine Expr.prints_infix text.toList text'.toList word (.binary binding word.spelling)
    ("(" ++ text ++ " " ++ word.spelling ++ " " ++ text' ++ ")") ?_ (by simp) rfl
    (fun hole rest => ?_) hback' fun left' right' hleft hright => ?_
  · simp only [Expr.print, hp, hp']
    rfl
  · refine (hback _ _ _ (parts_blank _)).reads fun next hnext => ?_
    obtain ⟨left', hlike, hend⟩ := hnext
    refine (Place.Reads.spaced word fun loc => ?_).mono fun _ hn => ⟨left', hlike, hn⟩
    rw [hend _ (mem_operandEnds hw)]
    simp [valueStep?, hw, pendOperator?_nil]
  · simp [settleAll, settle, Expr.relabel, hleft, hright]

theorem Expr.prints_assign {target value : Expr} (hh : target.Heads .operand)
    (ht : target.Prints) (hv : value.Prints) : (Expr.assign target value).Prints := by
  obtain ⟨text, hp, _, hback⟩ := ht
  obtain ⟨text', hp', _, hback'⟩ := hv
  refine Expr.prints_infix text.toList text'.toList .becomes .assign
    ("(" ++ text ++ " = " ++ text' ++ ")") ?_ (by simp [Fixed.spelling]) rfl
    (fun hole rest => ?_) hback' fun target' value' htarget hvalue => ?_
  · simp only [Expr.print, hp, hp']
    rfl
  · cases target with
    | name id =>
      cases hp
      refine (reads_operandName hh [] hole (parts_blank _)).seq ?_
      intro next hnext
      obtain ⟨id', hid, rfl⟩ := hnext
      refine (Place.Reads.spaced .becomes fun loc => ?_).mono
        fun _ hn => ⟨.name id', by simp [Expr.relabel, hid], hn⟩
      exact Place.Steps.step?_eq (.target (.assign rfl rfl))
    | dot => exact hback [] hole _ (parts_blank _)
    | _ => exact hh.elim
  · simp [settleAll, settle, Expr.relabel, htarget, hvalue]

/-! ## Calls -/

/-- The arguments print as texts that read back. -/
def Expr.AllPrint (es : List Expr) : Prop :=
  ∃ texts, Expr.printAll false es = .ok texts ∧
    List.Forall₂ (fun e text => e.ReadsBack text.toList) es texts

/-- A hole for a list of arguments, and the place that its closing parenthesis leads to. -/
structure Collects (hole : List Expr → Hole) (result : List Expr → Place) : Prop where
  takes : TakesArguments hole
  close : ∀ (args : List Expr) (e : Expr) (closeParen : Token),
    closeParen.terminal = .fixed .closeParen →
      (hole args).close? e closeParen = some (result (e :: args).reverse)
  empty : ∀ closeParen : Token, closeParen.terminal = .fixed .closeParen →
    (hole []).closeEmpty? closeParen = some (result [])

theorem collects_argument (callee : Ident) (pending : List Pending) (outer : Hole) :
    Collects (Hole.argument callee · pending outer) (.afterValue pending outer <| .call callee ·) :=
  ⟨takesArguments_argument callee pending outer, fun _ _ _ hc => by simp [Hole.close?, hc],
    fun _ hc => by simp [Hole.closeEmpty?, hc]⟩

theorem collects_argumentOfCall (block : Block) (callee : Ident) :
    Collects (Hole.argumentOfCall block callee) (.called block <| .call callee ·) :=
  ⟨takesArguments_argumentOfCall block callee, fun _ _ _ hc => by simp [Hole.close?, hc],
    fun _ hc => by simp [Hole.closeEmpty?, hc]⟩

theorem dotted_occurrencesAll (es : List Expr) :
    dotted (Expr.occurrencesAll es) = es.any fun e => dotted e.occurrences := by
  induction es with
  | nil => rfl
  | cons e es ih => simp [Expr.occurrencesAll, ih]

section Arguments

variable {hole : List Expr → Hole} {result : List Expr → Place}

/-- An argument, and what the word behind it does. -/
theorem readsUnless_argument (hc : Collects hole result) {e : Expr} {text : List Char}
    (h : e.ReadsBack text) (done : List Expr) (rest : List Char) (hr : Parts rest) :
    (Place.atOperand [] (hole done)).ReadsUnless (dotted e.occurrences) (text ++ rest) rest
      fun next => ∃ e' : Expr, e'.relabel unplace = e.relabel unplace ∧
        (∀ loc, next.step? ⟨.fixed .comma, ",", loc⟩ = some (.atOperand [] (hole (e' :: done)))) ∧
        ∀ loc, next.step? ⟨.fixed .closeParen, ")", loc⟩ = some (result (e' :: done).reverse) := by
  refine (h [] (hole done) rest hr).mono ?_
  intro next hnext
  obtain ⟨e', hlike, hend⟩ := hnext
  refine ⟨e', hlike, fun loc => ?_, fun loc => ?_⟩
  · rw [hend.exp _ (by simp)]
    exact hc.takes done e' _ rfl
  · rw [hend.exp _ (by simp)]
    exact hc.close done e' _ rfl

/-- The arguments of a call and the parenthesis behind them. -/
theorem readsUnless_arguments (hc : Collects hole result) {es : List Expr} {texts : List String}
    (h : List.Forall₂ (fun e text => Expr.ReadsBack e text.toList) es texts) (rest : List Char) :
    (Place.atOperand [] (hole [])).ReadsUnless (dotted (Expr.occurrencesAll es))
      ((", ".intercalate texts).toList ++ ')' :: rest) rest fun next =>
        ∃ es', Expr.relabelAll unplace es' = Expr.relabelAll unplace es ∧ next = result es' := by
  have hempty (loc : Loc) : (Place.atOperand [] (hole [])).step? ⟨.fixed .closeParen, ")", loc⟩ =
      some (result []) := by
    simp [Place.step?, operandStep?, hc.empty]
  rw [dotted_occurrencesAll]
  refine (Place.readsUnless_commas (.atOperand [] <| hole ·) (result ·.reverse)
    (h.imp fun _ _ h => readsUnless_argument hc h) hempty [] (fun _ => rfl) rest).mono ?_
  intro next hnext
  obtain ⟨es', hlikes, rfl⟩ := hnext
  exact ⟨es', by simpa [Expr.relabelAll_eq_map] using hlikes, by simp⟩

end Arguments

theorem Expr.prints_call {callee : Ident} {args : List Expr} (hc : callee.Fits .operand)
    (hargs : Expr.AllPrint args) : (Expr.call callee args).Prints := by
  obtain ⟨texts, hps, hbacks⟩ := hargs
  have htext (rest : List Char) :
      (callee.name ++ "(" ++ ", ".intercalate texts ++ ")").toList ++ rest =
        callee.name.toList ++ '(' :: ((", ".intercalate texts).toList ++ ')' :: rest) := by
    simp only [String.toList_append, List.append_assoc]
    rfl
  refine ⟨callee.name ++ "(" ++ ", ".intercalate texts ++ ")", ?_, ?_,
    fun pending hole rest _ => ?_⟩
  · simp only [Expr.print, hps]
    rfl
  · rw [← List.append_nil (String.toList _), htext]
    exact hc.startsOperand.append _
  · rw [htext]
    refine (reads_operandName hc pending hole (parts_cons _ (by decide))).unless ?_
    intro next hnext
    obtain ⟨callee', hlike, rfl⟩ := hnext
    have hopen : (Place.afterTarget (.operand pending hole) (.name callee')).Reads
        ('(' :: ((", ".intercalate texts).toList ++ ')' :: rest)) _
        (· = .atOperand [] (.argument callee' [] pending hole)) :=
      .sign .openParen (by decide) fun loc => Place.Steps.step?_eq (.target (.call rfl rfl))
    refine hopen.toUnless ?_
    refine (readsUnless_arguments (collects_argument callee' pending hole) hbacks rest).mono ?_
    intro next hnext
    obtain ⟨args', hlikes, rfl⟩ := hnext
    exact ⟨.call callee' args', by simp [Expr.relabel, hlike, hlikes], fun _ _ => rfl⟩

/-! ## Every expression -/

mutual

/-- A legible expression prints as a text that reads back. -/
theorem Expr.prints : ∀ e : Expr, e.Legible → e.Prints
  | .int _ _, h => Expr.prints_int h
  | .str _ _, h => Expr.prints_str h
  | .bool value loc, _ => Expr.prints_bool value loc
  | .name _, h => Expr.prints_name h
  | .dot object _ _, h => Expr.prints_dot (object.prints (Expr.Heads.legible h))
  | .assign target value, ⟨ht, hv⟩ =>
    Expr.prints_assign ht (target.prints ht.legible) (value.prints hv)
  | .call _ args, ⟨hc, ha⟩ => Expr.prints_call hc (Expr.printsAll args ha)
  | .unary _ operand, h => by
    obtain ⟨⟨word, hw, rfl⟩, ho⟩ := h
    exact Expr.prints_unary hw (operand.prints ho)
  | .binary _ left right, h => by
    obtain ⟨⟨word, binding, hw, rfl⟩, hl, hr⟩ := h
    exact Expr.prints_binary hw (left.prints hl) (right.prints hr)
  | .stray _, h => h.elim

theorem Expr.printsAll : ∀ es : List Expr, Expr.LegibleAll es → Expr.AllPrint es
  | [], _ => ⟨[], rfl, .nil⟩
  | e :: es, ⟨h, hs⟩ => by
    obtain ⟨text, hp, _, hback⟩ := e.prints h
    obtain ⟨texts, hps, hbacks⟩ := Expr.printsAll es hs
    refine ⟨text :: texts, ?_, .cons hback hbacks⟩
    simp only [Expr.printAll, hp, hps]
    rfl

end

end Moo
