import Moo.Proofs.RoundTrip.Decl

/-!
# Printed statements, read back

A statement is read where it is legible: at a block whose spot offers the
same keywords as the spot it came from. It starts with a name or a keyword
of its own, never with a parenthesis, so a target with a dot in it is
refused at its first character.

* `readsUnless_target`: the target of an assignment, `++`, `--` or `>>`.
* `readsLines_condition`: the line that opens a block.
* `Stmt.reads_headed`, `Stmt.reads_ifElse`: statements with blocks.
* `Stmt.prints`, `Stmt.printsAll`: statements of a block.
-/
namespace Moo

open Relabel (unplace)

/-- The lines are read where a statement with the spot starts, as the statement, unless that has a
dot. -/
def Stmt.ReadsBack (spot : Spot) (s : Stmt) (lines : List String) : Prop :=
  ∀ block : Block, block.spot = spot →
    (Place.inBlock block).ReadsLines (dotted s.occurrences) lines fun next =>
      ∃ s' : Stmt, s'.relabel unplace = s.relabel unplace ∧ next = .inBlock (block.addStmt s')

def Stmt.AllReadBack (spot : Spot) (ss : List Stmt) (lines : List String) : Prop :=
  ∀ block : Block, block.spot = spot →
    (Place.inBlock block).ReadsLines (dotted (Stmt.occurrencesAll ss)) lines fun next =>
      ∃ ss', Stmt.relabelAll unplace ss' = Stmt.relabelAll unplace ss ∧
        next = .inBlock (block.addStmts ss')

/-! ## Spots in a block -/

theorem Block.spot_openParen (block : Block) : block.spot.offers (.fixed .openParen) = false := by
  unfold Block.spot
  split <;> rfl

@[simp]
theorem Stmt.after_relabel (r : Relabel) (s : Stmt) : (s.relabel r).after = s.after := by
  cases s <;> simp [Stmt.relabel, Stmt.after]

theorem Stmt.after_eq {s s' : Stmt} (h : s'.relabel unplace = s.relabel unplace) :
    s'.after = s.after := by
  rw [← s'.after_relabel unplace, h, s.after_relabel]

theorem Block.spot_addStmt (block : Block) (s : Stmt) : (block.addStmt s).spot = s.after := by
  cases block <;> cases s <;> rfl

/-! ## Targets -/

theorem Expr.print_of_heads {spot : Spot} :
    ∀ e : Expr, e.Heads spot → ∃ text, e.print false = .ok text
  | .name id, _ => ⟨id.name, rfl⟩
  | .dot object field _, h => by
    obtain ⟨text, hp⟩ := Expr.print_of_heads object h
    exact ⟨"(" ++ text ++ ")." ++ field.name, by simp only [Expr.print, hp]; rfl⟩

/-- A target that stands where no parenthesis may. -/
theorem readsUnless_target {spot : Spot} {target : Expr} (h : target.Heads spot) :
    ∃ text, target.print false = .ok text ∧ ∀ (place : Place) seat, place.spot = spot →
      spot.offers (.fixed .openParen) = false → place.StartsName seat → ∀ rest, Parts rest →
        place.ReadsUnless (dotted target.occurrences) (text.toList ++ rest) rest fun next =>
          ∃ target' : Expr, target'.relabel unplace = target.relabel unplace ∧
            next = .afterTarget seat target' := by
  cases target with
  | name id =>
    refine ⟨id.name, rfl, fun place seat hspot _ hs rest hr => ?_⟩
    subst hspot
    refine Place.Reads.mono (reads_name h hs hr) ?_
    intro next hnext
    obtain ⟨id', hid, rfl⟩ := hnext
    exact ⟨.name id', by simp [Expr.relabel, hid], rfl⟩
  | dot object field symbol =>
    obtain ⟨text, hp⟩ := Expr.print_of_heads object h
    refine ⟨"(" ++ text ++ ")." ++ field.name, by simp only [Expr.print, hp]; rfl,
      fun place seat hspot ho _ rest _ => ?_⟩
    have hopen : ('(', Fixed.openParen) ∈ Place.loneSigns := by decide
    have htext : ("(" ++ text ++ ")." ++ field.name).toList ++ rest =
        '(' :: (text.toList ++ ')' :: '.' :: (field.name.toList ++ rest)) := by simp
    rw [htext]
    exact Place.Refuses.sign hopen (hspot ▸ ho)
  | _ => exact h.elim

/-! ## Whole expressions -/

/-- An expression and the word that ends it. -/
theorem readsUnless_whole {e : Expr} {text : List Char} (h : e.ReadsBack text) {hole : Hole}
    {after : Expr → Place} (f : Fixed) (hf : f ∈ [Fixed.closeParen, .semicolon])
    (hc : ∀ e' loc, hole.close? e' ⟨.fixed f, f.spelling, loc⟩ = some (after e'))
    (rest : List Char) :
    (Place.atOperand [] hole).ReadsUnless (dotted e.occurrences)
      (text ++ (f.spelling.toList ++ rest)) rest fun next =>
        ∃ e' : Expr, e'.relabel unplace = e.relabel unplace ∧ next = after e' := by
  have hsign : f ∈ Fixed.closedSigns ∧
      .fixed f ∈ [Terminal.fixed .closeParen, .fixed .comma, .fixed .semicolon] ∧
        Parts (f.spelling.toList ++ rest) := by
    simp only [List.mem_cons, List.not_mem_nil, or_false] at hf
    rcases hf with rfl | rfl <;> exact ⟨by decide, by decide, parts_cons _ (by decide)⟩
  refine (h [] hole _ hsign.2.2).reads ?_
  intro next hnext
  obtain ⟨e', hlike, hend⟩ := hnext
  refine (Place.Reads.sign f hsign.1 fun loc => ?_).mono fun _ hn => ⟨e', hlike, hn⟩
  rw [hend.exp _ hsign.2.1]
  exact hc e' loc

/-! ## Statements of one line -/

variable {spot : Spot} (indent : Nat)

theorem Stmt.reads_assign {target value : Expr} (ht : target.Heads spot) (hv : value.Legible) :
    ∃ lines, (Stmt.assign (.assign target value)).lines false indent = .ok lines ∧
      (Stmt.assign (.assign target value)).ReadsBack spot lines := by
  obtain ⟨text, hp, htarget⟩ := readsUnless_target ht
  obtain ⟨text', hp', _, hback⟩ := value.prints hv
  refine ⟨[line indent (text ++ " = " ++ text' ++ ";")], ?_, fun block hspot =>
    .line indent fun rest => ?_⟩
  · simp only [Stmt.lines, Expr.printAssignment, hp, hp']
    rfl
  · have htext : (text ++ " = " ++ text' ++ ";").toList ++ rest = text.toList ++ ' ' ::
        (Fixed.becomes.spelling.toList ++ ' ' :: (text'.toList ++ ';' :: rest)) := by
      simp [Fixed.spelling]
    rw [htext, Stmt.occurrences, Expr.occurrences, dotted_append]
    refine (htarget (.inBlock block) _ hspot (hspot ▸ block.spot_openParen)
      (startsName_inBlock block) _ (parts_blank _)).seq ?_
    intro next hnext
    obtain ⟨target', htarget', rfl⟩ := hnext
    have hbecomes : (Place.afterTarget (.head block) target').Reads _ (text'.toList ++ ';' :: rest)
        (· = .atOperand [] (.assigned block target')) :=
      .spaced .becomes fun loc => Place.Steps.step?_eq (.target (.assignment rfl))
    refine hbecomes.toUnless ((readsUnless_whole hback .semicolon (by decide)
      (fun _ _ => by simp [Hole.close?]; rfl) rest).mono ?_)
    intro next hnext
    obtain ⟨value', hvalue', rfl⟩ := hnext
    exact ⟨.assign (.assign target' value'), by
      simp [Stmt.relabel, Expr.relabel, htarget', hvalue'], rfl⟩

/-- A target with `++` or `--` behind it. -/
theorem Stmt.reads_count {target : Expr} (ht : target.Heads spot) (op : Fixed)
    (make : Expr → Stmt)
    (hop : (op, make) ∈ [(Fixed.increment, Stmt.increment), (.decrement, .decrement)]) :
    ∃ lines, (make target).lines false indent = .ok lines ∧ (make target).ReadsBack spot lines := by
  obtain ⟨text, hp, htarget⟩ := readsUnless_target ht
  have hmake : (make target).lines false indent =
        .ok [line indent (text ++ (op.spelling ++ ";"))] ∧
      (make target).occurrences = target.occurrences ∧
      (∀ e, (make e).relabel unplace = make (e.relabel unplace)) ∧ op ∈ Fixed.closedSigns ∧
      (∀ rest, Parts (op.spelling.toList ++ rest)) ∧ ∀ block e loc,
        (Place.afterTarget (.head block) e).step? ⟨.fixed op, op.spelling, loc⟩ =
          some (.counted block (make e)) := by
    simp only [List.mem_cons, Prod.mk.injEq, List.not_mem_nil, or_false] at hop
    rcases hop with ⟨rfl, rfl⟩ | ⟨rfl, rfl⟩ <;>
      exact ⟨by simp only [Stmt.lines, hp]; rfl, rfl, fun _ => rfl, by decide,
        fun _ => parts_cons _ (by decide), fun _ _ _ => rfl⟩
  obtain ⟨hlines, hocc, hrelabel, hclosed, hparts, hstep⟩ := hmake
  refine ⟨_, hlines, fun block hspot => .line indent fun rest => ?_⟩
  have htext : (text ++ (op.spelling ++ ";")).toList ++ rest =
      text.toList ++ (op.spelling.toList ++ ';' :: rest) := by simp
  rw [htext, hocc]
  refine (htarget (.inBlock block) _ hspot (hspot ▸ block.spot_openParen)
    (startsName_inBlock block) _ (hparts _)).reads ?_
  intro next hnext
  obtain ⟨target', hlike, rfl⟩ := hnext
  refine (Place.Reads.sign op hclosed (hstep block target')).to ?_
  refine (Place.Reads.sign .semicolon (by decide) fun loc => ?_).mono
    fun _ hn => ⟨make target', by rw [hrelabel, hlike, hrelabel], hn⟩
  rfl

theorem Stmt.reads_read {target : Expr} (ht : target.Heads .name) :
    ∃ lines, (Stmt.read target).lines false indent = .ok lines ∧
      (Stmt.read target).ReadsBack spot lines := by
  obtain ⟨text, hp, htarget⟩ := readsUnless_target ht
  refine ⟨[line indent ("cin >> " ++ text ++ ";")], by simp only [Stmt.lines, hp]; rfl,
    fun block _ => .line indent fun rest => ?_⟩
  have htext : ("cin >> " ++ text ++ ";").toList ++ rest = Fixed.cin.spelling.toList ++ ' ' ::
      (Fixed.readArrow.spelling.toList ++ ' ' :: (text.toList ++ ';' :: rest)) := by
    simp [Fixed.spelling]
  have hword : ∀ loc, (Place.inBlock block).step? ⟨.fixed .cin, Fixed.cin.spelling, loc⟩ =
      some (.cinWord block) := fun _ => rfl
  have harrow (rest : List Char) : (Place.cinWord block).Reads _ rest (· = .readArrow block) :=
    .spaced .readArrow fun loc => rfl
  rw [htext]
  refine (Place.Reads.leading .cin (by decide) hword _).toUnless ((harrow _).toUnless ?_)
  refine (htarget (.readArrow block) _ rfl rfl (startsName_readArrow block) _
    (parts_semicolon _)).reads ?_
  intro next hnext
  obtain ⟨target', hlike, rfl⟩ := hnext
  refine (Place.Reads.sign .semicolon (by decide) fun loc => ?_).mono
    fun _ hn => ⟨.read target', by simp [Stmt.relabel, hlike], hn⟩
  exact Place.Steps.step?_eq (.target (.read rfl))

theorem Stmt.reads_write {value : Expr} (hv : value.Legible) :
    ∃ lines, (Stmt.write value).lines false indent = .ok lines ∧
      (Stmt.write value).ReadsBack spot lines := by
  obtain ⟨text, hp, _, hback⟩ := value.prints hv
  refine ⟨[line indent ("cout << " ++ text ++ ";")], by simp only [Stmt.lines, hp]; rfl,
    fun block _ => .line indent fun rest => ?_⟩
  have htext : ("cout << " ++ text ++ ";").toList ++ rest = Fixed.cout.spelling.toList ++ ' ' ::
      (Fixed.writeArrow.spelling.toList ++ ' ' :: (text.toList ++ ';' :: rest)) := by
    simp [Fixed.spelling]
  have hword : ∀ loc, (Place.inBlock block).step? ⟨.fixed .cout, Fixed.cout.spelling, loc⟩ =
      some (.coutWord block) := fun _ => rfl
  have harrow (rest : List Char) : (Place.coutWord block).Reads _ rest
      (· = .atOperand [] (.written block)) :=
    .spaced .writeArrow fun loc => rfl
  rw [htext]
  refine (Place.Reads.leading .cout (by decide) hword _).toUnless ((harrow _).toUnless ?_)
  refine (readsUnless_whole hback .semicolon (by decide)
    (fun _ _ => by simp [Hole.close?]; rfl) rest).mono ?_
  intro next hnext
  obtain ⟨value', hlike, rfl⟩ := hnext
  exact ⟨.write value', by simp [Stmt.relabel, hlike], rfl⟩

theorem Stmt.reads_returnNothing :
    ∃ lines, Stmt.returnNothing.lines false indent = .ok lines ∧
      Stmt.returnNothing.ReadsBack spot lines := by
  refine ⟨[line indent "return;"], rfl, fun block _ => .line indent fun rest => ?_⟩
  have hword : (Place.inBlock block).Reads ("return;".toList ++ rest) (';' :: rest)
      (· = .atOperand [] (.returned block)) :=
    .keyword .returnWord (by decide) (parts_semicolon _) fun loc => rfl
  exact hword.toUnless ((Place.Reads.sign .semicolon (by decide) fun _ => rfl).mono
    fun _ hn => ⟨.returnNothing, rfl, hn⟩)

theorem Stmt.reads_returnValue {value : Expr} (hv : value.Legible) :
    ∃ lines, (Stmt.returnValue value).lines false indent = .ok lines ∧
      (Stmt.returnValue value).ReadsBack spot lines := by
  obtain ⟨text, hp, _, hback⟩ := value.prints hv
  refine ⟨[line indent ("return " ++ text ++ ";")], by simp only [Stmt.lines, hp]; rfl,
    fun block _ => .line indent fun rest => ?_⟩
  have htext : ("return " ++ text ++ ";").toList ++ rest =
      Fixed.returnWord.spelling.toList ++ ' ' :: (text.toList ++ ';' :: rest) := by
    simp [Fixed.spelling]
  have hword : ∀ loc, (Place.inBlock block).step?
      ⟨.fixed .returnWord, Fixed.returnWord.spelling, loc⟩ =
        some (.atOperand [] (.returned block)) := fun _ => rfl
  rw [htext]
  refine (Place.Reads.leading .returnWord (by decide) hword _).toUnless
    ((Place.reads_blank _).toUnless ?_)
  refine (readsUnless_whole hback .semicolon (by decide)
    (fun _ _ => by simp [Hole.close?]; rfl) rest).mono ?_
  intro next hnext
  obtain ⟨value', hlike, rfl⟩ := hnext
  exact ⟨.returnValue value', by simp [Stmt.relabel, hlike], rfl⟩

theorem Stmt.reads_call {callee : Ident} {args : List Expr} (hc : callee.Fits spot)
    (ha : Expr.LegibleAll args) :
    ∃ lines, (Stmt.call (.call callee args)).lines false indent = .ok lines ∧
      (Stmt.call (.call callee args)).ReadsBack spot lines := by
  obtain ⟨texts, hps, hbacks⟩ := Expr.printsAll args ha
  refine ⟨[line indent (callee.name ++ "(" ++ ", ".intercalate texts ++ ")" ++ ";")], ?_,
    fun block hspot => .line indent fun rest => ?_⟩
  · simp only [Stmt.lines, Expr.print, hps]
    rfl
  have htext : (callee.name ++ "(" ++ ", ".intercalate texts ++ ")" ++ ";").toList ++ rest =
      callee.name.toList ++ '(' :: ((", ".intercalate texts).toList ++ ')' :: ';' :: rest) := by
    simp only [String.toList_append, List.append_assoc]
    rfl
  have hfits : callee.Fits (Place.inBlock block).spot := show callee.Fits block.spot from hspot ▸ hc
  rw [htext]
  refine (reads_name hfits (startsName_inBlock block) (parts_cons _ (by decide))).unless ?_
  intro next hnext
  obtain ⟨callee', hlike, rfl⟩ := hnext
  have hopen : (Place.afterTarget (.head block) (.name callee')).Reads
      ('(' :: ((", ".intercalate texts).toList ++ ')' :: ';' :: rest)) _
      (· = .atOperand [] (.argumentOfCall block callee' [])) :=
    .sign .openParen (by decide) fun loc => rfl
  refine hopen.toUnless ((readsUnless_arguments (collects_argumentOfCall block callee') hbacks
    (';' :: rest)).reads ?_)
  intro next hnext
  obtain ⟨args', hlikes, rfl⟩ := hnext
  refine (Place.Reads.sign .semicolon (by decide) fun _ => ?_).mono fun _ hn =>
    ⟨.call (.call callee' args'), by simp [Stmt.relabel, Expr.relabel, hlike, hlikes], hn⟩
  rfl

/-! ## Blocks -/

/-- The brace behind the head of a block. -/
theorem reads_openBrace {place next : Place}
    (hs : ∀ loc, place.step? ⟨.fixed .openBrace, Fixed.openBrace.spelling, loc⟩ = some next)
    (rest : List Char) : place.Reads (' ' :: '\x7b' :: rest) rest (· = next) :=
  (Place.reads_blank _).to (.sign .openBrace (by decide) hs)

/-- A line with a condition has been read: a block is open. -/
def Place.AfterCondition (opener : Expr → Opener) (block : Block) (e : Expr) (place : Place) :
    Prop :=
  ∃ e' : Expr, e'.relabel unplace = e.relabel unplace ∧
    place = .inBlock (.nested (opener e') block [] [])

/-- The line with the condition of an `if` or a `while`. -/
theorem readsLines_condition {e : Expr} {text : String} (h : e.ReadsBack text.toList) (f : Fixed)
    (block : Block) (middle : Place) (hole : Hole) (opener : Expr → Opener) {head : String}
    (hhead : head.toList = f.spelling.toList ++ ' ' :: '(' :: (text.toList ++ [')']))
    (hk : f.isKeyword = true)
    (hword : ∀ loc, (Place.inBlock block).step? ⟨.fixed f, f.spelling, loc⟩ = some middle)
    (hopen : ∀ loc, middle.step? ⟨.fixed .openParen, Fixed.openParen.spelling, loc⟩ =
      some (.atOperand [] hole))
    (hclose : ∀ e' loc, hole.close? e' ⟨.fixed .closeParen, Fixed.closeParen.spelling, loc⟩ =
      some (.opened block (opener e'))) :
    (Place.inBlock block).ReadsLines (dotted e.occurrences) [openLine indent head]
      (Place.AfterCondition opener block e) := by
  refine .line indent fun rest => ?_
  have htext : (head ++ " \x7b").toList ++ rest =
      f.spelling.toList ++ ' ' :: '(' :: (text.toList ++ ')' :: ' ' :: '\x7b' :: rest) := by
    simp [hhead]
  rw [htext]
  refine (Place.Reads.leading f hk hword _).toUnless ((Place.reads_blank _).toUnless ?_)
  refine (Place.Reads.sign .openParen (by decide) hopen).toUnless ?_
  refine (readsUnless_whole h .closeParen (by decide) hclose _).reads ?_
  intro next hnext
  obtain ⟨e', hlike, rfl⟩ := hnext
  exact (reads_openBrace (fun _ => rfl) rest).mono fun _ hn => ⟨e', hlike, hn⟩

theorem readsLines_while {e : Expr} {text : String} (h : e.ReadsBack text.toList) (block : Block) :
    (Place.inBlock block).ReadsLines (dotted e.occurrences)
      [openLine indent ("while (" ++ text ++ ")")] (Place.AfterCondition .loop block e) :=
  readsLines_condition indent h .whileWord block (.whileWord block) (.loopCondition block) .loop
    (by simp [Fixed.spelling]) (by decide) (fun _ => rfl) (fun _ => rfl) (fun _ _ => rfl)

theorem readsLines_if {e : Expr} {text : String} (h : e.ReadsBack text.toList) (block : Block) :
    (Place.inBlock block).ReadsLines (dotted e.occurrences)
      [openLine indent ("if (" ++ text ++ ")")] (Place.AfterCondition .ifThen block e) :=
  readsLines_condition indent h .ifWord block (.ifWord block) (.ifCondition block) .ifThen
    (by simp [Fixed.spelling]) (by decide) (fun _ => rfl) (fun _ => rfl) (fun _ _ => rfl)

theorem Block.spot_addDecls {block : Block} (hd : block.decls = []) (hs : block.stmts = [])
    (ds : List Decl) : (block.addDecls ds).spot = bodySpot ds := by
  rw [Block.spot_eq, block.addDecls_stmts, hs]
  cases block <;> cases hd <;> simp [Block.addDecls, Block.decls, spotAfter, bodySpot]

theorem bodySpot_eq {ds ds' : List Decl}
    (h : Decl.relabelAll unplace ds' = Decl.relabelAll unplace ds) :
    bodySpot ds' = bodySpot ds := by
  cases ds <;> cases ds' <;> first | rfl | cases h

/-- Behind the brace that opens a block, the lines are read as its declarations and statements and
the brace that closes it. -/
def BodyReadsBack (ds : List Decl) (ss : List Stmt) (lines : List String) : Prop :=
  ∀ block : Block, block.decls = [] → block.stmts = [] →
    (Place.inBlock block).ReadsLines (dotted (Stmt.occurrencesAll ss)) lines fun next =>
      ∃ ds' ss', Decl.relabelAll unplace ds' = Decl.relabelAll unplace ds ∧
        Stmt.relabelAll unplace ss' = Stmt.relabelAll unplace ss ∧
          next = ((block.addDecls ds').addStmts ss').close

/-- Declarations and statements as they are printed in a block. -/
theorem Decl.reads_body {ds : List Decl} {ss : List Stmt} (hd : ∀ d ∈ ds, d.LegibleVar)
    {slines : List String} (hs : Stmt.AllReadBack (bodySpot ds) ss slines) :
    ∃ dlines, Decl.linesAll false (indent + indentStep) ds = .ok dlines ∧
      BodyReadsBack ds ss (dlines ++ slines ++ [closeLine indent]) := by
  obtain ⟨dlines, hpd, hdecls⟩ := Decl.reads_vars hd (indent + indentStep)
  refine ⟨dlines, hpd, fun block hbd hbs => ?_⟩
  have hstart := hdecls _ _ (declares_inBlock hbs) []
  rw [List.reverse_nil, block.addDecls_nil] at hstart
  rw [List.append_assoc]
  refine hstart.unless ?_
  intro next hnext
  obtain ⟨ds', hdlike, rfl⟩ := hnext
  rw [List.append_nil, List.reverse_reverse]
  have hspot : (block.addDecls ds').spot = bodySpot ds := by
    rw [Block.spot_addDecls hbd hbs, bodySpot_eq hdlike]
  refine (hs _ hspot).reads ?_
  intro next hnext
  obtain ⟨ss', hslike, rfl⟩ := hnext
  refine .line indent fun rest => ?_
  refine Place.Reads.mono (.sign .closeBrace (by decide) fun loc => rfl) ?_
  exact fun _ hn => ⟨ds', ss', hdlike, hslike, hn⟩

/-- A block that belongs to a statement. -/
theorem BodyReadsBack.nested {ds : List Decl} {ss : List Stmt} {lines : List String}
    (h : BodyReadsBack ds ss lines) (opener : Opener) (outer : Block) :
    (Place.inBlock (.nested opener outer [] [])).ReadsLines (dotted (Stmt.occurrencesAll ss)) lines
      fun next => ∃ ds' ss', Decl.relabelAll unplace ds' = Decl.relabelAll unplace ds ∧
        Stmt.relabelAll unplace ss' = Stmt.relabelAll unplace ss ∧
          next = .inBlock (outer.addStmt (opener.close ds'.reverse ss'.reverse)) := by
  refine (h _ rfl rfl).mono ?_
  intro next hnext
  obtain ⟨ds', ss', hdlike, hslike, rfl⟩ := hnext
  exact ⟨ds', ss', hdlike, hslike, by
    simp [Block.addDecls, Block.addStmts, Block.withStmts, Block.stmts, Block.close]⟩

/-- A condition and the block behind it. -/
theorem readsLines_headed {opener : Expr → Opener} {block : Block} {condition : Expr}
    {ds : List Decl} {ss : List Stmt} {head : String} {lines : List String}
    (hhead : (Place.inBlock block).ReadsLines (dotted condition.occurrences) [head]
      (Place.AfterCondition opener block condition)) (hbody : BodyReadsBack ds ss lines) :
    (Place.inBlock block).ReadsLines
      (dotted condition.occurrences || dotted (Stmt.occurrencesAll ss)) (head :: lines)
      fun next => ∃ (condition' : Expr) (ds' : List Decl) (ss' : List Stmt),
        condition'.relabel unplace = condition.relabel unplace ∧
        Decl.relabelAll unplace ds' = Decl.relabelAll unplace ds ∧
        Stmt.relabelAll unplace ss' = Stmt.relabelAll unplace ss ∧
          next = .inBlock (block.addStmt ((opener condition').close ds'.reverse ss'.reverse)) := by
  refine hhead.seq ?_
  intro next hnext
  obtain ⟨condition', hlike, rfl⟩ := hnext
  refine (hbody.nested (opener condition') block).mono ?_
  intro next hnext
  obtain ⟨ds', ss', hdlike, hslike, rfl⟩ := hnext
  exact ⟨condition', ds', ss', hlike, hdlike, hslike, rfl⟩

/-- A statement with a condition and one block. -/
theorem Stmt.reads_headed {condition : Expr} {ds : List Decl} {ss : List Stmt}
    {slines : List String} (make : Expr → List Decl → List Stmt → Stmt)
    (hmake : make ∈ [Stmt.loop, Stmt.ifThen]) (hc : condition.Legible)
    (hd : ∀ d ∈ ds, d.LegibleVar) (hps : Stmt.linesAll false (indent + indentStep) ss = .ok slines)
    (hs : Stmt.AllReadBack (bodySpot ds) ss slines) :
    ∃ lines, (make condition ds ss).lines false indent = .ok lines ∧
      (make condition ds ss).ReadsBack spot lines := by
  obtain ⟨text, hp, _, hback⟩ := condition.prints hc
  obtain ⟨dlines, hpd, hbody⟩ := Decl.reads_body indent hd hs
  have hkind : ∃ opener head,
      (make condition ds ss).lines false indent =
        .ok (openLine indent head :: (dlines ++ slines ++ [closeLine indent])) ∧
      (∀ block, (Place.inBlock block).ReadsLines (dotted condition.occurrences)
        [openLine indent head] (Place.AfterCondition opener block condition)) ∧
      (∀ e ds ss, (opener e).close ds ss = make e ds.reverse ss.reverse) ∧
      (make condition ds ss).occurrences =
        condition.occurrences ++ Decl.occurrencesAll ds ++ Stmt.occurrencesAll ss ∧
      ∀ e ds ss, (make e ds ss).relabel unplace = make (e.relabel unplace)
        (Decl.relabelAll unplace ds) (Stmt.relabelAll unplace ss) := by
    simp only [List.mem_cons, List.not_mem_nil, or_false] at hmake
    rcases hmake with rfl | rfl
    · exact ⟨.loop, "while (" ++ text ++ ")", by simp only [Stmt.lines, hp, hpd, hps]; rfl,
        readsLines_while indent hback, fun _ _ _ => rfl, rfl, fun _ _ _ => rfl⟩
    · exact ⟨.ifThen, "if (" ++ text ++ ")", by simp only [Stmt.lines, hp, hpd, hps]; rfl,
        readsLines_if indent hback, fun _ _ _ => rfl, rfl, fun _ _ _ => rfl⟩
  obtain ⟨opener, head, hlines, hhead, hclose, hocc, hrelabel⟩ := hkind
  refine ⟨_, hlines, fun block _ => ?_⟩
  have hdots : dotted (make condition ds ss).occurrences =
      (dotted condition.occurrences || dotted (Stmt.occurrencesAll ss)) := by
    simp [hocc, Decl.dotted_vars hd]
  rw [hdots]
  refine (readsLines_headed (hhead block) hbody).mono ?_
  intro next hnext
  obtain ⟨condition', ds', ss', hlike, hdlike, hslike, rfl⟩ := hnext
  exact ⟨make condition' ds' ss', by rw [hrelabel, hlike, hdlike, hslike, hrelabel],
    by simp [hclose]⟩

/-- The line between the two blocks of a statement: it takes back the `if` that has been read. -/
theorem readsLines_else (block : Block) (condition : Expr) (ds : List Decl) (ss : List Stmt) :
    (Place.inBlock (block.addStmt (.ifThen condition ds ss))).ReadsLines false
      [openLine indent "else"] (· = .inBlock (.nested (.ifElse condition ds ss) block [] [])) := by
  refine .line indent fun rest => ?_
  have helse : ∀ loc, (Place.inBlock (block.addStmt (.ifThen condition ds ss))).step?
      ⟨.fixed .elseWord, Fixed.elseWord.spelling, loc⟩ =
        some (.opened block (.ifElse condition ds ss)) := fun loc => by
    simp [Place.step?, Block.step?]
  exact (Place.Reads.leading .elseWord (by decide) helse _).to (reads_openBrace (fun _ => rfl) rest)

theorem Stmt.reads_ifElse {condition : Expr} {ds es : List Decl} {ss ts : List Stmt}
    {slines tlines : List String} (hc : condition.Legible) (hd : ∀ d ∈ ds, d.LegibleVar)
    (hps : Stmt.linesAll false (indent + indentStep) ss = .ok slines)
    (hs : Stmt.AllReadBack (bodySpot ds) ss slines) (he : ∀ d ∈ es, d.LegibleVar)
    (hpt : Stmt.linesAll false (indent + indentStep) ts = .ok tlines)
    (ht : Stmt.AllReadBack (bodySpot es) ts tlines) :
    ∃ lines, (Stmt.ifElse condition ds ss es ts).lines false indent = .ok lines ∧
      (Stmt.ifElse condition ds ss es ts).ReadsBack spot lines := by
  obtain ⟨text, hp, _, hback⟩ := condition.prints hc
  obtain ⟨dlines, hpd, hbody⟩ := Decl.reads_body indent hd hs
  obtain ⟨elines, hpe, hbody'⟩ := Decl.reads_body indent he ht
  refine ⟨openLine indent ("if (" ++ text ++ ")") :: (dlines ++ slines ++ [closeLine indent]) ++
    openLine indent "else" :: (elines ++ tlines ++ [closeLine indent]), ?_, fun block _ => ?_⟩
  · simp only [Stmt.lines, hp, hpd, hps, hpe, hpt]
    show Except.ok _ = Except.ok _
    simp
  have hocc : dotted (Stmt.ifElse condition ds ss es ts).occurrences =
      ((dotted condition.occurrences || dotted (Stmt.occurrencesAll ss)) ||
        dotted (Stmt.occurrencesAll ts)) := by
    simp [Stmt.occurrences, Decl.dotted_vars hd, Decl.dotted_vars he, Bool.or_assoc]
  rw [hocc]
  refine (readsLines_headed (readsLines_if indent hback block) hbody).seq ?_
  intro next hnext
  obtain ⟨condition', ds', ss', hlike, hdlike, hslike, rfl⟩ := hnext
  have helse := readsLines_else indent block condition' ds' ss'
  simp only [Opener.close, List.reverse_reverse]
  refine helse.unless ?_
  rintro _ rfl
  refine (hbody'.nested (.ifElse condition' ds' ss') block).mono ?_
  intro next hnext
  obtain ⟨es', ts', helike, htlike, rfl⟩ := hnext
  exact ⟨.ifElse condition' ds' ss' es' ts',
    by simp [Stmt.relabel, hlike, hdlike, hslike, helike, htlike], by simp [Opener.close]⟩

/-! ## Every statement -/

theorem Stmt.allReadBack_cons {s : Stmt} {ss : List Stmt} {lines slines : List String}
    (h : s.ReadsBack spot lines) (hs : Stmt.AllReadBack s.after ss slines) :
    Stmt.AllReadBack spot (s :: ss) (lines ++ slines) := by
  intro block hspot
  rw [Stmt.occurrencesAll, dotted_append]
  refine (h block hspot).seq ?_
  intro next hnext
  obtain ⟨s', hlike, rfl⟩ := hnext
  refine (hs _ ((block.spot_addStmt s').trans (Stmt.after_eq hlike))).mono ?_
  intro next hnext
  obtain ⟨ss', hlikes, rfl⟩ := hnext
  exact ⟨s' :: ss', by simp [Stmt.relabelAll, hlike, hlikes], by rw [block.addStmts_cons]⟩

mutual

/-- A legible statement prints as lines that read back. -/
theorem Stmt.prints (spot : Spot) (indent : Nat) : ∀ s : Stmt, s.Legible spot →
    ∃ lines, s.lines false indent = .ok lines ∧ s.ReadsBack spot lines
  | .assign (.assign _ _), ⟨ht, hv⟩ => Stmt.reads_assign indent ht hv
  | .increment _, h => Stmt.reads_count indent h .increment .increment (by simp)
  | .decrement _, h => Stmt.reads_count indent h .decrement .decrement (by simp)
  | .read _, h => Stmt.reads_read indent h
  | .write _, h => Stmt.reads_write indent h
  | .returnValue _, h => Stmt.reads_returnValue indent h
  | .returnNothing, _ => Stmt.reads_returnNothing indent
  | .call (.call _ _), ⟨hc, ha⟩ => Stmt.reads_call indent hc ha
  | .ifThen condition decls stmts, ⟨hc, hd, hs⟩ => by
    obtain ⟨slines, hps, hss⟩ := Stmt.printsAll (bodySpot decls) (indent + indentStep) stmts hs
    exact Stmt.reads_headed indent .ifThen (by simp) hc hd hps hss
  | .loop condition decls stmts, ⟨hc, hd, hs⟩ => by
    obtain ⟨slines, hps, hss⟩ := Stmt.printsAll (bodySpot decls) (indent + indentStep) stmts hs
    exact Stmt.reads_headed indent .loop (by simp) hc hd hps hss
  | .ifElse condition thenDecls thenStmts elseDecls elseStmts, ⟨hc, hd, hs, he, ht⟩ => by
    obtain ⟨slines, hps, hss⟩ :=
      Stmt.printsAll (bodySpot thenDecls) (indent + indentStep) thenStmts hs
    obtain ⟨tlines, hpt, hts⟩ :=
      Stmt.printsAll (bodySpot elseDecls) (indent + indentStep) elseStmts ht
    exact Stmt.reads_ifElse indent hc hd hps hss he hpt hts

theorem Stmt.printsAll (spot : Spot) (indent : Nat) : ∀ ss : List Stmt, Stmt.LegibleAll spot ss →
    ∃ lines, Stmt.linesAll false indent ss = .ok lines ∧ Stmt.AllReadBack spot ss lines
  | [], _ => ⟨[], rfl, fun block _ => .nil ⟨[], rfl, by rw [block.addStmts_nil]⟩⟩
  | s :: ss, ⟨h, hs⟩ => by
    obtain ⟨lines, hp, hback⟩ := s.prints spot indent h
    obtain ⟨slines, hps, hbacks⟩ := Stmt.printsAll s.after indent ss hs
    refine ⟨lines ++ slines, ?_, Stmt.allReadBack_cons hback hbacks⟩
    simp only [Stmt.linesAll, hp, hps]
    rfl

end

end Moo
