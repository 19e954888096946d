import Moo.Proofs.Reading.Errors
import Moo.Proofs.Reading.Judgments
import Moo.Proofs.Reading.Moves

/-!
# Programs one behind the other

A text that follows a program on a new line is read as it is read alone, only
that all of the program stands in front of what is read. The places on the
way hold other declarations at top level, and no step looks at those. What
they change is what is offered before the first word: behind a variable a
name may follow too, and a keyword has to be a whole word there.

* `Place.behind`: a place with other declarations in front.
* `Place.Steps.behind`: a step from there.
* `readOn_behind`: reading on from there, on lower lines.
* `readOn_passes`: a program, and whatever follows on a new line.
* `parse_append`: the statement for whole texts.
-/
namespace Moo

/-! ## Places behind other declarations -/

section Behind

variable (ds : List Decl)

def Header.behind (header : Header) : Header :=
  { header with before := header.before ++ ds }

def Block.behind : Block → Block
  | function header decls stmts => function (header.behind ds) decls stmts
  | nested opener outer decls stmts => nested opener outer.behind decls stmts

def Slot.behind : Slot → Slot
  | top decls => top (decls ++ ds)
  | field before tag fields => field (before ++ ds) tag fields
  | formal header => formal (header.behind ds)
  | inner block => inner (block.behind ds)

def Hole.behind : Hole → Hole
  | assigned block target => assigned (block.behind ds) target
  | written block => written (block.behind ds)
  | returned block => returned (block.behind ds)
  | ifCondition block => ifCondition (block.behind ds)
  | loopCondition block => loopCondition (block.behind ds)
  | argumentOfCall block callee args => argumentOfCall (block.behind ds) callee args
  | argument callee args pending outer => argument callee args pending outer.behind
  | group pending outer => group pending outer.behind

def Seat.behind : Seat → Seat
  | read block => read (block.behind ds)
  | head block => head (block.behind ds)
  | operand pending hole => operand pending (hole.behind ds)

/-- The place with the declarations, newest first, in front of all that it holds. -/
def Place.behind : Place → Place
  | between decls => between (decls ++ ds)
  | structWord slot => structWord (slot.behind ds)
  | tagged decls tag => tagged (decls ++ ds) tag
  | typed slot type => typed (slot.behind ds) type
  | named slot type id => named (slot.behind ds) type id
  | inStruct before tag fields => inStruct (before ++ ds) tag fields
  | structEnd before tag fields => structEnd (before ++ ds) tag fields
  | inFormals header => inFormals (header.behind ds)
  | headed header => headed (header.behind ds)
  | inBlock block => inBlock (block.behind ds)
  | ifWord block => ifWord (block.behind ds)
  | whileWord block => whileWord (block.behind ds)
  | opened block opener => opened (block.behind ds) opener
  | cinWord block => cinWord (block.behind ds)
  | readArrow block => readArrow (block.behind ds)
  | coutWord block => coutWord (block.behind ds)
  | atOperand pending hole => atOperand pending (hole.behind ds)
  | afterTarget seat target => afterTarget (seat.behind ds) target
  | afterDot seat object => afterDot (seat.behind ds) object
  | afterValue pending hole operand => afterValue pending (hole.behind ds) operand
  | counted block stmt => counted (block.behind ds) stmt
  | called block call => called (block.behind ds) call

namespace Block

variable (block : Block)

@[simp]
theorem decls_behind : (block.behind ds).decls = block.decls := by
  cases block <;> rfl

@[simp]
theorem stmts_behind : (block.behind ds).stmts = block.stmts := by
  cases block <;> rfl

@[simp]
theorem addDecl_behind (decl : Decl) :
    (block.addDecl decl).behind ds = (block.behind ds).addDecl decl := by
  cases block <;> rfl

@[simp]
theorem withStmts_behind (stmts : List Stmt) :
    (block.withStmts stmts).behind ds = (block.behind ds).withStmts stmts := by
  cases block <;> rfl

@[simp]
theorem addStmt_behind (stmt : Stmt) :
    (block.addStmt stmt).behind ds = (block.behind ds).addStmt stmt := by
  simp [addStmt]

@[simp]
theorem close_behind : block.close.behind ds = (block.behind ds).close := by
  cases block with
  | function => rfl
  | nested => simp [close, Place.behind, Block.behind]

@[simp]
theorem spot_behind : (block.behind ds).spot = block.spot := by
  unfold spot
  rw [decls_behind, stmts_behind]

end Block

/-- Only where a program may start with its next word does it matter what is in front. -/
theorem Place.spot_behind {place : Place} (h : place ≠ .between []) :
    (place.behind ds).spot = place.spot := by
  cases place with
  | between decls =>
    cases decls with
    | nil => exact absurd rfl h
    | cons d decls => cases d <;> rfl
  | named slot => cases slot <;> rfl
  | inStruct _ _ fields => cases fields <;> rfl
  | inFormals header =>
    obtain ⟨_, _, _, formals⟩ := header
    cases formals <;> rfl
  | inBlock block => exact block.spot_behind ds
  | atOperand pending hole =>
    rcases pending with _ | ⟨p, ps⟩
    · cases hole with
      | argumentOfCall _ _ args => cases args <;> rfl
      | argument _ args => cases args <;> rfl
      | _ => rfl
    · rfl
  | afterTarget seat target => cases seat <;> cases target <;> rfl
  | _ => rfl

theorem Place.program?_behind {place : Place} {program : Program}
    (h : place.program? = some program) :
    (place.behind ds).program? = some ⟨ds.reverse ++ program.decls⟩ := by
  cases place with
  | between decls =>
    cases h
    simp [behind, program?]
  | _ => cases h

end Behind

/-! ## Steps behind other declarations -/

section Steps

variable {ds : List Decl} {token : Token} {next : Place}

theorem Slot.TypeSteps.behind {slot : Slot} (h : slot.TypeSteps token next) :
    (slot.behind ds).TypeSteps token (next.behind ds) := by
  cases h with
  | structWord ht => exact .structWord ht
  | primitive hm ht => exact .primitive hm ht

theorem Block.Steps.behind {block : Block} (h : block.Steps token next) :
    (block.behind ds).Steps token (next.behind ds) := by
  cases h with
  | target ht => exact .target ht
  | type he ht => exact .type (by rwa [stmts_behind]) ht.behind
  | cin ht => exact .cin ht
  | cout ht => exact .cout ht
  | ifWord ht => exact .ifWord ht
  | whileWord ht => exact .whileWord ht
  | returnWord ht => exact .returnWord ht
  | elseWord ht hs =>
    simp only [Place.behind, withStmts_behind]
    exact .elseWord ht (by rwa [stmts_behind])
  | close ht =>
    rw [close_behind]
    exact .close ht

theorem Slot.Steps.behind {slot : Slot} {type : TypeExpr} {id : Ident}
    (h : slot.Steps type id token next) :
    (slot.behind ds).Steps type id token (next.behind ds) := by
  cases h with
  | var ht => exact .var ht
  | function ht => exact .function ht
  | field ht => exact .field ht
  | nextFormal ht => exact .nextFormal ht
  | lastFormal ht => exact .lastFormal ht
  | localVar ht =>
    simp only [Place.behind, Block.addDecl_behind]
    exact .localVar ht

theorem Hole.Closes.behind {hole : Hole} {expr : Expr} (h : hole.Closes expr token next) :
    (hole.behind ds).Closes expr token (next.behind ds) := by
  cases h with
  | assigned ht =>
    simp only [Place.behind, Block.addStmt_behind]
    exact .assigned ht
  | written ht =>
    simp only [Place.behind, Block.addStmt_behind]
    exact .written ht
  | returned ht =>
    simp only [Place.behind, Block.addStmt_behind]
    exact .returned ht
  | ifCondition ht => exact .ifCondition ht
  | loopCondition ht => exact .loopCondition ht
  | lastOfCall ht => exact .lastOfCall ht
  | nextOfCall ht => exact .nextOfCall ht
  | lastArgument ht => exact .lastArgument ht
  | nextArgument ht => exact .nextArgument ht
  | group ht => exact .group ht

theorem Hole.ClosesEmpty.behind {hole : Hole} (h : hole.ClosesEmpty token next) :
    (hole.behind ds).ClosesEmpty token (next.behind ds) := by
  cases h with
  | returned ht =>
    simp only [Place.behind, Block.addStmt_behind]
    exact .returned ht
  | argumentOfCall ht => exact .argumentOfCall ht
  | argument ht => exact .argument ht

theorem ValueSteps.behind {pending : List Pending} {hole : Hole} {operand : Expr}
    (h : ValueSteps pending hole operand token next) :
    ValueSteps pending (hole.behind ds) operand token (next.behind ds) := by
  cases h with
  | operator hb ht hp => exact .operator hb ht hp
  | close hc => exact .close hc.behind

theorem OperandSteps.behind {pending : List Pending} {hole : Hole}
    (h : OperandSteps pending hole token next) :
    OperandSteps pending (hole.behind ds) token (next.behind ds) := by
  cases h with
  | name ht => exact .name ht
  | number ht => exact .number ht
  | text ht => exact .text ht
  | trueWord ht => exact .trueWord ht
  | falseWord ht => exact .falseWord ht
  | group ht => exact .group ht
  | sign hm ht => exact .sign hm ht
  | close he hc => exact .close he hc.behind

theorem Seat.Steps.behind {seat : Seat} {target : Expr} (h : seat.Steps target token next) :
    (seat.behind ds).Steps target token (next.behind ds) := by
  cases h with
  | read ht =>
    simp only [Place.behind, Block.addStmt_behind]
    exact .read ht
  | assignment ht => exact .assignment ht
  | increment ht => exact .increment ht
  | decrement ht => exact .decrement ht
  | callStmt hn ht => exact .callStmt hn ht
  | assign ho ht => exact .assign ho ht
  | call hn ht => exact .call hn ht
  | value hv => exact .value hv.behind

/-- No step looks at the declarations in front. -/
theorem Place.Steps.behind {place : Place} (h : place.Steps token next) :
    (place.behind ds).Steps token (next.behind ds) := by
  cases h with
  | between ht => exact .between ht.behind
  | tag ht => exact .tag ht
  | @structType slot hs ht =>
    refine .structType ?_ ht
    cases slot with
    | top decls => exact absurd rfl (hs decls)
    | _ => exact fun _ heq => nomatch heq
  | openStruct ht => exact .openStruct ht
  | taggedName ht => exact .taggedName ht
  | name ht => exact .name ht
  | named hs => exact .named hs.behind
  | closeStruct hn ht => exact .closeStruct hn ht
  | field ht => exact .field ht.behind
  | endStruct ht => exact .endStruct ht
  | noFormals hn ht => exact .noFormals hn ht
  | formal ht => exact .formal ht.behind
  | body ht => exact .body ht
  | inBlock hs => exact .inBlock hs.behind
  | ifCondition ht => exact .ifCondition ht
  | loopCondition ht => exact .loopCondition ht
  | enter ht => exact .enter ht
  | readArrow ht => exact .readArrow ht
  | readName ht => exact .readName ht
  | writeArrow ht => exact .writeArrow ht
  | operand hs => exact .operand hs.behind
  | dot ht => exact .dot ht
  | target hs => exact .target hs.behind
  | member ht => exact .member ht
  | value hv => exact .value hv.behind
  | counted ht =>
    simp only [Place.behind, Block.addStmt_behind]
    exact .counted ht
  | called ht =>
    simp only [Place.behind, Block.addStmt_behind]
    exact .called ht

/-- No step leads back to the start of a program. -/
theorem Place.Steps.ne_start {place : Place} (h : place.Steps token next) :
    next ≠ .between [] := by
  intro heq
  cases h with
  | between ht => cases ht <;> cases heq
  | field ht => cases ht <;> cases heq
  | formal ht => cases ht <;> cases heq
  | named hs => cases hs <;> cases heq
  | @inBlock block _ hs =>
    cases hs with
    | type _ ht => cases ht <;> cases heq
    | close => cases block <;> cases heq
    | _ => cases heq
  | operand hs =>
    cases hs with
    | close _ hc => cases hc <;> cases heq
    | _ => cases heq
  | target hs =>
    cases hs with
    | value hv =>
      cases hv with
      | close hc => cases hc <;> cases heq
      | _ => cases heq
    | _ => cases heq
  | value hv =>
    cases hv with
    | close hc => cases hc <;> cases heq
    | _ => cases heq
  | _ => cases heq

end Steps

/-! ## Lower lines -/

namespace Loc

/-- The location some lines further down. -/
def lower (lines : Nat) (loc : Loc) : Loc :=
  ⟨loc.line + lines, loc.column⟩

theorem past_lower (lines : Nat) (loc : Loc) (text : List Char) :
    (loc.lower lines).past text = (loc.past text).lower lines := by
  induction text generalizing loc with
  | nil => rfl
  | cons c text ih =>
    have hnext : (loc.lower lines).next c = (loc.next c).lower lines := by
      unfold next lower
      split
      · simp only [Loc.mk.injEq, and_true]
        omega
      · rfl
    rw [past_cons, past_cons, hnext, ih]

theorem line_past (loc : Loc) (text : List Char) :
    (loc.past text).line = loc.line + text.count '\n' := by
  induction text generalizing loc with
  | nil => simp
  | cons c text ih =>
    rw [past_cons, ih]
    unfold next
    by_cases hc : c = '\n'
    · subst hc
      simp only [if_true, List.count_cons_self, Nat.cast_add, Nat.cast_one]
      omega
    · simp [hc]

/-- Behind a text and the end of its last line. -/
theorem start_past_line (text : List Char) :
    start.past (text ++ ['\n']) = start.lower (text.count '\n' + 1) := by
  have hline := line_past start text
  rw [past_append, past_cons, past_nil]
  simp only [next, if_true, lower, start, Loc.mk.injEq, and_true] at hline ⊢
  omega

end Loc

/-! ## Reading on behind other declarations -/

/-- Reading goes on as it did, behind other declarations and some lines further down. -/
theorem readOn_behind {place : Place} {read : List Token} {loc : Loc} {text : List Char}
    {reading : Reading} (h : readOn place read loc text = .ok reading) (hne : place ≠ .between [])
    (ds : List Decl) (lines : Nat) :
    ∃ tokens, reading.tokens = read.reverse ++ tokens ∧ ∀ before,
      readOn ((place.relabel (.move (Loc.lower lines))).behind ds) before (loc.lower lines) text =
        .ok ⟨before.reverse ++ tokens.map (Token.move (Loc.lower lines)),
          ⟨ds.reverse ++ (reading.program.relabel (.move (Loc.lower lines))).decls⟩⟩ := by
  have hspot {place : Place} (hne : place ≠ .between []) :
      ((place.relabel (.move (Loc.lower lines))).behind ds).spot = place.spot := by
    have hmoved : place.relabel (.move (Loc.lower lines)) ≠ .between [] := by
      cases place with
      | between decls => simpa [Place.relabel] using hne
      | _ =>
        intro heq
        cases heq
    rw [Place.spot_behind ds hmoved, Place.spot_relabel]
  fun_induction readOn place read loc text with
  | case1 place read loc text skipped hd program hp =>
    cases h
    refine ⟨[], by simp, fun before => ?_⟩
    rw [readOn_nil hd, Place.program?_behind ds (Place.program?_move hp)]
    simp
  | case2 => cases h
  | case3 place read loc text skipped loc' c rest hd terminal more hl token next hs ih =>
    have hstep := Place.Steps.of_step hs
    obtain ⟨tokens, htokens, hread⟩ := ih h hstep.ne_start
    refine ⟨token :: tokens, by simp [htokens], fun before => ?_⟩
    rw [readOn_cons hd, hspot hne, hl]
    have hmoved : (⟨terminal, String.ofList (c :: more), (loc.lower lines).past (gap text)⟩ : Token) =
        token.move (Loc.lower lines) := by
      rw [Loc.past_lower]
      rfl
    simp only [hmoved, (hstep.move.behind).step?_eq]
    rw [Loc.past_lower, Loc.past_lower, hread]
    simp
  | case4 => cases h
  | case5 => cases h
  | case6 => cases h

/-- The first word of the text, if there is one, is not followed by a letter, a digit or an
underscore. -/
def FirstWordParts (text : List Char) (tokens : List Token) : Prop :=
  ∀ token ∈ tokens.head?, ∀ rest, text = gap text ++ token.text.toList ++ rest → Parts rest

/-- A keyword that a type starts with is found in front of other declarations too, if it is a whole
word. -/
theorem lexeme?_between {c : Char} {more rest : List Char} {terminal : Terminal} (ds : List Decl)
    (h : lexeme? (Place.between []).spot.offers c (more ++ rest) = some (terminal, more))
    (hparts : Parts rest) :
    lexeme? (Place.between ds).spot.offers c (more ++ rest) = some (terminal, more) := by
  obtain ⟨ho, -, hlex, -⟩ := lexeme?_sound h
  have htype : terminal ∈ Spot.typeWords := by
    simpa [Place.spot, Spot.offers, Spot.terminals] using ho
  have hoffered : (Place.between ds).spot.offers terminal = true := by
    unfold Place.spot
    split <;> simp_all [Spot.offers, Spot.terminals]
  have hkeyword : ∀ t ∈ Spot.typeWords, t ≠ .ident ∧ ∀ d, t.joins d = isWordPart d := by
    simp only [Spot.typeWords, List.forall_mem_cons, List.not_mem_nil, false_imp_iff, implies_true,
      and_true]
    exact ⟨⟨by decide, fun _ => rfl⟩, ⟨by decide, fun _ => rfl⟩, ⟨by decide, fun _ => rfl⟩,
      by decide, fun _ => rfl⟩
  obtain ⟨hident, hjoins⟩ := hkeyword terminal htype
  refine lexeme?_complete hoffered hlex (fun hi => absurd hi hident) fun d hd => ?_
  rw [hjoins]
  exact hparts d hd

/-- A text that is read on its own is read behind other declarations too. -/
theorem readOn_between {loc : Loc} {text : List Char} {reading : Reading}
    (h : readOn (.between []) [] loc text = .ok reading)
    (hfirst : FirstWordParts text reading.tokens) (ds : List Decl) (lines : Nat)
    (before : List Token) :
    readOn (.between ds) before (loc.lower lines) text =
      .ok ⟨before.reverse ++ reading.tokens.map (Token.move (Loc.lower lines)),
        ⟨ds.reverse ++ (reading.program.relabel (.move (Loc.lower lines))).decls⟩⟩ := by
  rcases hd : text.drop (gap text).length with _ | ⟨c, rest⟩
  · rw [readOn_nil hd] at h
    cases h
    rw [readOn_nil hd]
    simp [Place.program?, Program.relabel, Decl.relabelAll]
  · rw [readOn_cons hd] at h
    cases hl : lexeme? (Place.between []).spot.offers c rest with
    | none =>
      simp only [hl] at h
      split at h <;> cases h
    | some word =>
      obtain ⟨terminal, more⟩ := word
      simp only [hl] at h
      split at h
      · next next hs =>
        obtain ⟨-, ⟨tail, rfl⟩, -, -⟩ := lexeme?_sound hl
        have hstep := Place.Steps.of_step hs
        obtain ⟨tokens, htokens, hread⟩ := readOn_behind h hstep.ne_start ds lines
        have htail : Parts tail := by
          refine hfirst _ (by rw [htokens]; rfl) tail ?_
          rw [String.toList_ofList, List.append_assoc, List.cons_append, ← hd]
          exact (List.prefix_iff_eq_append.1 (gap_prefixOf text)).symm
        have hmoved : (⟨terminal, String.ofList (c :: more),
            (loc.lower lines).past (gap text)⟩ : Token) = Token.move (Loc.lower lines)
              ⟨terminal, String.ofList (c :: more), loc.past (gap text)⟩ := by
          rw [Loc.past_lower]
          rfl
        have hstep' : (Place.between ds).step? (Token.move (Loc.lower lines)
            ⟨terminal, String.ofList (c :: more), loc.past (gap text)⟩) =
              some ((next.relabel (.move (Loc.lower lines))).behind ds) :=
          Place.Steps.step?_eq hstep.move.behind
        rw [readOn_cons hd, lexeme?_between ds hl htail]
        simp only [hmoved, hstep']
        rw [Loc.past_lower, Loc.past_lower, hread, htokens]
        simp
      · cases h

/-! ## A program and what follows -/

/-- A program is passed over up to what is skipped at its end. -/
theorem readOn_passes {place : Place} {read : List Token} {loc : Loc} {text : List Char}
    {reading : Reading} (h : readOn place read loc text = .ok reading) :
    ∃ front lead tokens last, text = front ++ lead ∧ gap lead = lead ∧
      place.Passes loc front lead tokens last ∧ reading.tokens = read.reverse ++ tokens ∧
      last.program? = some reading.program := by
  fun_induction readOn place read loc text with
  | case1 place read loc text skipped hd program hp =>
    obtain ⟨lead, rfl, hgap⟩ := exists_gap hd
    cases h
    rw [List.append_nil] at hgap ⊢
    exact ⟨[], lead, [], place, rfl, hgap, .nil, (List.append_nil _).symm, hp⟩
  | case2 => cases h
  | case3 place read loc text skipped loc' c rest hd terminal more hl token next hs ih =>
    obtain ⟨-, ⟨tail, rfl⟩, -, -⟩ := lexeme?_sound hl
    obtain ⟨lead, rfl, hgap⟩ := exists_gap hd
    obtain ⟨front, last', tokens, last, hrest, hskipped, hpasses, htokens, hlast⟩ := ih h
    obtain rfl : tail = front ++ last' := by rwa [List.drop_left] at hrest
    have hloc : loc' = loc.past lead := congrArg loc.past hgap
    have hpast : loc'.past (c :: more) = loc.past (lead ++ c :: more) := by
      rw [hloc, Loc.past_append]
    have htoken : token = ⟨terminal, String.ofList (c :: more), loc.past lead⟩ :=
      congrArg (Token.mk terminal _) hloc
    rw [hpast] at hpasses
    rw [htoken] at hs htokens
    refine ⟨lead ++ c :: more ++ front, last', _, last, by simp, hskipped,
      .word hgap hl hs hpasses, by simpa using htokens, hlast⟩
  | case4 => cases h
  | case5 => cases h
  | case6 => cases h

/-- Behind a program and the end of its last line, reading goes on where the program ends. -/
theorem readOn_line {place : Place} {loc : Loc} {text : List Char} {reading : Reading}
    (h : readOn place [] loc text = .ok reading) :
    ∃ last : Place, last.program? = some reading.program ∧ ∀ other,
      readOn place [] loc (text ++ '\n' :: other) =
        readOn last reading.tokens.reverse (loc.past (text ++ ['\n'])) other := by
  obtain ⟨front, lead, tokens, last, rfl, hskipped, hpasses, htokens, hlast⟩ := readOn_passes h
  obtain rfl : reading.tokens = tokens := htokens
  refine ⟨last, hlast, fun other => ?_⟩
  have hcontinues : Continues lead (lead ++ '\n' :: other) := by
    cases lead with
    | nil => exact .blank (by decide) _ _
    | cons c lead => exact fun d hd => .inr hd
  have hgap : gap (lead ++ ['\n'] ++ other) = lead ++ ['\n'] ++ gap other := by
    have hclosed : gap (lead ++ []) = lead := by rw [List.append_nil, hskipped]
    simpa using gap_newline hclosed other
  have hread := hpasses _ hcontinues []
  rw [List.append_nil] at hread
  rw [List.append_assoc, hread, List.append_assoc, Loc.past_append, ← readOn_skip _ hgap]
  simp

/-- A program, and behind it on a new line another one whose first word is a whole word, is a program:
it has the declarations of the first, and then those of the second that many lines further down. -/
theorem parse_append {s t : String} {p q : Program} (hs : parse s = .ok p) (ht : parse t = .ok q)
    (hfirst : ∀ reading, read t = .ok reading → FirstWordParts t.toList reading.tokens) :
    parse (s ++ "\n" ++ t) =
      .ok ⟨p.decls ++ (q.relabel (.move (Loc.lower (s.toList.count '\n' + 1)))).decls⟩ := by
  obtain ⟨first, hread, rfl, hshort⟩ := parse_reads hs
  obtain ⟨second, hread', rfl, hshort'⟩ := parse_reads ht
  obtain ⟨last, hlast, hgo⟩ := readOn_line hread
  obtain ⟨ds, rfl⟩ : ∃ ds, last = .between ds := by
    cases last with
    | between ds => exact ⟨ds, rfl⟩
    | _ => cases hlast
  have hprogram : first.program = ⟨ds.reverse⟩ := (Option.some.inj hlast).symm
  have htext : (s ++ "\n" ++ t).toList = s.toList ++ '\n' :: t.toList := by simp
  have hboth : read (s ++ "\n" ++ t) = .ok ⟨first.tokens ++ second.tokens.map
        (Token.move (Loc.lower (s.toList.count '\n' + 1))),
      ⟨first.program.decls ++
        (second.program.relabel (.move (Loc.lower (s.toList.count '\n' + 1)))).decls⟩⟩ := by
    rw [read, htext, hgo, Loc.start_past_line,
      readOn_between hread' (hfirst second hread') ds _ _, hprogram, List.reverse_reverse]
  have hlong : (first.tokens ++ second.tokens.map
      (Token.move (Loc.lower (s.toList.count '\n' + 1)))).findSome? Token.overlong? = none := by
    rw [List.findSome?_eq_none_iff]
    intro token htoken
    rcases List.mem_append.1 htoken with htoken | htoken
    · exact hshort token htoken
    · obtain ⟨old, hold, rfl⟩ := List.mem_map.1 htoken
      exact hshort' old hold
  simp only [parse, hboth, hlong]

/-- A variable with an open comment behind it, and a struct whose field has no blank in it. -/
theorem parse_append_comment :
    parse "int a;//" = .ok ⟨[.var (.primitive "int") ⟨"a", some ⟨1, 5⟩, none⟩]⟩ ∧
      parse "struct S\x7binty;\x7d;" = .ok ⟨[.struct ⟨"S", some ⟨1, 8⟩, none⟩
        [.var (.primitive "int") ⟨"y", some ⟨1, 13⟩, none⟩]]⟩ ∧
      (∀ reading, read "struct S\x7binty;\x7d;" = .ok reading →
        FirstWordParts "struct S\x7binty;\x7d;".toList reading.tokens) ∧
      parse "int a;//\nstruct S\x7binty;\x7d;" =
        .ok ⟨[.var (.primitive "int") ⟨"a", some ⟨1, 5⟩, none⟩,
          .struct ⟨"S", some ⟨2, 8⟩, none⟩
            [.var (.primitive "int") ⟨"y", some ⟨2, 13⟩, none⟩]]⟩ := by
  have hs : parse "int a;//" = .ok ⟨[.var (.primitive "int") ⟨"a", some ⟨1, 5⟩, none⟩]⟩ := by cbv
  have ht : parse "struct S\x7binty;\x7d;" = .ok ⟨[.struct ⟨"S", some ⟨1, 8⟩, none⟩
      [.var (.primitive "int") ⟨"y", some ⟨1, 13⟩, none⟩]]⟩ := by
    cbv
  have hfirst : ∀ reading, read "struct S\x7binty;\x7d;" = .ok reading →
      FirstWordParts "struct S\x7binty;\x7d;".toList reading.tokens := by
    intro reading hread token htoken rest htext
    have hknown : (read "struct S\x7binty;\x7d;").map
        (fun reading => reading.tokens.head?.map Token.text) = .ok (some "struct") := by
      cbv
    rw [hread] at hknown
    have hword : token.text = "struct" := by
      have hhead : reading.tokens.head?.map Token.text = some "struct" := Except.ok.inj hknown
      rw [Option.mem_def.1 htoken] at hhead
      exact Option.some.inj hhead
    have hrest : "struct S\x7binty;\x7d;".toList =
        gap "struct S\x7binty;\x7d;".toList ++ "struct".toList ++ " S\x7binty;\x7d;".toList := by
      cbv
    rw [hword, hrest] at htext
    obtain rfl := List.append_cancel_left htext
    exact parts_blank _
  exact ⟨hs, ht, hfirst, parse_append hs ht hfirst⟩

end Moo
