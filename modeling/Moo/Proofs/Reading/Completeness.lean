import Moo.Proofs.Reading.Run
import Moo.Proofs.Reading.Words

/-!
# Every program is read

Whatever words the grammar derives, joined by single spaces they are read,
and their tree is the one of the derivation. The words may be any that
their terminals allow, except that an identifier must not be spelled like a
keyword and a number must not be too long.

* `Derives.unique`: one sequence of words stands for one program.
* `readOn_spaced`: words that lead to the end of a program are found when
  they are laid out with spaces.
* `parse_complete`: the statement for whole texts.
-/
namespace Moo

/-- The words of a program determine it. -/
theorem Derives.unique {tokens : List Token} {p q : Program} (hp : Derives .start tokens p)
    (hq : Derives .start tokens q) : p = q := by
  have hp' : (Place.between []).run tokens = some (.between p.decls.reverse) := hp.runs
  have hq' : (Place.between []).run tokens = some (.between q.decls.reverse) := hq.runs
  have hdecls := Place.between.inj (Option.some.inj (hp'.symm.trans hq'))
  cases p
  cases q
  exact congrArg Program.mk (List.reverse_inj.1 hdecls)

/-! ## Words apart from a text -/

/-- A word that no place mistakes for another: no identifier spelled like a keyword, and no number
that is refused for its length. -/
structure ClearWord where
  terminal : Terminal
  text : String
  spelled : IsLexeme terminal text.toList
  unlike : terminal = .ident → ∀ f : Fixed, f.spelling ≠ text
  short : terminal = .number → text.length ≤ maxDigits

namespace ClearWord

/-- The words with single spaces between them. -/
def join (words : List ClearWord) : String :=
  " ".intercalate (words.map text)

/-- The words with a space in front of each. -/
def spaced (words : List ClearWord) : List Char :=
  words.flatMap fun word => ' ' :: word.text.toList

/-- The words where they stand in a text with single spaces between them, the first at `loc`. -/
def layOut (loc : Loc) : List ClearWord → List Token
  | [] => []
  | word :: words =>
    ⟨word.terminal, word.text, loc⟩ :: layOut ((loc.past word.text.toList).next ' ') words

theorem join_cons (word : ClearWord) (words : List ClearWord) :
    (join (word :: words)).toList = word.text.toList ++ spaced words := by
  induction words generalizing word with
  | nil => simp [join, spaced]
  | cons next words ih =>
    have hn := ih next
    simp only [join, List.map_cons] at hn ⊢
    rw [String.intercalate_cons_cons, String.toList_append, String.toList_append, hn]
    simp [spaced]

theorem finds {place next : Place} {word : ClearWord} {loc : Loc}
    (h : place.step? ⟨word.terminal, word.text, loc⟩ = some next) :
    place.spot.Finds ⟨word.terminal, word.text, loc⟩ :=
  ⟨Place.offers_of_step h, word.spelled, fun hi f _ => word.unlike hi f⟩

theorem overlong?_layOut (loc : Loc) (words : List ClearWord) :
    ∀ t ∈ layOut loc words, t.overlong? = none := by
  induction words generalizing loc with
  | nil => simp [layOut]
  | cons word words ih =>
    intro t ht
    rcases List.mem_cons.1 ht with rfl | ht
    · have hshort := word.short
      simp only [Token.overlong?, Bool.and_eq_true, decide_eq_true_eq, ite_eq_right_iff,
        reduceCtorEq, imp_false, not_and]
      exact fun hn => Nat.not_lt_of_le (hshort hn)
    · exact ih _ t ht

/-- No word is joined by the space behind it. -/
theorem spaced_parts (word : ClearWord) (words : List ClearWord) :
    ∀ d ∈ (spaced words).head?, word.terminal.joins d = false := by
  cases words with
  | nil => simp [spaced]
  | cons next words =>
    intro d hd
    cases hd
    exact word.terminal.joins_blank (by decide)

end ClearWord

open ClearWord

/-- Words with a space in front of each are read one after the other. -/
theorem readOn_spaced {place last : Place} {read : List Token} {loc : Loc} {words : List ClearWord}
    {program : Program} (hr : place.run (layOut (loc.next ' ') words) = some last)
    (hp : last.program? = some program) :
    readOn place read loc (spaced words) =
      .ok ⟨read.reverse ++ layOut (loc.next ' ') words, program⟩ := by
  induction words generalizing place read loc with
  | nil =>
    cases hr
    simpa [layOut, spaced] using readOn_end (List.forall_mem_nil _) hp
  | cons word words ih =>
    obtain ⟨next, hs, hr⟩ := Option.bind_eq_some_iff.1 hr
    have hblank : ∀ c ∈ [' '], isBlank c = true := by simp [isBlank]
    have hword := readOn_word read hblank rfl (finds hs) (spaced_parts word words) hs
    have hcons : spaced (word :: words) = [' '] ++ word.text.toList ++ spaced words := rfl
    rw [hcons]
    refine hword.trans ?_
    rw [ih hr]
    simp [layOut]

/-- The words of a derivation, joined by single spaces, are read as the tree of the derivation, which
is the only one that they have. -/
theorem parse_complete {words : List ClearWord} {program : Program}
    (h : Derives .start (layOut .start words) program) :
    parse (join words) = .ok program ∧
      ∀ other, Derives .start (layOut .start words) other → other = program := by
  refine ⟨?_, fun other ho => ho.unique h⟩
  have hrun : (Place.between []).run (layOut .start words) =
      some (.between program.decls.reverse) := h.runs
  have hlast : (Place.between program.decls.reverse).program? = some program := by
    simp [Place.program?]
  have hread : read (join words) = .ok ⟨layOut .start words, program⟩ := by
    cases words with
    | nil =>
      have hsame : Place.between [] = .between program.decls.reverse := Option.some.inj hrun
      rw [← hsame] at hlast
      exact readOn_end (List.forall_mem_nil _) hlast
    | cons word words =>
      obtain ⟨next, hs, hr⟩ := Option.bind_eq_some_iff.1 hrun
      have hword := readOn_word [] (List.forall_mem_nil _) rfl (finds hs)
        (spaced_parts word words) hs
      rw [read, join_cons]
      refine hword.trans ?_
      rw [readOn_spaced hr hlast]
      simp [layOut]
  have hshort : (layOut .start words).findSome? Token.overlong? = none :=
    List.findSome?_eq_none_iff.2 (overlong?_layOut .start words)
  simp [parse, hread, hshort]

/-- A word with one spelling. -/
def ClearWord.fixed (f : Fixed) : ClearWord where
  terminal := .fixed f
  text := f.spelling
  spelled := rfl
  unlike := fun h => by cases h
  short := fun h => by cases h

/-- A number of one digit. -/
def ClearWord.digit (c : Char) (h : c.isDigit = true) : ClearWord where
  terminal := .number
  text := String.singleton c
  spelled := ⟨by simp, by simpa using h⟩
  unlike := fun h => by cases h
  short := fun _ => by simp [maxDigits]

/-- The words of a statement that returns `1 - 2 - 3`, in a function without formals. -/
def differences : List ClearWord :=
  [.fixed .int,
    { terminal := .ident
      text := "f"
      spelled := ⟨'f', [], rfl, by decide, by simp⟩
      unlike := fun _ f => by cases f <;> decide
      short := fun h => by cases h },
    .fixed .openParen, .fixed .closeParen, .fixed .openBrace, .fixed .returnWord,
    .digit '1' (by decide), .fixed .minus, .digit '2' (by decide), .fixed .minus,
    .digit '3' (by decide), .fixed .semicolon, .fixed .closeBrace]

/-- The two differences group to the left. -/
theorem parse_complete_differences :
    parse "int f ( ) \x7b return 1 - 2 - 3 ; \x7d" = .ok
      ⟨[.function (.primitive "int") ⟨"f", some ⟨1, 5⟩, none⟩ [] []
        [.returnValue (.binary "-"
          (.binary "-" (.int 1 (some ⟨1, 20⟩)) (.int 2 (some ⟨1, 24⟩)))
          (.int 3 (some ⟨1, 28⟩)))]]⟩ := by
  let sign (f : Fixed) (column : Int) : Token := ⟨.fixed f, f.spelling, ⟨1, column⟩⟩
  let digit (c : Char) (column : Int) : Token := ⟨.number, String.singleton c, ⟨1, column⟩⟩
  have hdigit (c : Char) (column value : Int) (h : (digit c column).number = value) :
      Derives .mulExp [digit c column] (.int value (some ⟨1, column⟩)) :=
    h ▸ .unaryIsMul (.termIsUnary (.intLit rfl))
  have hfirst : Derives .addExp ([digit '1' 20] ++ sign .minus 22 :: [digit '2' 24]) _ :=
    .addOp (by simp) (.mulIsAdd (hdigit '1' 20 1 (by decide))) rfl (hdigit '2' 24 2 (by decide))
  have hboth := Derives.addOp (by simp) hfirst (rfl : (sign .minus 26).terminal = .fixed .minus)
    (hdigit '3' 28 3 (by decide))
  have hreturn := Derives.returnValueStmt (rfl : (sign .returnWord 13).terminal = .fixed .returnWord)
    (.orIsExp (.andIsOr (.relIsAnd (.addIsRel hboth))))
    (rfl : (sign .semicolon 30).terminal = .fixed .semicolon)
  have hbody := Derives.fnBody (rfl : (sign .openBrace 11).terminal = .fixed .openBrace) .noLocals
    (.moreStmts .noStmts hreturn) (rfl : (sign .closeBrace 32).terminal = .fixed .closeBrace)
  have hf : Derives .fnDecl ([sign .int 1] ++ (⟨.ident, "f", ⟨1, 5⟩⟩ : Token) ::
      sign .openParen 7 :: sign .closeParen 9 :: _) _ :=
    .fnDeclNoFormals (.primitiveType (by simp) rfl) rfl rfl rfl hbody
  have hstart : Derives .start (layOut .start differences) _ :=
    (Derives.start (.moreDecls .noDecls (.fnDeclIsDecl hf))).of_eq rfl
  have htext : join differences = "int f ( ) \x7b return 1 - 2 - 3 ; \x7d" := by decide +kernel
  rw [← htext]
  exact (parse_complete hstart).1

end Moo
