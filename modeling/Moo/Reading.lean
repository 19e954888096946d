import Moo.Reading.Lexeme
import Moo.Reading.Step

/-!
# Reading a program

`read` turns a text into the words it is made of and the program tree they
form. It goes from place to place: skip blanks and comments, read one word
among those that the place offers, take the step. A text is refused at the
first word, character or end that fits nowhere.

`parse` also refuses a program with a number of more than `maxDigits`
digits, but only when all of the text can be read.
-/
namespace Moo

/-- Where and why a text is no program. -/
inductive SyntaxError
  | unexpectedWord (loc : Loc) (text : String)
  | unexpectedCharacter (loc : Loc) (c : Char)
  | unexpectedEnd (loc : Loc)

namespace SyntaxError

def loc : SyntaxError → Loc
  | unexpectedWord loc _ | unexpectedCharacter loc _ | unexpectedEnd loc => loc

def text : SyntaxError → String
  | unexpectedWord _ text => "Unexpected token '" ++ text ++ "'"
  | unexpectedCharacter _ c => "Unexpected character '" ++ String.singleton c ++ "'"
  | unexpectedEnd _ => "Unexpected end of input"

def message (error : SyntaxError) : String :=
  toString error.loc.line ++ ":" ++ toString error.loc.column ++ " " ++ error.text

end SyntaxError

/-- The words of a text, and the program that they form. -/
structure Reading where
  tokens : List Token
  program : Program

/-- Reads on from a place. `read` holds the words so far, newest first, and `loc` is where `rest` starts. -/
def readOn (place : Place) (read : List Token) (loc : Loc) (rest : List Char) :
    Except SyntaxError Reading :=
  let skipped := gap rest
  let loc := loc.past skipped
  match _h : rest.drop skipped.length with
  | [] =>
    match place.program? with
    | some program => .ok ⟨read.reverse, program⟩
    | none => .error (.unexpectedEnd ((read.head?.map Token.loc).getD loc))
  | c :: rest' =>
    match lexeme? place.spot.offers c rest' with
    | some (terminal, more) =>
      let token : Token := ⟨terminal, String.ofList (c :: more), loc⟩
      match place.step? token with
      | some place => readOn place (token :: read) (loc.past (c :: more)) (rest'.drop more.length)
      | none => .error (.unexpectedWord loc token.text)
    | none =>
      match lexeme? (fun _ => true) c rest' with
      | some (_, more) => .error (.unexpectedWord loc (String.ofList (c :: more)))
      | none => .error (.unexpectedCharacter loc c)
termination_by rest.length
decreasing_by
  have := congrArg List.length _h
  simp only [List.length_drop, List.length_cons] at this ⊢
  omega

def read (source : String) : Except SyntaxError Reading :=
  readOn (.between []) [] .start source.toList

/-- Numbers with more digits are refused. -/
def maxDigits : Nat := 4300

/-- Why a text has no tree. -/
inductive ParseError
  | malformed (error : SyntaxError)
  /-- The first number with too many digits. -/
  | overlongNumber (digits : Nat)

namespace ParseError

def message : ParseError → String
  | malformed error => error.message
  | overlongNumber digits =>
    "Error trying to process rule \"int_lit\":\n\nExceeds the limit (" ++ toString maxDigits
      ++ " digits) for integer string conversion: value has " ++ toString digits
      ++ " digits; use sys.set_int_max_str_digits() to increase the limit"

end ParseError

/-- The digits of a number that has too many of them. -/
def Token.overlong? (token : Token) : Option Nat :=
  if token.terminal = .number && maxDigits < token.text.length then some token.text.length else none

def parse (source : String) : Except ParseError Program :=
  match read source with
  | .error error => .error (.malformed error)
  | .ok reading =>
    match reading.tokens.findSome? Token.overlong? with
    | some digits => .error (.overlongNumber digits)
    | none => .ok reading.program

end Moo
