/-!
# Terminals

The kinds of words that a Moo text is made of. An identifier, a number and a
string literal have many spellings; each keyword and each sign has one. A
keyword is spelled like an identifier, and which of the two a word is
depends on where it stands.
-/
namespace Moo

/-- A word with one spelling. -/
inductive Fixed
  | struct | int | bool | void
  | cin | cout | ifWord | elseWord | whileWord | returnWord | trueWord | falseWord
  | increment | decrement | readArrow | writeArrow
  | equal | notEqual | lessEqual | greaterEqual | conjunction | disjunction
  | becomes | less | greater | plus | minus | times | divide | not
  | dot | comma | semicolon | openParen | closeParen | openBrace | closeBrace
deriving DecidableEq

namespace Fixed

def spelling : Fixed → String
  | struct => "struct"
  | int => "int"
  | bool => "bool"
  | void => "void"
  | cin => "cin"
  | cout => "cout"
  | ifWord => "if"
  | elseWord => "else"
  | whileWord => "while"
  | returnWord => "return"
  | trueWord => "true"
  | falseWord => "false"
  | increment => "++"
  | decrement => "--"
  | readArrow => ">>"
  | writeArrow => "<<"
  | equal => "=="
  | notEqual => "!="
  | lessEqual => "<="
  | greaterEqual => ">="
  | conjunction => "&&"
  | disjunction => "||"
  | becomes => "="
  | less => "<"
  | greater => ">"
  | plus => "+"
  | minus => "-"
  | times => "*"
  | divide => "/"
  | not => "!"
  | dot => "."
  | comma => ","
  | semicolon => ";"
  | openParen => "("
  | closeParen => ")"
  | openBrace => "\x7b"
  | closeBrace => "\x7d"

/-- All words with one spelling. A longer sign comes before every sign that it starts with. -/
def all : List Fixed :=
  [struct, int, bool, void,
    cin, cout, ifWord, elseWord, whileWord, returnWord, trueWord, falseWord,
    increment, decrement, readArrow, writeArrow,
    equal, notEqual, lessEqual, greaterEqual, conjunction, disjunction,
    becomes, less, greater, plus, minus, times, divide, not,
    dot, comma, semicolon, openParen, closeParen, openBrace, closeBrace]

/-- The types that a keyword alone names. -/
def isPrimitiveType : Fixed → Bool
  | int | bool | void => true
  | _ => false

/-- How tightly an operator between two operands binds; other words are no such operators. -/
def binding? : Fixed → Option Nat
  | disjunction => some 1
  | conjunction => some 2
  | equal | notEqual | less | greater | lessEqual | greaterEqual => some 3
  | plus | minus => some 4
  | times | divide => some 5
  | _ => none

theorem mem_all (f : Fixed) : f ∈ all := by
  cases f <;> decide

end Fixed

inductive Terminal
  | text | ident | number
  | fixed (word : Fixed)
deriving DecidableEq

end Moo
