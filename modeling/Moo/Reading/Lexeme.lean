import Moo.Terminal

/-!
# Blanks, comments and words at the front of a text

`gap` is the run of blanks and comments in front of the next word. `lexeme?`
is the next word itself, read as one of the terminals it is offered: the
same text holds other words where other terminals are offered. `1--1` is
`1 - (-1)` where `--` is not offered, and `intx` is two words where no
identifier is.

Words are tried in this order: string literal, identifier, number, keyword,
sign of two characters, sign of one. A keyword where identifiers are offered
has to be the whole word; where none are it ends where its spelling ends.
-/
namespace Moo

def isBlank (c : Char) : Bool :=
  c = ' ' || c = '\t' || c = '\x0c' || c = '\r' || c = '\n'

/-- Letters are those of ASCII. -/
def isWordStart (c : Char) : Bool :=
  c.isAlpha || c = '_'

def isWordPart (c : Char) : Bool :=
  c.isAlphanum || c = '_'

/-- Whether a comment starts with the character `c` in front of `rest`. -/
def startsComment (c : Char) (rest : List Char) : Bool :=
  c = '#' || c = '/' && rest.head? = some '/'

/-- The blanks and comments at the front of a text, which may start inside a comment.
A comment runs to the end of its line. -/
def gapFrom : (inComment : Bool) → List Char → List Char
  | _, [] => []
  | true, c :: rest => if c = '\n' then c :: gapFrom false rest else c :: gapFrom true rest
  | false, c :: rest =>
    if isBlank c then c :: gapFrom false rest
    else if startsComment c rest then c :: gapFrom true rest
    else []

/-- The blanks and comments at the front of a text. -/
def gap (text : List Char) : List Char :=
  gapFrom false text

/-- What follows the opening quote of a string literal, up to its closing quote. A literal ends
on its line, and a backslash stands only in front of `n`, `t`, a quote of either kind or another backslash. -/
def stringTail? : List Char → Option (List Char)
  | '"' :: _ => some ['"']
  | '\\' :: c :: rest =>
    if c = 'n' || c = 't' || c = '\'' || c = '"' || c = '\\' then
      (stringTail? rest).map ('\\' :: c :: ·)
    else none
  | c :: rest => if c = '\\' || c = '\n' then none else (stringTail? rest).map (c :: ·)
  | [] => none

/-- The word of one spelling at the front of `c :: rest`, less its first character. -/
def fixed? (offered : Terminal → Bool) (c : Char) (rest : List Char) :
    Option (Terminal × List Char) :=
  Fixed.all.findSome? fun word =>
    match word.spelling.toList with
    | [] => none
    | first :: more =>
      if offered (.fixed word) && first = c && more.isPrefixOf rest then
        some (.fixed word, more)
      else none

/-- What a whole word is where identifiers are offered: a keyword if it is spelled like an
offered one, else an identifier. -/
def wordTerminal (offered : Terminal → Bool) (word : List Char) : Terminal :=
  match Fixed.all.find? fun f => offered (.fixed f) && f.spelling.toList = word with
  | some f => .fixed f
  | none => .ident

/-- The next word of the text `c :: rest` among the offered terminals, less its first character `c`. -/
def lexeme? (offered : Terminal → Bool) (c : Char) (rest : List Char) :
    Option (Terminal × List Char) :=
  let string := if offered .text && c = '"' then stringTail? rest else none
  match string with
  | some more => some (.text, more)
  | none =>
    if offered .ident && isWordStart c then
      let more := rest.takeWhile isWordPart
      some (wordTerminal offered (c :: more), more)
    else if offered .number && c.isDigit then
      some (.number, rest.takeWhile Char.isDigit)
    else fixed? offered c rest

end Moo
