import Moo.Text.CodePoint
import Moo.Text.Quoted

/-!
# JSON text

JSON as ASCII text, indented by two columns per level, an item or field per
line. A string is written by its units of UTF-16: those that are no visible
characters of ASCII are escaped, each on its own. So nothing tells a character
beyond U+FFFF from its two halves one after the other.
-/
namespace Moo

inductive Json
  | null
  | bool (value : Bool)
  | number (value : Int)
  /-- A string by its units of UTF-16. -/
  | string (units : List UInt16)
  | array (items : List Json)
  | object (fields : List (String × Json))

namespace Json

/-- A string of characters. -/
def word (text : String) : Json :=
  string (utf16 (.ofString text))

def escapeUnit (unit : UInt16) : List Char :=
  if unit = 0x22 then ['\\', '"']
  else if unit = 0x5C then ['\\', '\\']
  else if unit = 0x0A then ['\\', 'n']
  else if unit = 0x0D then ['\\', 'r']
  else if unit = 0x09 then ['\\', 't']
  else if unit = 0x0C then ['\\', 'f']
  else if unit = 0x08 then ['\\', 'b']
  else if 0x20 ≤ unit && unit < 0x7F then [Char.ofNat unit.toNat]
  else '\\' :: 'u' :: hex 4 unit.toNat

def stringText (units : List UInt16) : String :=
  String.ofList ('"' :: units.flatMap escapeUnit ++ ['"'])

/-- The start of a line at a level. -/
def newLine (level : Nat) : String :=
  "\n" ++ String.ofList (List.replicate (2 * level) ' ')

/-- Items between brackets, at the level of the brackets. -/
def enclose (level : Nat) (opening : String) (items : List String) (closing : String) : String :=
  if items.isEmpty then opening ++ closing
  else
    opening ++ newLine (level + 1) ++ ("," ++ newLine (level + 1)).intercalate items
      ++ newLine level ++ closing

mutual

def render (level : Nat) : Json → String
  | null => "null"
  | bool value => if value then "true" else "false"
  | number value => toString value
  | string units => stringText units
  | array items => enclose level "[" (renderItems (level + 1) items) "]"
  | object fields => enclose level "\x7b" (renderFields (level + 1) fields) "\x7d"

def renderItems (level : Nat) : List Json → List String
  | [] => []
  | item :: items => render level item :: renderItems level items

def renderFields (level : Nat) : List (String × Json) → List String
  | [] => []
  | (name, value) :: fields =>
    (stringText (utf16 (.ofString name)) ++ ": " ++ render level value) :: renderFields level fields

end

/-- A whole JSON text. -/
def text (json : Json) : String :=
  render 0 json

end Json

end Moo
