import Moo.Compile
import Moo.Text.Decimal

/-!
# Options

What the arguments of the command line ask for. Arguments are options and
values, mixed; `--` makes values of all that follow. A long option may be
shortened as long as no other starts the same way, and its value may follow
behind `=`. Short options without a value may be written in one argument,
and a short option's value may follow without a gap. An attached `--` is no
value but a separator, and leaves its option with nothing.

All arguments are told apart before any of them counts. Then they count from
left to right, so the first of two mistakes is the one that is reported, and
a request for help ends everything that comes after it.
-/
namespace Moo

inductive Switch
  | help | output | noAnnotate | dumpTree | dumpSymbols | verbose | version
deriving DecidableEq

namespace Switch

/-- All options by their spellings. -/
def spellings : List (String × Switch) :=
  [("-h", help), ("--help", help), ("-o", output), ("--output", output),
    ("--no-annotate", noAnnotate), ("--dump-ast", dumpTree), ("--dump-symbols", dumpSymbols),
    ("-v", verbose), ("--verbose", verbose), ("--version", version)]

def ofSpelling? (spelling : String) : Option Switch :=
  spellings.lookup spelling

/-- How messages call an option: by all its spellings. -/
def title (switch : Switch) : String :=
  "/".intercalate ((spellings.filter (·.2 = switch)).map Prod.fst)

def takesValue : Switch → Bool
  | output => true
  | _ => false

end Switch

/-- Why arguments are refused. -/
inductive UsageError
  | ambiguous (arg : String) (spellings : List String)
  | lacksValue (switch : Switch)
  /-- An option that takes no value has one. -/
  | extraValue (switch : Switch) (value : String)
  | unrecognized (args : List String)

def UsageError.message : UsageError → String
  | ambiguous arg spellings =>
    "ambiguous option: " ++ arg ++ " could match " ++ ", ".intercalate spellings
  | lacksValue switch => "argument " ++ switch.title ++ ": expected one argument"
  | extraValue switch value =>
    "argument " ++ switch.title ++ ": ignored explicit argument " ++ quoted value
  | unrecognized args => "unrecognized arguments: " ++ " ".intercalate args

/-! ## Telling arguments apart -/

/-- What an argument is. -/
inductive Argument
  | value (text : String)
  /-- The first `--`. -/
  | separator
  /-- An option, how it is spelled, and what its argument says behind it. -/
  | switch (switch : Switch) (isShort : Bool) (attached : Option (List Char))
  /-- What looks like an option and is none. -/
  | unknown (text : String)

/-- Splits a text at the first `=`. -/
def splitEquals (text : List Char) : List Char × Option (List Char) :=
  (text.takeWhile (· ≠ '='), (text.dropWhile (· ≠ '=')).tail?)

/-- Whether digits, or digits around a point, follow the minus sign. A line may end behind them. -/
def isNegativeNumber (text : List Char) : Bool :=
  let digits := if text.getLast? = some '\n' then text.dropLast else text
  match digits with
  | '-' :: digits =>
    let rest := digits.dropWhile isDecimal
    match rest with
    | [] => !digits.isEmpty
    | '.' :: rest => !rest.isEmpty && rest.all isDecimal
    | _ => false
  | _ => false

/-- The options that an argument may mean by a shortened spelling, or that it starts with. -/
def switchesOf (text : List Char) : List (String × Argument) :=
  match text with
  | '-' :: '-' :: _ =>
    let (spelling, attached) := splitEquals text
    (Switch.spellings.filter fun (name, _) => spelling.isPrefixOf name.toList).map
      fun (name, switch) => (name, .switch switch false attached)
  | '-' :: c :: rest =>
    match Switch.ofSpelling? (String.ofList ['-', c]) with
    | some switch => [(String.ofList ['-', c], .switch switch true (some rest))]
    | none => []
  | _ => []

/-- An option that is spelled out. -/
def exactSwitch? (spelling : List Char) (attached : Option (List Char)) : Option Argument :=
  (Switch.ofSpelling? (String.ofList spelling)).map fun switch =>
    .switch switch (spelling.length = 2) attached

def argumentOf (arg : String) : Except UsageError Argument :=
  let text := arg.toList
  if text.head? ≠ some '-' || text.length = 1 then .ok (.value arg)
  else
    let (spelling, attached) := splitEquals text
    match exactSwitch? text none, attached.bind fun _ => exactSwitch? spelling attached with
    | some argument, _ | none, some argument => .ok argument
    | none, none =>
      match switchesOf text with
      | [(_, argument)] => .ok argument
      | [] => .ok (if isNegativeNumber text || text.contains ' ' then .value arg else .unknown arg)
      | several => .error (.ambiguous arg (several.map Prod.fst))

/-- All arguments up to the separator, and the values behind it. -/
def argumentsOf : List String → Except UsageError (List Argument)
  | [] => .ok []
  | "--" :: args => .ok (.separator :: args.map .value)
  | arg :: args => do
    let argument ← argumentOf arg
    let arguments ← argumentsOf args
    .ok (argument :: arguments)

/-! ## What they ask for -/

/-- The options of a command line, and the input if there is one. -/
structure Options where
  input : Option String
  output : Target
  annotate : Bool
  dumpTree : Bool
  dumpSymbols : Bool
  verbose : Bool

def Options.default : Options :=
  ⟨none, .console, true, false, false, false⟩

inductive Request
  | run (options : Options)
  | help
  | version
  | refuse (error : UsageError)

/-- The options that one argument stands for, the last with the value that is attached to it.
Each character behind a short option without a value is a short option. -/
def cluster (switch : Switch) (isShort : Bool) (attached : List Char) :
    Except UsageError (List Switch × Option String) :=
  if switch.takesValue then .ok ([switch], some (String.ofList attached))
  else
    match attached with
    | [] => .error (.extraValue switch "")
    | c :: rest =>
      match if isShort then Switch.ofSpelling? (String.ofList ['-', c]) else none with
      | none => .error (.extraValue switch (String.ofList attached))
      | some next =>
        match rest with
        | [] => .ok ([switch, next], none)
        | _ :: _ => do
          let (switches, value) ← cluster next true rest
          .ok (switch :: switches, value)

/-- The target that the value of an option names. A separator is taken out of it. -/
def Target.ofValue (value : String) : Target :=
  if value = "--" then .unnamed else .file (.ofString value)

/-- Lets options count one after the other. The last one may have a value. -/
def apply (options : Options) (value : String) : List Switch → Except Request Options
  | [] => .ok options
  | .help :: _ => .error .help
  | .version :: _ => .error .version
  | .output :: switches => apply { options with output := .ofValue value } value switches
  | .noAnnotate :: switches => apply { options with annotate := false } value switches
  | .dumpTree :: switches => apply { options with dumpTree := true } value switches
  | .dumpSymbols :: switches => apply { options with dumpSymbols := true } value switches
  | .verbose :: switches => apply { options with verbose := true } value switches

/-- Lets arguments count one after the other. The first value is the input; values behind it, and
unknown options, are left over. -/
def interpret (options : Options) (left : List String) : List Argument → Request
  | [] => if left.isEmpty then .run options else .refuse (.unrecognized left)
  | .unknown text :: arguments => interpret options (left ++ [text]) arguments
  | .separator :: arguments =>
    if options.input.isNone then interpret options left arguments
    else interpret options (left ++ ["--"]) arguments
  | .value text :: .separator :: arguments =>
    if options.input.isNone then interpret { options with input := some text } left arguments
    else interpret options (left ++ [text, "--"]) arguments
  | .value text :: arguments =>
    if options.input.isNone then interpret { options with input := some text } left arguments
    else interpret options (left ++ [text]) arguments
  | .switch switch isShort attached :: arguments =>
    match (attached.map (cluster switch isShort)).getD (.ok ([switch], none)) with
    | .error error => .refuse error
    | .ok (switches, some value) =>
      match apply options value switches with
      | .ok options => interpret options left arguments
      | .error request => request
    | .ok (switches, none) =>
      match switches.getLast?, arguments with
      | some .output, .value value :: arguments =>
        match apply options value switches with
        | .ok options => interpret options left arguments
        | .error request => request
      | some .output, _ => .refuse (.lacksValue .output)
      | _, arguments =>
        match apply options "" switches with
        | .ok options => interpret options left arguments
        | .error request => request

/-- What a command line asks for. -/
def Request.ofArgs (args : List String) : Request :=
  match argumentsOf args with
  | .ok arguments => interpret .default [] arguments
  | .error error => .refuse error

end Moo
