import Moo.Disk
import Moo.Names.Analysis
import Moo.Printer
import Moo.Reading
import Moo.Text.Utf8
import Moo.Tree.Dump

/-!
# Compiling a file

Reads a file, analyses the program in it and prints the program. Misuses of
names are echoed while they are found, and the dumps that were asked for are
printed also where there are some. The program is printed only where there
are none, to a file if one is given. Nothing is written before that.
-/
namespace Moo

/-- Where a program is printed to. -/
inductive Target
  | console
  | file (path : Path)
  /-- To a file that was left without a path. -/
  | unnamed

/-- What to compile and how. -/
structure Job where
  input : Path
  output : Target
  annotate : Bool
  dumpTree : Bool
  dumpSymbols : Bool
  /-- Whether to log what is being done. -/
  verbose : Bool

/-- Why there is no result. -/
inductive Failure
  | disk (error : DiskError)
  | encoding (error : Utf8.DecodeError)
  | parse (error : ParseError)
  | fault (fault : Fault)
  /-- There is a program to print, and no path to print it to. -/
  | unnamedTarget

def Failure.message : Failure → String
  | disk error => error.message
  | encoding error => error.message
  | parse error => error.message
  | .fault error => error.message
  | unnamedTarget => "expected str, bytes or os.PathLike object, not list"

/-- What a compilation found. -/
structure Findings where
  diagnostics : List Diagnostic
  table : Table

/-- How an event of name analysis is logged, or echoed. -/
def Event.text : Event → String
  | reported diagnostic => diagnostic.text
  | entered function => "mooc.analysis.name_analyzer: entering function '" ++ function ++ "'"
  | opened depth => "mooc.analysis.symbols: push scope (depth " ++ toString depth ++ ")"
  | closed depth => "mooc.analysis.symbols: pop scope (depth " ++ toString depth ++ ")"

/-- Whether an event is shown: diagnostics always are. -/
def Event.isShown (verbose : Bool) : Event → Bool
  | reported _ => true
  | _ => verbose

/-- The lines about the events of name analysis. -/
def Event.lines (verbose : Bool) (events : List Event) : String :=
  unlines ((events.filter (Event.isShown verbose)).map Event.text)

/-- The text of a file: its characters, with the line ends of a text. -/
def sourceOf (bytes : List UInt8) : Except Utf8.DecodeError String := do
  let text ← Utf8.decode bytes
  .ok (String.ofList (unifyNewlines text))

section

variable {m : Type → Type} [Monad m] [Disk m] [Console m]

/-- An action that may fail, with its failure as one of compilation. -/
def failing {ε α : Type} (cause : ε → Failure) (action : m (Except ε α)) : ExceptT Failure m α :=
  ExceptT.mk do
    match ← action with
    | .ok value => pure (.ok value)
    | .error error => pure (.error (cause error))

def print (text : String) : ExceptT Failure m Unit :=
  ExceptT.lift (Console.print text)

def warn (text : String) : ExceptT Failure m Unit :=
  ExceptT.lift (Console.warn text)

/-- Writes a log line, if the job asks for them. -/
def Job.log (job : Job) (text : String) : ExceptT Failure m Unit :=
  if job.verbose then warn (text ++ "\n") else pure ()

/-- Prints the program, to the console or to the file of the job. -/
def Job.emit (job : Job) (program : Program) : ExceptT Failure m Unit := do
  let text ← failing .fault (pure (program.print job.annotate))
  match job.output with
  | .console => print text
  | .unnamed => throw .unnamedTarget
  | .file path => do
    failing .disk (Disk.ensureParent path)
    failing .disk (Disk.write path text)
    print ("Wrote " ++ path.text ++ "\n")

/-- Compiles a file. -/
def Job.compile (job : Job) : ExceptT Failure m Findings := do
  let bytes ← failing .disk (Disk.read job.input)
  let source ← failing .encoding (pure (sourceOf bytes))
  let program ← failing .parse (pure (parse source))
  job.log ("mooc.compiler: parsed " ++ toString program.decls.length
    ++ " top-level declaration(s)")
  let analysis := program.analyze
  warn (Event.lines job.verbose analysis.events)
  match analysis.fault with
  | some fault => throw (.fault fault)
  | none => pure ()
  let count := toString analysis.diagnostics.length
  job.log ("mooc.analysis.name_analyzer: name analysis finished with " ++ count ++ " error(s)")
  if job.dumpTree then print (program.dump ++ "\n")
  if job.dumpSymbols then print (analysis.table.dump ++ "\n")
  if analysis.diagnostics.isEmpty then job.emit analysis.program
  else
    job.log ("mooc.compiler: " ++ job.input.text ++ ": " ++ count
      ++ " semantic error(s), skipping output")
  pure ⟨analysis.diagnostics, analysis.table⟩

end

end Moo
