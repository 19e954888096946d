import Moo.CommandLine.Options

/-!
# The command line

Runs the compiler as its arguments ask, and tells by the exit code how it
went: 0 if all is well, 1 if the program is not, 2 if the arguments are not.
-/
namespace Moo

def usage : String :=
  unlines
    ["usage: mooc [-h] [-o OUTPUT] [--no-annotate] [--dump-ast] [--dump-symbols]",
      "            [-v] [--version]",
      "            [input]"]

def help : String :=
  usage ++ unlines
    ["",
      "Moo compiler front end: parses a .moo file, runs name analysis and unparses",
      "the annotated program",
      "",
      "positional arguments:",
      "  input                 Input .moo file",
      "",
      "options:",
      "  -h, --help            show this help message and exit",
      "  -o OUTPUT, --output OUTPUT",
      "                        Write the unparsed program here (default: stdout)",
      "  --no-annotate         Do not annotate identifiers with their resolved types",
      "  --dump-ast            Print the AST as JSON",
      "  --dump-symbols        Print the global symbol table after name analysis",
      "  -v, --verbose         Log compiler phases to stderr",
      "  --version             show program's version number and exit"]

def version : String := "mooc 0.1.0\n"

def Options.job (options : Options) (input : String) : Job where
  input := .ofString input
  output := options.output
  annotate := options.annotate
  dumpTree := options.dumpTree
  dumpSymbols := options.dumpSymbols
  verbose := options.verbose

section

variable {m : Type → Type} [Monad m] [Disk m] [Console m]

/-- Compiles a file and says on the console how it went. A malformed program and a missing input
are told to the user; other failures are left to the caller. -/
def Job.run (job : Job) : ExceptT Failure m Nat := do
  if !(← failing .disk (Disk.contains job.input)) then
    warn ("Error: file not found: " ++ job.input.text ++ "\n")
    pure 1
  else
    match ← ExceptT.lift job.compile.run with
    | .error (.parse (.malformed error)) => do
      warn (errorLine error.loc error.text ++ "\n")
      pure 1
    | .error failure => throw failure
    | .ok findings =>
      if findings.diagnostics.isEmpty then pure 0
      else do
        warn (toString findings.diagnostics.length ++ " error(s) found in " ++ job.input.text
          ++ "\n")
        pure 1

/-- Runs a command line and gives its exit code. -/
def runArgs (args : List String) : ExceptT Failure m Nat :=
  match Request.ofArgs args with
  | .help => do print help; pure 0
  | .version => do print version; pure 0
  | .refuse error => do
    warn (usage ++ "mooc: error: " ++ error.message ++ "\n")
    pure 2
  | .run options =>
    match options.input with
    | none => do print help; pure 0
    | some input => (options.job input).run

end

end Moo
