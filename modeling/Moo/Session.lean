import Moo.Names.Analysis

/-!
# Sessions

A session holds a program and the state of its analysis: a table, and all
that was reported. The program can be analysed again on the same table, it
can be exchanged, and scopes and names can be added by hand. Symbols made in
one session have different origins, whatever the program.
-/
namespace Moo

structure Session where
  program : Program
  table : Table
  /-- All diagnostics since the analysis was started afresh, oldest first. -/
  diagnostics : List Diagnostic
  /-- How many declarations at top level were made in the session. -/
  clock : Nat

namespace Session

def start : Session :=
  ⟨⟨[]⟩, .new, [], 0⟩

def load (session : Session) (program : Program) : Session :=
  { session with program }

/-- Starts the analysis of the program afresh. -/
def restart (session : Session) : Session :=
  { session with table := .new, diagnostics := [] }

def push (session : Session) : Session :=
  { session with table := session.table.push }

def pop (session : Session) : Except TableError (Scope × Session) := do
  let (scope, table) ← session.table.pop
  .ok (scope, { session with table })

/-- Declares a value of a type by hand. -/
def declare (session : Session) (name type : String) : Except TableError Session := do
  let table ← session.table.declare name (.value (.top session.clock) type)
  .ok { session with table, clock := session.clock + 1 }

/-- Analyses the program on the table as it is. -/
def analyze (session : Session) : Analysis × Session :=
  let analysis := session.program.analyzeWith session.table session.clock
  (analysis,
    { program := analysis.program
      table := analysis.table
      diagnostics := session.diagnostics ++ analysis.diagnostics
      clock := session.clock + session.program.decls.length })

end Session

end Moo
