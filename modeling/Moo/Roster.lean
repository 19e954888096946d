import Moo.Table
import Moo.Tree.Occurrence

/-!
# Rosters

A roster lists every symbol that can be reached from some given ones, each
once: first the given ones in their order, then what each symbol of the list
leads to. Its position, counted from one, is the symbol's number.
-/
namespace Moo

theorem Symbol.sizeOf_append (xs ys : List Symbol) :
    sizeOf (xs ++ ys) + 1 = sizeOf xs + sizeOf ys := by
  induction xs with
  | nil =>
    simp only [List.nil_append, List.nil.sizeOf_spec]
    omega
  | cons x xs ih =>
    simp only [List.cons_append, List.cons.sizeOf_spec]
    omega

theorem Symbol.sizeOf_members (members : List (String × Symbol)) :
    sizeOf (members.map Prod.snd) ≤ sizeOf members := by
  induction members with
  | nil => simp
  | cons member members ih =>
    obtain ⟨name, symbol⟩ := member
    simp only [List.map_cons, List.cons.sizeOf_spec, Prod.mk.sizeOf_spec]
    omega

/-- What a symbol leads to is no larger than the symbol, taken together. -/
theorem Symbol.sizeOf_parts (symbol : Symbol) : sizeOf symbol.parts ≤ 1 + sizeOf symbol := by
  match symbol with
  | .value .. | .function .. =>
    simp only [parts, List.nil.sizeOf_spec]
    omega
  | .structType (.mk origin name members) =>
    have := sizeOf_members members
    simp only [parts, StructType.members, structType.sizeOf_spec, StructType.mk.sizeOf_spec]
    omega
  | .structValue origin type definition =>
    have : 0 < sizeOf origin := by cases origin; simp only [Origin.mk.sizeOf_spec]; omega
    simp only [parts, List.cons.sizeOf_spec, List.nil.sizeOf_spec, structType.sizeOf_spec,
      structValue.sizeOf_spec]
    omega

structure Roster where
  symbols : List Symbol

namespace Roster

/-- Adds the symbols of a queue, and behind the queue what the new ones lead to. -/
def collect (found queue : List Symbol) : List Symbol :=
  match queue with
  | [] => found
  | symbol :: queue =>
    if found.any symbol.is then collect found queue
    else collect (found ++ [symbol]) (queue ++ symbol.parts)
termination_by sizeOf queue
decreasing_by
  · simp only [List.cons.sizeOf_spec]
    omega
  · have hparts := symbol.sizeOf_parts
    have happend := Symbol.sizeOf_append queue symbol.parts
    simp only [List.cons.sizeOf_spec]
    omega

/-- The symbols that can be reached from a program's names and a scope, in this order. -/
def of (program : Program) (locals : Scope) : Roster :=
  ⟨collect [] (program.occurrences.filterMap Occurrence.symbol ++ locals.map Prod.snd)⟩

def number? (roster : Roster) (symbol : Symbol) : Option Nat :=
  (roster.symbols.findIdx? symbol.is).map (· + 1)

end Roster

end Moo
