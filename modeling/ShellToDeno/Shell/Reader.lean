import ShellToDeno.Shell.Reader.Statement

/-!
Reading a script. The productions of the grammar call each other through a `Grammar`; here each of
them gets the one whose productions have one round of fuel less.
-/
namespace ShellToDeno.Shell

namespace Grammar

/-- The grammar with nothing left to spend. -/
def exhausted (limit : Nat) : Grammar where
  limit := limit
  next := throw (.broken .exhausted)
  word := throw (.broken .exhausted)
  statements _ := throw (.broken .exhausted)
  statement _ _ := throw (.broken .exhausted)
  pipeline _ _ := throw (.broken .exhausted)
  arithmetic _ _ := throw (.broken .exhausted)
  test := throw (.broken .exhausted)

/-- One more round around a grammar. -/
def wrap (g : Grammar) : Grammar where
  limit := g.limit
  next := Read.nextToken g
  word := Read.word g
  statements := Read.statements g
  statement := Read.statement g
  pipeline := Read.pipeline g
  arithmetic := Read.arithmetic g
  test := Read.test g

def ofFuel (limit fuel : Nat) : Grammar := Nat.repeat wrap fuel (exhausted limit)

end Grammar

namespace Script

/-- State before the first token. -/
def begin (source : Text) : Except (Refusal SyntaxError) ReadState := do
  return {
    cursor := ← Cursor.start source
    token := .eof
    value := []
    pos := ⟨0, 0, 0⟩
    spaced := false
    equals := none
    mode := .plain
    pending := []
    buried := 0
    stops := []
    inStopWord := false
    regexParens := 0
    regexFirst := false
    bodies := [] }

def grammar (source : Text) : Grammar :=
  .ofFuel (4 * source.length + 64) (16 * source.length + 256)

/-- Reads a whole script, bodies of here-documents that the end cuts off included. -/
def script (g : Grammar) : Read Script := do
  g.next
  let statements ← g.statements []
  Read.readBodies g
  return ⟨statements, (← get).bodies⟩

def read (source : Text) : Except (Refusal SyntaxError) Script := do
  return (← (script (grammar source)).run (← begin source)).1

end Script

end ShellToDeno.Shell
