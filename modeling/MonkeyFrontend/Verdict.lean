import MonkeyFrontend.Session
import MonkeyFrontend.Tree.Render

/-!
# Verdicts

A verdict says whether a source is a valid program and, valid or not, what
could be read of it.
-/

namespace MonkeyFrontend

/-- How a source was read. -/
structure Verdict where
  /-- Whether nothing was wrong. -/
  valid : Bool
  /-- What was wrong. -/
  messages : List String
  /-- How many statements at the outermost level were read. -/
  statementCount : Nat
  /-- The canonical text of those statements. -/
  rendered : String
deriving DecidableEq

/-- The verdict on a source. -/
def Verdict.ofSource (source : String) : Verdict :=
  let (program, diagnostics) := parse source
  ⟨!diagnostics.hasErrors, diagnostics.messages, program.statements.length, program.render⟩

end MonkeyFrontend
