import MonkeyFrontend.Operators
import MonkeyFrontend.Routine

/-!
# Sessions

A session reads one source step by step: it has a window over the source,
the diagnostics recorded so far, and the operator tables in force. Every
routine can be performed in a session, in any order, and the tables can be
changed between two steps.

A session may be given diagnostics that others have recorded something in before; without any it
starts a collection of its own. Reading a whole source with the language's own tables is
`parseInto`, and `parse` does that with a new collection.
-/

namespace MonkeyFrontend

/-- A source that is being read. -/
structure Session where
  operators : Operators Routine
  reader : Reader

namespace Session

/-- A session at the start of a source, with the language's own tables. -/
def start (source : String) (diagnostics? : Option Diagnostics) : Session :=
  ⟨.language, .ofSource source, diagnostics?.getD .empty⟩

/-- The window over the source. -/
def window (session : Session) : Window :=
  session.reader.window

/-- The diagnostics recorded so far. -/
def diagnostics (session : Session) : Diagnostics :=
  session.reader.diagnostics

/-- Runs a construct of the session's dialect at the place that was reached,
and gives its value, if there is one. -/
def perform {α : Type} (session : Session) (construct : Grammar Routine → Routine α) :
    Option α × Session :=
  let run := (construct session.operators.grammar).run session.reader
  (run.1, { session with reader := run.2 })

/-- Changes the tables from here on. -/
def change (session : Session) (edit : Operators Routine → Operators Routine) : Session :=
  { session with operators := edit session.operators }

/-- Reads the statements that are left. -/
def program (session : Session) : Program × Session :=
  let found := session.perform Grammar.statements
  (⟨found.1.getD []⟩, found.2)

end Session

/-! ## Whole sources -/

/-- Reads a source and records what is wrong with it among the given diagnostics. -/
def parseInto (diagnostics? : Option Diagnostics) (source : String) : Program × Diagnostics :=
  let read := (Session.start source diagnostics?).program
  (read.1, read.2.diagnostics)

/-- Reads a source and gives its program with the diagnostics for it. -/
def parse (source : String) : Program × Diagnostics :=
  parseInto (some .empty) source

end MonkeyFrontend
