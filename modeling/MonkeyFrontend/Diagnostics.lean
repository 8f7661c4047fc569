/-!
# Diagnostics

The messages collected while programs are read, in the order in which they
were recorded. Tokens carry no positions, so a diagnostic is a severity and
a text.

## Main results

* `Diagnostics.messages_record`, `Diagnostics.messages_recordAll` — what was
  recorded comes after what was there.
-/

namespace MonkeyFrontend

/-- How bad it is. -/
inductive Severity where
  | error
deriving DecidableEq

/-- The name of a severity. -/
def Severity.label : Severity → String
  | error => "error"

/-- One message. -/
structure Diagnostic where
  severity : Severity
  message : String
deriving DecidableEq

/-- A message under its severity. -/
def Diagnostic.render (diagnostic : Diagnostic) : String :=
  diagnostic.severity.label ++ ": " ++ diagnostic.message

/-- The messages recorded so far. -/
structure Diagnostics where
  /-- The messages, oldest first. -/
  entries : List Diagnostic
deriving DecidableEq

namespace Diagnostics

/-- No messages yet. -/
def empty : Diagnostics := ⟨[]⟩

/-- Records an error. -/
def record (diagnostics : Diagnostics) (message : String) : Diagnostics :=
  ⟨diagnostics.entries ++ [⟨.error, message⟩]⟩

/-- Records several errors, the first one first. -/
def recordAll (diagnostics : Diagnostics) (messages : List String) : Diagnostics :=
  messages.foldl record diagnostics

/-- The texts of the messages. -/
def messages (diagnostics : Diagnostics) : List String :=
  diagnostics.entries.map Diagnostic.message

/-- The number of messages. -/
def size (diagnostics : Diagnostics) : Nat :=
  diagnostics.entries.length

/-- Whether an error was recorded. -/
def hasErrors (diagnostics : Diagnostics) : Bool :=
  diagnostics.entries.any fun diagnostic => diagnostic.severity == .error

/-- All messages, a line each. -/
def render (diagnostics : Diagnostics) : String :=
  "\n".intercalate (diagnostics.entries.map Diagnostic.render)

@[simp] theorem messages_record (diagnostics : Diagnostics) (message : String) :
    (diagnostics.record message).messages = diagnostics.messages ++ [message] := by
  simp [record, messages]

@[simp] theorem messages_recordAll (diagnostics : Diagnostics) (added : List String) :
    (diagnostics.recordAll added).messages = diagnostics.messages ++ added := by
  induction added generalizing diagnostics with
  | nil => simp [recordAll]
  | cons first rest ih =>
    show ((diagnostics.record first).recordAll rest).messages = _
    rw [ih, messages_record, List.append_assoc]
    rfl

end Diagnostics

end MonkeyFrontend
