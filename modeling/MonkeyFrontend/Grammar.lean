import MonkeyFrontend.Parser
import MonkeyFrontend.Precedence
import MonkeyFrontend.Tree

/-!
# Statements and blocks

The constructs of the language are built over a `Grammar`: the reader of
expressions that they turn to for their parts, and the binding strengths in
force. They are the same for every kind of reader of tokens (`Reading`). None
of them calls itself, so each can be understood, and reasoned about, from
what the reader of expressions is known to do. The circle is closed in
`MonkeyFrontend.Operators`.

A construct starts on its first token and stops on its last one. The token
after that is for whoever asked for the construct.

A statement that cannot be read does not fail. It is dropped, the reader
moves to where the statement ends (`Reading.skip`), and the statements
around it go on as if it had not been there. A block fails only
if the input ends before its closing brace.
-/

namespace MonkeyFrontend

/-- What a construct can turn to for its parts. -/
structure Grammar (m : Type → Type := Parser) where
  /-- Reads an expression whose operators all bind more strongly than given. -/
  expression : Precedence → m Expr
  /-- The strength with which an operator of a kind binds. -/
  precedence : Kind → Precedence

namespace Grammar

variable {m : Type → Type} [Monad m] [Reading m]

/-- Passes a semicolon, if one is next. -/
def optionalSemicolon : m Unit := do
  let next ← Reading.peek
  if next.kind = .semicolon then Reading.advance else pure ()

/-! ## The three forms of statement -/

/-- A name bound to a value. -/
def binding (grammar : Grammar m) : m Statement := do
  let token ← Reading.current
  Reading.expect .name
  let bound ← Reading.current
  Reading.expect .assign
  Reading.advance
  let value ← grammar.expression .lowest
  optionalSemicolon
  pure (.binding token ⟨bound, bound.literal⟩ value)

/-- A value to leave the enclosing function with. -/
def result (grammar : Grammar m) : m Statement := do
  let token ← Reading.current
  Reading.advance
  let value ← grammar.expression .lowest
  optionalSemicolon
  pure (.result token value)

/-- An expression that stands alone. -/
def expressionStatement (grammar : Grammar m) : m Statement := do
  let token ← Reading.current
  let value ← grammar.expression .lowest
  optionalSemicolon
  pure (.expression token value)

/-- The statement that a token of the given kind begins. -/
def statementFrom (grammar : Grammar m) : Kind → m Statement
  | .letWord => grammar.binding
  | .returnWord => grammar.result
  | _ => grammar.expressionStatement

/-- The statement at this place, or none if it is broken and was dropped. -/
def statement (grammar : Grammar m) : m (Option Statement) := do
  let home ← Reading.depth
  let first ← Reading.current
  match ← Reading.attempt (grammar.statementFrom first.kind) with
  | some statement => pure (some statement)
  | none =>
    Reading.skip home
    pure none

/-! ## Sequences of statements -/

/-- One round of a program: a statement and the step past its last token,
or nothing at the end of the input. -/
def programItem (grammar : Grammar m) : m (Option (Option Statement)) := do
  let token ← Reading.current
  if token.kind = .endOfInput then
    pure none
  else
    let statement ← grammar.statement
    Reading.advance
    pure (some statement)

/-- The statements up to the end of the input. -/
def statements (grammar : Grammar m) : m (List Statement) := do
  let found ← Reading.many grammar.programItem
  pure (found.filterMap id)

/-- One round of a block: a statement and the step past its last token, or
nothing at the closing brace or the end of the input. A broken statement
may have ended in front of the closing brace, which is then not passed. -/
def blockItem (grammar : Grammar m) : m (Option (Option Statement)) := do
  let token ← Reading.current
  if token.kind = .closeBrace ∨ token.kind = .endOfInput then
    pure none
  else
    let statement ← grammar.statement
    let last ← Reading.current
    if statement.isNone ∧ last.kind = .closeBrace then pure () else Reading.advance
    pure (some statement)

/-- The statements between the brace at this place and the one that closes it. -/
def block (grammar : Grammar m) : m Block := do
  let token ← Reading.current
  Reading.advance
  let found ← Reading.many grammar.blockItem
  let last ← Reading.current
  if last.kind = .endOfInput then
    Reading.abort (.unexpected .closeBrace .endOfInput)
  else
    pure ⟨token, found.filterMap id⟩

end Grammar

end MonkeyFrontend
