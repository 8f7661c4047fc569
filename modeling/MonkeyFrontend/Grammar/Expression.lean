import MonkeyFrontend.Grammar
import MonkeyFrontend.Text.Numeral

/-!
# Expressions

The forms of expression that the operator tables are made of. A form
either begins an expression, at its first token, or extends an expression
that is already there, at the token that follows it.
-/

namespace MonkeyFrontend

/-! ## Integers -/

/-- The smallest signed word of 64 bits. -/
def minInteger : Int := -0x8000000000000000

/-- The largest signed word of 64 bits. -/
def maxInteger : Int := 0x7FFFFFFFFFFFFFFF

/-- The integer that a literal names, or what is wrong with it. -/
def readInteger (literal : String) : Except Fault Int :=
  match Numeral.value? literal with
  | none => .error (.notInteger literal)
  | some value =>
    if minInteger ≤ (value : Int) ∧ (value : Int) ≤ maxInteger then .ok value
    else .error (.outOfRange literal)

namespace Grammar

variable {m : Type → Type} [Monad m] [Reading m]

/-! ## Forms of one token -/

/-- The token at this place, taken as a name. -/
def name (_ : Grammar m) : m Expr := do
  let token ← Reading.current
  pure (.name ⟨token, token.literal⟩)

/-- The token at this place, taken as an integer. -/
def integer (_ : Grammar m) : m Expr := do
  let token ← Reading.current
  match readInteger token.literal with
  | .ok value => pure (.integer token value)
  | .error fault => Reading.abort fault

/-- The token at this place, taken as a truth value. -/
def boolean (_ : Grammar m) : m Expr := do
  let token ← Reading.current
  pure (.boolean token (token.kind == .trueWord))

/-! ## Operations -/

/-- The operator at this place with the operand after it. -/
def unary (grammar : Grammar m) : m Expr := do
  let token ← Reading.current
  Reading.advance
  let operand ← grammar.expression .prefixed
  pure (.unary token token.literal operand)

/-- The operator at this place between `left` and the operand after it. Only
operators that bind more strongly go into that operand, so operators of one
strength group to the left. -/
def binary (grammar : Grammar m) (left : Expr) : m Expr := do
  let token ← Reading.current
  Reading.advance
  let right ← grammar.expression (grammar.precedence token.kind)
  pure (.binary token left token.literal right)

/-- An expression in parentheses, which leave no trace in the tree. -/
def grouped (grammar : Grammar m) : m Expr := do
  Reading.advance
  let inner ← grammar.expression .lowest
  Reading.expect .closeParen
  pure inner

/-! ## Conditionals -/

/-- The block after an `else`, if one is next. -/
def alternative (grammar : Grammar m) : m (Option Block) := do
  let next ← Reading.peek
  if next.kind = .elseWord then
    Reading.advance
    Reading.expect .openBrace
    let block ← grammar.block
    pure (some block)
  else
    pure none

/-- A condition in parentheses, the block for when it holds, and possibly
one for when it does not. -/
def conditional (grammar : Grammar m) : m Expr := do
  let token ← Reading.current
  Reading.expect .openParen
  Reading.advance
  let condition ← grammar.expression .lowest
  Reading.expect .closeParen
  Reading.expect .openBrace
  let consequence ← grammar.block
  let alternative ← grammar.alternative
  pure (.conditional token condition consequence alternative)

/-! ## Functions and calls -/

/-- The next token, which has to be a name. -/
def parameter : m Name := do
  Reading.expect .name
  let token ← Reading.current
  pure ⟨token, token.literal⟩

/-- A comma and the parameter after it, if a comma is next. -/
def nextParameter : m (Option Name) := do
  let next ← Reading.peek
  if next.kind = .comma then
    Reading.advance
    let name ← parameter
    pure (some name)
  else
    pure none

/-- The parameters after an opening parenthesis, and the one that closes it. -/
def parameters (_ : Grammar m) : m (List Name) := do
  let next ← Reading.peek
  if next.kind = .closeParen then
    Reading.advance
    pure []
  else
    let first ← parameter
    let rest ← Reading.many nextParameter
    Reading.expect .closeParen
    pure (first :: rest)

/-- Parameters and a body. -/
def function (grammar : Grammar m) : m Expr := do
  let token ← Reading.current
  Reading.expect .openParen
  let parameters ← grammar.parameters
  Reading.expect .openBrace
  let body ← grammar.block
  pure (.function token parameters body)

/-- A comma and the argument after it, if a comma is next. -/
def nextArgument (grammar : Grammar m) : m (Option Expr) := do
  let next ← Reading.peek
  if next.kind = .comma then
    Reading.advance
    Reading.advance
    let argument ← grammar.expression .lowest
    pure (some argument)
  else
    pure none

/-- The arguments after an opening parenthesis, and the one that closes it. -/
def arguments (grammar : Grammar m) : m (List Expr) := do
  let next ← Reading.peek
  if next.kind = .closeParen then
    Reading.advance
    pure []
  else
    Reading.advance
    let first ← grammar.expression .lowest
    let rest ← Reading.many grammar.nextArgument
    Reading.expect .closeParen
    pure (first :: rest)

/-- The function `callee` applied to the arguments in the parentheses that
open at this place. -/
def call (grammar : Grammar m) (callee : Expr) : m Expr := do
  let token ← Reading.current
  let arguments ← grammar.arguments
  pure (.call token callee arguments)

end Grammar

end MonkeyFrontend
