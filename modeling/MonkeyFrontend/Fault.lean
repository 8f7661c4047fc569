import MonkeyFrontend.Token
import MonkeyFrontend.Text.Quoted

/-!
# Faults

What can be wrong with a program, one constructor for each cause, and the
wording of each in `Fault.message`.
-/

namespace MonkeyFrontend

/-- A reason why a statement cannot be read. -/
inductive Fault where
  /-- One kind of token was required and another one follows. -/
  | unexpected (expected found : Kind)
  /-- No expression begins with a token of this kind. -/
  | noExpression (found : Kind)
  /-- The text of a number is no numeral. -/
  | notInteger (literal : String)
  /-- A numeral's value does not fit into a signed machine word. -/
  | outOfRange (literal : String)
deriving DecidableEq

/-- How a fault is worded. -/
def Fault.message : Fault → String
  | .unexpected expected found =>
    "expected next token to be " ++ expected.label ++ ", got " ++ found.label ++ " instead"
  | .noExpression found => "no prefix parse function for " ++ found.label ++ " found"
  | .notInteger literal => "could not parse " ++ quoted literal ++ " as integer"
  | .outOfRange literal => "integer literal " ++ literal ++ " out of 64-bit range"

end MonkeyFrontend
