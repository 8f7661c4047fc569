import MonkeyFrontend.Tree

/-!
# Rendering

The canonical text of a tree. Operators are written with parentheses around
each operation, so the text shows how operands were grouped; statements
follow each other without a separator, and blocks are written without
braces.

Names are written by their value and operators by the operator field, but
integers, truth values, and the leading words of functions, bindings and
results are written as the node's token spells them.

## Main results

* `Statement.renderList_append` — the text of two statement lists in a row
  is the text of the first followed by the text of the second.
-/

namespace MonkeyFrontend

mutual

/-- The text of an expression. -/
def Expr.render : Expr → String
  | .name n => n.value
  | .integer token _ => token.literal
  | .boolean token _ => token.literal
  | .unary _ operator operand => "(" ++ operator ++ operand.render ++ ")"
  | .binary _ left operator right =>
    "(" ++ left.render ++ " " ++ operator ++ " " ++ right.render ++ ")"
  | .conditional _ condition consequence none =>
    "if" ++ condition.render ++ " " ++ consequence.render
  | .conditional _ condition consequence (some alternative) =>
    "if" ++ condition.render ++ " " ++ consequence.render ++ "else " ++ alternative.render
  | .function token parameters body =>
    token.literal ++ "(" ++ ", ".intercalate (parameters.map Name.value) ++ ") " ++ body.render
  | .call _ callee arguments =>
    callee.render ++ "(" ++ ", ".intercalate (Expr.renderEach arguments) ++ ")"

/-- The texts of several expressions. -/
def Expr.renderEach : List Expr → List String
  | [] => []
  | first :: rest => first.render :: Expr.renderEach rest

/-- The text of a statement. -/
def Statement.render : Statement → String
  | .binding token bound value =>
    token.literal ++ " " ++ bound.value ++ " = " ++ value.render ++ ";"
  | .result token value => token.literal ++ " " ++ value.render ++ ";"
  | .expression _ value => value.render
  | .block b => b.render

/-- The text of several statements in a row. -/
def Statement.renderList : List Statement → String
  | [] => ""
  | first :: rest => first.render ++ Statement.renderList rest

/-- The text of a block. -/
def Block.render : Block → String
  | ⟨_, statements⟩ => Statement.renderList statements

end

/-- The text of a program. -/
def Program.render (program : Program) : String :=
  Statement.renderList program.statements

theorem Statement.renderList_append (first second : List Statement) :
    Statement.renderList (first ++ second) =
      Statement.renderList first ++ Statement.renderList second := by
  induction first with
  | nil => simp [Statement.renderList]
  | cons head rest ih =>
    rw [List.cons_append, Statement.renderList, ih, Statement.renderList, String.append_assoc]

end MonkeyFrontend
