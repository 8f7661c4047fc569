import MonkeyFrontend.Grammar.Expression

/-!
# Operator tables

Which tokens begin an expression, which extend one, and how strongly they
bind: three tables over the kinds of token. The language's own tables are
`Operators.language`; other tables make other dialects, and the tables can
be changed one kind at a time. The rules in the tables may be any readers.

An expression is read by precedence climbing. The table of beginnings
reads a first expression; then, as long as the next token binds more
strongly than was asked for, the table of extensions makes it into a larger
one. A token can extend an expression only if it has both a strength above
`lowest` and a rule; with one of the two missing it ends the expression, and
a semicolon ends it whatever the tables say.

`Operators.expression` is where the circle of constructs closes. Its bound
counts expressions inside expressions, each of which starts at least one
token later than the one around it.
-/

namespace MonkeyFrontend

/-- Reads an expression from its first token on. -/
abbrev PrefixRule (m : Type → Type := Parser) := Grammar m → m Expr

/-- Extends an expression from the token after it on. -/
abbrev InfixRule (m : Type → Type := Parser) := Grammar m → Expr → m Expr

/-- What tokens of each kind do in expressions. -/
structure Operators (m : Type → Type := Parser) where
  /-- How a token begins an expression. -/
  prefixRule? : Kind → Option (PrefixRule m)
  /-- How a token extends an expression. -/
  infixRule? : Kind → Option (InfixRule m)
  /-- How strongly a token binds to the expression before it. -/
  precedence? : Kind → Option Precedence

namespace Operators

variable {m : Type → Type} [Monad m] [Reading m]

/-! ## The language's tables -/

/-- The tokens that begin expressions. -/
def standardPrefixRule? : Kind → Option (PrefixRule m)
  | .name => some Grammar.name
  | .number => some Grammar.integer
  | .trueWord | .falseWord => some Grammar.boolean
  | .bang | .minus => some Grammar.unary
  | .openParen => some Grammar.grouped
  | .ifWord => some Grammar.conditional
  | .fnWord => some Grammar.function
  | _ => none

/-- The tokens that extend expressions. -/
def standardInfixRule? : Kind → Option (InfixRule m)
  | .plus | .minus | .slash | .asterisk | .equal | .notEqual | .less | .greater =>
    some Grammar.binary
  | .openParen => some Grammar.call
  | _ => none

/-- The strengths of the tokens that extend expressions. -/
def standardPrecedence? : Kind → Option Precedence
  | .equal | .notEqual => some .equals
  | .less | .greater => some .lessGreater
  | .plus | .minus => some .sum
  | .slash | .asterisk => some .product
  | .openParen => some .call
  | _ => none

/-- The tables of the language, for any kind of reader. -/
def language : Operators m :=
  ⟨standardPrefixRule?, standardInfixRule?, standardPrecedence?⟩

/-- The tables of the language, for parsers. -/
abbrev standard : Operators := language

/-! ## Changing the tables -/

/-- A table with a new entry for one kind. -/
def update {α : Type} (table : Kind → Option α) (kind : Kind) (entry : Option α) :
    Kind → Option α :=
  fun other => if other = kind then entry else table other

theorem update_of_ne {α : Type} (table : Kind → Option α) {kind other : Kind}
    (entry : Option α) (h : other ≠ kind) : update table kind entry other = table other :=
  if_neg h

/-- Lets tokens of a kind begin expressions. -/
def setPrefixRule (ops : Operators m) (kind : Kind) (rule : PrefixRule m) : Operators m :=
  { ops with prefixRule? := update ops.prefixRule? kind (some rule) }

/-- Lets tokens of a kind extend expressions. -/
def setInfixRule (ops : Operators m) (kind : Kind) (rule : InfixRule m) : Operators m :=
  { ops with infixRule? := update ops.infixRule? kind (some rule) }

/-- Gives tokens of a kind a strength, or takes it away. -/
def setPrecedence (ops : Operators m) (kind : Kind) (precedence : Option Precedence) : Operators m :=
  { ops with precedence? := update ops.precedence? kind precedence }

/-! ## Reading expressions -/

/-- The strength of a kind. Kinds without an entry have the lowest. -/
def precedence (ops : Operators m) (kind : Kind) : Precedence :=
  (ops.precedence? kind).getD .lowest

/-- One step of an expression's growth: what the next token makes of `left`,
or nothing if it ends the expression. -/
def extend (ops : Operators m) (grammar : Grammar m) (weakest : Precedence) (left : Expr) :
    m (Option Expr) := do
  let next ← Reading.peek
  if next.kind = .semicolon ∨ ¬ weakest < grammar.precedence next.kind then
    pure none
  else
    match ops.infixRule? next.kind with
    | none => pure none
    | some rule =>
      Reading.advance
      let extended ← rule grammar left
      pure (some extended)

/-- An expression whose operators all bind more strongly than `weakest`, with
the expressions inside it read by the given grammar. -/
def expressionIn (ops : Operators m) (grammar : Grammar m) (weakest : Precedence) : m Expr := do
  let first ← Reading.current
  match ops.prefixRule? first.kind with
  | none => Reading.abort (.noExpression first.kind)
  | some rule =>
    let left ← rule grammar
    Reading.grow (ops.extend grammar weakest) left

/-- An expression with at most `bound` expressions around each other. -/
def expressionWithin (ops : Operators m) : Nat → Precedence → m Expr
  | 0, _ => Reading.fail
  | bound + 1, weakest =>
    ops.expressionIn ⟨ops.expressionWithin bound, ops.precedence⟩ weakest

/-- An expression whose operators all bind more strongly than `weakest`. -/
def expression (ops : Operators m) (weakest : Precedence) : m Expr :=
  Reading.bounded fun bound => ops.expressionWithin bound weakest

/-- The grammar of the tables' dialect. -/
def grammar (ops : Operators m) : Grammar m :=
  ⟨ops.expression, ops.precedence⟩

end Operators

end MonkeyFrontend
