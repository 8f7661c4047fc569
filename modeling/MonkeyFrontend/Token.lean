import MonkeyFrontend.Token.Kind

/-!
# Tokens

A token pairs a kind with the exact source text that it was read from, its
`literal`. Tokens carry no position: two tokens with the same kind and the
same text are equal, wherever they stand.
-/

namespace MonkeyFrontend

/-- A lexical unit of a program. -/
structure Token where
  kind : Kind
  literal : String
deriving DecidableEq, Inhabited

namespace Token

/-- The token that stands for the end of the input. Its text is empty. -/
def endOfInput : Token := ⟨.endOfInput, ""⟩

end Token

end MonkeyFrontend
