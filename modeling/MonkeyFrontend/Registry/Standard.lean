import MonkeyFrontend.Datum
import MonkeyFrontend.Token.Kind

/-!
# The registry of the language

The registry that documents the language's own token kinds: one entry for
each, with its category, the lexeme of those that have one spelling, and a
description of those that have none.
-/

namespace MonkeyFrontend.Registry

/-- The name of a category in a registry. -/
def categoryName : Kind.Category → String
  | .special => "special"
  | .literal => "literal"
  | .operator => "operator"
  | .delimiter => "delimiter"
  | .keyword => "keyword"

/-- What a kind without a spelling of its own stands for. -/
def description? : Kind → Option String
  | .illegal => some "Any character the lexer does not recognize."
  | .endOfInput => some "End of input; returned on every call once reached."
  | .name => some "ASCII letters and underscores, not a keyword."
  | .number => some "Digits with an optional '.digits' tail, kept as text."
  | _ => none

/-- The definition of a kind. -/
def definitionOf (kind : Kind) : Datum :=
  .ofFields (("category", .text (categoryName kind.category)) ::
    ((kind.spelling?.map fun text => ("lexeme", Datum.text text)).toList ++
      ((description? kind).map fun text => ("description", Datum.text text)).toList))

/-- The entries of all kinds. -/
def standardTokens : Datum :=
  .ofFields (Kind.all.map fun kind => (kind.label, definitionOf kind))

/-- The registry of the language's token kinds. -/
def standard : Datum :=
  .ofFields [("version", .text "1.0"), ("tokens", standardTokens)]

end MonkeyFrontend.Registry
