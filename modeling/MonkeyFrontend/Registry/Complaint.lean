import MonkeyFrontend.Datum.Obstacle
import MonkeyFrontend.Token

/-!
# Complaints

A token registry lists the kinds of token under their labels, and for the
kinds with one spelling also that spelling, the entry's `lexeme`. What the
checks of a registry can find wrong is a `Complaint`, worded by
`Complaint.message`.
-/

namespace MonkeyFrontend.Registry

/-- A token as it is read from the lexeme of an entry. The literal is a
text, or a part of the lexeme where the lexeme is a list. -/
structure Lexed where
  kind : Kind
  literal : Datum

/-- The end of a lexeme. -/
def Lexed.endOfInput : Lexed := ⟨.endOfInput, .text ""⟩

/-- A token read from a text. -/
def Lexed.ofToken (token : Token) : Lexed := ⟨token.kind, .text token.literal⟩

/-- A token as it is shown in messages. -/
def Lexed.render (lexed : Lexed) : String :=
  lexed.kind.label ++ " " ++ lexed.literal.render

/-- Something wrong with a registry. -/
inductive Complaint where
  /-- An entry's name is no text. -/
  | nameNotText (name : Datum)
  /-- A kind has no entry. -/
  | kindMissing (kind : Kind)
  /-- An entry's name is no kind. -/
  | nameUnknown (name : String)
  /-- A keyword is registered under the wrong name. -/
  | keywordMismatch (word name : Datum) (actual : Kind)
  /-- A keyword is not registered. -/
  | keywordMissing (word : String)
  /-- An entry that belongs to no kind has a lexeme. -/
  | lexemeUnowned (lexeme name : Datum)
  /-- A lexeme is read as something else than one token of its kind. -/
  | lexemeMismatch (lexeme : Datum) (kind : Kind) (found : List Lexed)

/-- How a complaint is worded. -/
def Complaint.message : Complaint → String
  | .nameNotText name =>
    "Registry token name " ++ name.render ++ " is a " ++ name.shape.label ++
      ", not a string (quote it)"
  | .kindMissing kind => "TokenKind." ++ kind.label ++ " has no registry entry"
  | .nameUnknown name => "Registry token '" ++ name ++ "' is not a TokenKind member"
  | .keywordMismatch word name actual =>
    "Keyword '" ++ word.plain ++ "' is registered as " ++ name.plain ++ " but lexes as " ++
      actual.label
  | .keywordMissing word => "Keyword '" ++ word ++ "' is missing from the registry"
  | .lexemeUnowned lexeme name =>
    "Lexeme " ++ lexeme.render ++ " belongs to unknown token " ++ name.render
  | .lexemeMismatch lexeme kind found =>
    "Lexeme " ++ lexeme.render ++ " for " ++ kind.label ++ " lexes as [" ++
      ", ".intercalate (found.map Lexed.render) ++ "]"

/-- Texts in rising order. -/
def sortedTexts (texts : List String) : List String :=
  texts.mergeSort fun a b => decide (a ≤ b)

end MonkeyFrontend.Registry
