import MonkeyFrontend.Registry.Items

/-!
# Lexemes of entries

The third check of a registry: an entry's lexeme has to be read as exactly
one token, of the entry's own kind and with the lexeme as its literal.
Entries without a lexeme are passed over.
-/

namespace MonkeyFrontend.Registry

/-- The tokens of a lexeme, with the end of the input after them. -/
def lexemeTokens : Datum → Except Obstacle (List Lexed)
  | .text lexeme => pure ((Token.ofSource lexeme).map Lexed.ofToken ++ [.endOfInput])
  | .list items => (Row.ofList items).read
  | .map entries => (Row.ofMap entries).read
  | other => throw (.notMeasurable other.shape)

/-- Whether the tokens of a lexeme are one token of the kind, with the whole
lexeme as its literal. A part of a list is the whole of it if it is as long. -/
def fitsKind (kind : Kind) (lexeme : Datum) (found : List Lexed) : Bool :=
  match lexeme, found with
  | .text lexeme, [⟨actual, .text literal⟩, ⟨.endOfInput, _⟩] =>
    actual == kind && literal == lexeme
  | .list items, [⟨actual, .list literal⟩, ⟨.endOfInput, _⟩] =>
    actual == kind && literal.length == items.length
  | _, _ => false

/-- The complaint about the lexeme of an entry of the given name, if it is
not right. -/
def lexemeComplaint? (name lexeme : Datum) : Except Obstacle (Option Complaint) :=
  match name with
  | .text label =>
    match Kind.ofLabel? label with
    | some kind => do
      let found ← lexemeTokens lexeme
      pure (if fitsKind kind lexeme found then none
        else some (.lexemeMismatch lexeme kind found))
    | none => pure (some (.lexemeUnowned lexeme name))
  | _ => pure (some (.lexemeUnowned lexeme name))

/-- The complaint about an entry's lexeme, if it has one that is not right. -/
def entryComplaint? (entry : Entry) : Except Obstacle (Option Complaint) := do
  match ← entry.value.member? "lexeme" with
  | none | some .null => pure none
  | some lexeme => lexemeComplaint? entry.key lexeme

/-- The complaints about the lexemes of several entries. -/
def lexemeComplaints : List Entry → Except Obstacle (List Complaint)
  | [] => pure []
  | entry :: rest => do
    let complaint? ← entryComplaint? entry
    let others ← lexemeComplaints rest
    pure (complaint?.toList ++ others)

/-- Checks the lexemes of a registry's entries. -/
def checkLexemes (tokens : Datum) : Except Obstacle (List Complaint) := do
  let entries ← tokens.entries .entries
  lexemeComplaints entries

end MonkeyFrontend.Registry
