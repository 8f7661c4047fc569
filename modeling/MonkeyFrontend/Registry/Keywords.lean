import MonkeyFrontend.Datum.Sorting
import MonkeyFrontend.Registry.Complaint

/-!
# Keywords

The second check of a registry: its keyword entries and the reserved words
have to be the same table. An entry is a keyword entry if its category says
so, whatever its name. Where several have one lexeme, the last one counts.

A word that is not reserved has no kind of its own, and an entry under
nothing as its name agrees with that.
-/

namespace MonkeyFrontend.Registry

/-- Whether an entry's category is the one of keywords. -/
def isKeywordEntry (definition : Datum) : Except Obstacle Bool := do
  match ← definition.member? "category" with
  | some (.text category) => pure (category == "keyword")
  | _ => pure false

/-- The lexeme that a keyword entry must have. -/
def keywordLexeme (definition : Datum) : Except Obstacle Datum := do
  match ← definition.member? "lexeme" with
  | some lexeme => lexeme.asKey
  | none => throw (.missingKey (.text "lexeme"))

/-- Adds the keyword entries to a table from lexemes to names. -/
def registerKeywords (table : Table Datum) : List Entry → Except Obstacle (Table Datum)
  | [] => pure table
  | entry :: rest => do
    if ← isKeywordEntry entry.value then
      let lexeme ← keywordLexeme entry.value
      registerKeywords (table.put lexeme entry.key) rest
    else
      registerKeywords table rest

/-- The kind of a reserved word. -/
def reservedKind? : Datum → Option Kind
  | .text word => Kind.keywords.lookup word
  | _ => none

/-- The complaint about a registered keyword, if it is not right. -/
def keywordComplaint? (word name : Datum) : Option Complaint :=
  match reservedKind? word with
  | some kind =>
    if name.sameKey (.text kind.label) then none else some (.keywordMismatch word name kind)
  | none => if name.sameKey .null then none else some (.keywordMismatch word name .name)

/-- The reserved words that are not registered, in rising order. -/
def missingKeywords (table : Table Datum) : List String :=
  sortedTexts ((Kind.keywords.map Prod.fst).filter fun word => (table.get? (.text word)).isNone)

/-- Checks the keyword entries of a registry. -/
def checkKeywords (tokens : Datum) : Except Obstacle (List Complaint) := do
  let entries ← tokens.entries .entries
  let table ← registerKeywords [] entries
  let ordered ← table.sorted
  pure (ordered.filterMap (fun (word, name) => keywordComplaint? word name) ++
    (missingKeywords table).map .keywordMissing)

end MonkeyFrontend.Registry
