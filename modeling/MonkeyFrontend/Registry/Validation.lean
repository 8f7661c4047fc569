import MonkeyFrontend.Registry.Keywords
import MonkeyFrontend.Registry.Lexemes
import MonkeyFrontend.Registry.Names
import MonkeyFrontend.Registry.Schema
import MonkeyFrontend.Registry.Summary

/-!
# Validation

The whole validation of a registry as a transcript: load it and its schema,
run the checks one after the other, report what they found, summarise the
registry, and end with an exit code, which is zero exactly if nothing was
found.

Files are given by what loading them comes to. An obstacle in one of the
checks ends the validation where it stands.
-/

namespace MonkeyFrontend.Registry

/-- What loading a file comes to. -/
inductive Loaded (α : Type) where
  /-- There is no such file. -/
  | missing
  /-- The file cannot be decoded, and why. -/
  | malformed (cause : String)
  /-- The file was decoded. -/
  | content (value : α)

/-- What a validation starts from. -/
structure Request where
  /-- Where the registry is. -/
  tokensPath : String
  /-- Where its schema is. -/
  schemaPath : String
  /-- The registry. -/
  tokens : Loaded Datum
  /-- Its schema. -/
  schema : Loaded Schema
  /-- Whether registries are held against their schema at all. -/
  checksSchema : Bool

open Transcript

/-- Says that a check found nothing, if it did. -/
def sayPassed (line : String) (found : List String) : Transcript Unit :=
  if found.isEmpty then say ("✓ " ++ line) else pure ()

/-- Runs one check between its two lines. -/
def runCheck (before after : String) (check : Except Obstacle (List Complaint)) :
    Transcript (List String) := do
  say before
  let complaints ← lift check
  let found := complaints.map Complaint.message
  sayPassed after found
  pure found

/-- Holds a registry against its schema, and says so if that is done. -/
def runSchema (request : Request) (registry : Datum) (schema : Schema) :
    Transcript (List String) := do
  if request.checksSchema then
    say "Validating against JSON schema..."
  let found ← lift (schema.checkIf request.checksSchema registry)
  if request.checksSchema then
    sayPassed "Schema validation passed" found
  pure found

/-- The map of tokens of a registry. Without one there are no tokens. -/
def tokensOf (registry : Datum) : Except Obstacle Datum := do
  let tokens? ← registry.member? "tokens"
  pure (tokens?.getD (.map []))

/-- Runs all checks of a registry, and gives what they found. -/
def runChecks (request : Request) (registry : Datum) (schema : Schema) :
    Transcript (Datum × List String) := do
  let departures ← runSchema request registry schema
  let tokens ← lift (tokensOf registry)
  let names ← runCheck "Checking token kinds against TokenKind..."
    "Every TokenKind is registered" (checkNames tokens)
  let keywords ← runCheck "Checking keywords against the lexer keyword table..."
    "Keyword table matches" (checkKeywords tokens)
  let lexemes ← runCheck "Lexing every fixed lexeme..."
    "All lexemes lex to their registered kind" (checkLexemes tokens)
  say ""
  pure (tokens, departures ++ names ++ keywords ++ lexemes)

/-- Says what was found, if anything. -/
def sayFound (found : List String) : Transcript Unit :=
  if found.isEmpty then pure ()
  else sayAll ("ERRORS:" :: found.map ("  ✗ " ++ ·) ++ [""])

/-- Says the verdict, and gives the exit code for it. -/
def conclude (found : List String) : Transcript Nat := do
  if found.isEmpty then
    say "Validation PASSED."
    pure 0
  else
    say "Validation FAILED with errors."
    pure 1

/-- Validates a registry that was loaded, with its schema. -/
def validateLoaded (request : Request) (registry : Datum) (schema : Schema) :
    Transcript Nat := do
  say ""
  let (tokens, found) ← runChecks request registry schema
  sayFound found
  let summary ← lift (Summary.ofTokens tokens)
  summary.print
  conclude found

/-- Goes on with the content of a file, or says why there is none. -/
def withContent {α : Type} (format path : String) (loaded : Loaded α)
    (next : α → Transcript Nat) : Transcript Nat :=
  match loaded with
  | .missing => do
    say ("ERROR: File not found: " ++ path)
    pure 1
  | .malformed cause => do
    say ("ERROR: Invalid " ++ format ++ " in " ++ path ++ ": " ++ cause)
    pure 1
  | .content value => next value

/-- Validates a registry. -/
def validate (request : Request) : Transcript Nat := do
  sayAll ["Monkey Token Registry Validator", Summary.rule '-', "",
    "Loading tokens from: " ++ request.tokensPath]
  withContent "YAML" request.tokensPath request.tokens fun registry => do
    say ("Loading schema from: " ++ request.schemaPath)
    withContent "JSON" request.schemaPath request.schema fun schema =>
      validateLoaded request registry schema

end MonkeyFrontend.Registry
