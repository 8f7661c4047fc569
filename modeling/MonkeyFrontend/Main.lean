import MonkeyFrontend.Registry.Finder
import MonkeyFrontend.Registry.Standard
import MonkeyFrontend.Registry.Validation

/-!
# Command line

Validates the language's own token registry: prints the transcript and ends
with its exit code.
-/

open MonkeyFrontend

/-- The validation of the language's own registry against its schema. -/
def MonkeyFrontend.Registry.standardRequest : Registry.Request :=
  { tokensPath := "tokens.yaml"
    schemaPath := "schema.json"
    tokens := .content Registry.standard
    schema := .content finder
    checksSchema := true }

def main : IO UInt32 := do
  let transcript := Registry.validate Registry.standardRequest
  for line in transcript.lines do
    IO.println line
  match transcript.result with
  | .ok code => pure code.toUInt32
  | .error obstacle =>
    IO.eprintln obstacle.message
    pure 1
