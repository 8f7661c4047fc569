import MonkeyFrontend.Datum.Sorting
import MonkeyFrontend.Registry.Transcript

/-!
# Summaries

How many entries a registry has, all in all and in each category. A category
can be any datum that can be a key; only categories that are texts can be
printed.
-/

namespace MonkeyFrontend.Registry

/-- Counts of a registry's entries. -/
structure Summary where
  /-- The number of all entries. -/
  total : Nat
  /-- The number of entries in each category, in the order in which the
  categories first come up. -/
  byCategory : Table Nat

namespace Summary

/-- The category of an entry. Entries without one count as unknown. -/
def categoryOf (definition : Datum) : Except Obstacle Datum := do
  let category? ← definition.member? "category"
  (category?.getD (.text "unknown")).asKey

/-- Counts the categories of several entries on top of the counts so far. -/
def count (counts : Table Nat) : List Entry → Except Obstacle (Table Nat)
  | [] => pure counts
  | entry :: rest => do
    let category ← categoryOf entry.value
    count (counts.update category fun soFar => soFar.getD 0 + 1) rest

/-- The summary of a registry's entries. -/
def ofTokens (tokens : Datum) : Except Obstacle Summary := do
  let total ← tokens.size
  let entries ← tokens.entries .values
  let byCategory ← count [] entries
  pure ⟨total, byCategory⟩

/-- A text with as many spaces after it as fill a column. -/
def padRight (width : Nat) (text : String) : String :=
  text ++ String.ofList (List.replicate (width - text.length) ' ')

/-- A text with as many spaces before it as fill a column. -/
def padLeft (width : Nat) (text : String) : String :=
  String.ofList (List.replicate (width - text.length) ' ') ++ text

/-- Says the count of one category. -/
def sayCategory (category : Datum) (count : Nat) : Transcript Unit :=
  match category with
  | .text name => .say ("  " ++ padRight 30 name ++ " " ++ padLeft 3 (toString count))
  | other => .lift (throw (.notPaddable other.shape))

/-- Says the counts of several categories. -/
def sayCategories : Table Nat → Transcript Unit
  | [] => pure ()
  | (category, count) :: rest => do
    sayCategory category count
    sayCategories rest

/-- A line across the page. -/
def rule (c : Char) : String :=
  String.ofList (List.replicate 70 c)

/-- Says a summary, with the categories in rising order. -/
def print (summary : Summary) : Transcript Unit := do
  Transcript.sayAll
    [rule '=', "VALIDATION SUMMARY", rule '=', "", "Total tokens: " ++ toString summary.total, "",
      "By category:"]
  let ordered ← Transcript.lift summary.byCategory.sorted
  sayCategories ordered
  Transcript.say ""

end Summary

end MonkeyFrontend.Registry
