import MonkeyFrontend.Datum.Order
import MonkeyFrontend.Registry.Schema

/-!
# A finder of violations

One way to hold registries against their schema. `violations` finds every
place where a registry departs from its document, in a fixed order. Only one
of them is reported, the most relevant one: of the places closest to the
root the one whose path comes last, and there a violation that concerns what
is present before one that concerns what is missing, left over, or empty.

Paths are compared key by key, and the first keys that differ decide. If
these are a text and a number, say, they have no order, and then there is no
most relevant violation.
-/

namespace MonkeyFrontend.Registry

/-! ## Violations -/

/-- A way to depart from the shape of a registry. -/
inductive Defect where
  /-- Something else stands where a map belongs. -/
  | notMap (value : Datum)
  /-- Something else stands where a text belongs. -/
  | notText (value : Datum)
  /-- A text does not have its form. -/
  | mismatch (text : String) (pattern : Pattern)
  /-- Something else stands where a category belongs. -/
  | notCategory (value : Datum)
  /-- A definition has a lexeme that may have none. -/
  | lexemeForbidden (definition : Datum)
  /-- A definition has no lexeme that must have one. -/
  | lexemeMissing
  /-- Something that must be there is missing. -/
  | missing (property : String)
  /-- Something is there that may not be. -/
  | extra (keys : List Datum)
  /-- Something is empty that may not be. -/
  | empty (value : Datum)

namespace Defect

/-- Whether a defect gives way to others at the same place: it concerns
what is missing, left over, or empty. A missing lexeme does not give way. -/
def isMinor : Defect → Bool
  | missing _ | extra _ | empty _ => true
  | _ => false

/-- The names of the categories. -/
def categories : List String :=
  ["special", "literal", "operator", "delimiter", "keyword"]

/-- The keys that are too many, in rising order. -/
def extraText (keys : List Datum) : String :=
  let ordered := keys.mergeSort fun a b => decide (a.plain ≤ b.plain)
  ", ".intercalate (ordered.map Datum.render) ++
    if keys.length = 1 then " was unexpected" else " were unexpected"

/-- How a defect is worded. -/
def message : Defect → String
  | notMap value => value.render ++ " is not of type 'object'"
  | notText value => value.render ++ " is not of type 'string'"
  | mismatch text pattern => quoted text ++ " does not match " ++ quoted pattern.source
  | notCategory value =>
    value.render ++ " is not one of " ++ (Datum.list (categories.map Datum.text)).render
  | lexemeForbidden definition =>
    definition.render ++ " should not be valid under " ++
      (Datum.ofFields [("required", .list [.text "lexeme"])]).render
  | lexemeMissing => "'lexeme' is a required property"
  | missing property => quoted property ++ " is a required property"
  | extra keys => "Additional properties are not allowed (" ++ extraText keys ++ ")"
  | empty value => value.render ++ " should be non-empty"

end Defect

/-- A defect and the keys that lead to its place. -/
structure Violation where
  path : List Datum
  defect : Defect

namespace Violation

/-! ## The most relevant violation -/

/-- Whether two paths lead to the same place. -/
def samePath : List Datum → List Datum → Bool
  | [], [] => true
  | key :: rest, other :: others => key.sameKey other && samePath rest others
  | _, _ => false

/-- Whether the first path comes after the second: it has the greater key where they first
differ. -/
def pathAfter : List Datum → List Datum → Except Obstacle Bool
  | [], _ => .ok false
  | _ :: _, [] => .ok true
  | key :: rest, other :: others =>
    if key.sameKey other then pathAfter rest others
    else key.after other

/-- Whether the first violation is to be reported rather than the second,
which was found before it. -/
def outranks (new old : Violation) : Except Obstacle Bool :=
  if new.path.length ≠ old.path.length then
    .ok (decide (new.path.length < old.path.length))
  else if samePath new.path old.path then
    .ok (old.defect.isMinor && !new.defect.isMinor)
  else
    pathAfter new.path old.path

/-- The violation that is reported out of one and those that were found after it. -/
def mostRelevant (first : Violation) : List Violation → Except Obstacle Violation
  | [] => .ok first
  | next :: rest => do
    if ← next.outranks first then mostRelevant next rest else mostRelevant first rest

/-- What is said about a datum with these violations. -/
def judgment : List Violation → Except Obstacle Judgment
  | [] => .ok .accepted
  | first :: rest => do
    let violation ← mostRelevant first rest
    pure (.rejected violation.defect.message violation.path)

end Violation

/-! ## Finding violations -/

/-- The violation, at the given place, of keys other than the allowed ones. -/
def extraViolation (path : List Datum) (allowed : List String) (entries : List Entry) :
    List Violation :=
  let extra := (entries.map Entry.key).filter fun key =>
    match key with
    | .text name => !allowed.contains name
    | _ => true
  if extra.isEmpty then [] else [⟨path, .extra extra⟩]

/-- The violation, at the given place, of something other than a text. -/
def textViolation (path : List Datum) : Datum → List Violation
  | .text _ => []
  | value => [⟨path, .notText value⟩]

/-- The violations of a version. -/
def versionViolations (version : Datum) : List Violation :=
  match version with
  | .text value =>
    if Pattern.version.accepts value then []
    else [⟨[.text "version"], .mismatch value .version⟩]
  | value => textViolation [.text "version"] value

/-- Whether the members of a category have one spelling. -/
def hasSpelling : Datum → Bool
  | .text category => ["operator", "delimiter", "keyword"].contains category
  | _ => false

/-- The violation of the rule that a definition has a lexeme exactly if its
category is one whose members have one spelling. A definition without a
category must have one too. -/
def lexemeRuleViolations (path : List Datum) (entries : List Entry) : List Violation :=
  let lexeme? := Entry.find? "lexeme" entries
  let required := ((Entry.find? "category" entries).map hasSpelling).getD true
  if required then
    if lexeme?.isNone then [⟨path, .lexemeMissing⟩] else []
  else
    if lexeme?.isSome then [⟨path, .lexemeForbidden (.map entries)⟩] else []

/-- The violations of a category. -/
def categoryViolations (path : List Datum) : Datum → List Violation
  | .text category =>
    if Defect.categories.contains category then [] else [⟨path, .notCategory (.text category)⟩]
  | value => [⟨path, .notCategory value⟩]

/-- The violations of a lexeme. -/
def lexemeViolations (path : List Datum) : Datum → List Violation
  | .text "" => [⟨path, .empty (.text "")⟩]
  | value => textViolation path value

/-- The violations of the definition of one token. -/
def definitionViolations (name definition : Datum) : List Violation :=
  let path := [.text "tokens", name]
  match definition with
  | .map entries =>
    (if (Entry.find? "category" entries).isNone then [⟨path, .missing "category"⟩] else []) ++
      extraViolation path ["category", "lexeme", "description"] entries ++
      lexemeRuleViolations path entries ++
      ((Entry.find? "category" entries).map
        (categoryViolations (path ++ [.text "category"]))).getD [] ++
      ((Entry.find? "lexeme" entries).map
        (lexemeViolations (path ++ [.text "lexeme"]))).getD [] ++
      ((Entry.find? "description" entries).map
        (textViolation (path ++ [.text "description"]))).getD []
  | value => [⟨path, .notMap value⟩]

/-- The violation of a token's name. Names that are no texts have no form. -/
def nameViolations : Datum → List Violation
  | .text name =>
    if Pattern.name.accepts name then [] else [⟨[.text "tokens"], .mismatch name .name⟩]
  | _ => []

/-- The violations of the map of tokens. -/
def tokensViolations (tokens : Datum) : List Violation :=
  let path := [.text "tokens"]
  match tokens with
  | .map entries =>
    (if entries.isEmpty then [⟨path, .empty tokens⟩] else []) ++
      entries.flatMap (fun entry => nameViolations entry.key) ++
      entries.flatMap (fun entry => definitionViolations entry.key entry.value)
  | value => [⟨path, .notMap value⟩]

/-- The violation of the rule that something must be there. -/
def missingViolation (property : String) (entries : List Entry) : List Violation :=
  if (Entry.find? property entries).isNone then [⟨[], .missing property⟩] else []

/-- The violations of a whole registry. -/
def violations : Datum → List Violation
  | .map entries =>
    missingViolation "version" entries ++
      missingViolation "tokens" entries ++
      extraViolation [] ["version", "tokens"] entries ++
      ((Entry.find? "version" entries).map versionViolations).getD [] ++
      ((Entry.find? "tokens" entries).map tokensViolations).getD []
  | value => [⟨[], .notMap value⟩]

/-- The schema of registries, by finding violations. -/
def finder : Schema :=
  ⟨fun registry => Violation.judgment (violations registry)⟩

end MonkeyFrontend.Registry
