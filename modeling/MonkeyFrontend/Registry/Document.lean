import MonkeyFrontend.Datum

/-!
# The schema of registries

A registry has a version and a map of tokens, and nothing else; the version
is two numbers with a point between them; a token's name is written in
capital letters and underscores; its definition has a category, possibly a
description, and a lexeme exactly if its category is one whose members have
one spelling.

The schema that registries are held against says so in a document:
constraints that are put together from a few kinds of smaller ones
(`Constraint`). What a document says is read off it constraint by constraint
(`Constraint.Admits`). A constraint that is about maps admits everything
else, and one about what is under a name admits maps without the name. That
is why a document says separately that a datum is a map and that a name is
there.
-/

namespace MonkeyFrontend.Registry

/-! ## Patterns -/

/-- The two forms of text that a registry prescribes. -/
inductive Pattern where
  | version
  | name
deriving DecidableEq

namespace Pattern

/-- The regular expression of a pattern. -/
def source : Pattern → String
  | version => "^[0-9]+\\.[0-9]+$"
  | name => "^[A-Z][A-Z_]*$"

/-- A text without its last character, if that is a line feed. -/
def withoutNewline (text : List Char) : List Char :=
  if text.getLast? = some '\n' then text.dropLast else text

/-- Whether a text is two numbers with a point between them. -/
def isVersion (text : List Char) : Bool :=
  let whole := text.takeWhile Char.isDigit
  match text.dropWhile Char.isDigit with
  | '.' :: fraction => !whole.isEmpty && !fraction.isEmpty && fraction.all Char.isDigit
  | _ => false

/-- Whether a text is capital letters and underscores, a letter first. -/
def isName : List Char → Bool
  | [] => false
  | first :: rest => first.isUpper && rest.all fun c => c.isUpper || c == '_'

/-- Whether a text has the form of a pattern. One line feed after it does no harm. -/
def accepts (pattern : Pattern) (text : String) : Bool :=
  let body := withoutNewline text.toList
  match pattern with
  | version => isVersion body
  | name => isName body

end Pattern

/-! ## What is under a name -/

/-- A datum is a text, and one of these. -/
def IsOneOf (texts : List String) (datum : Datum) : Prop :=
  ∃ text ∈ texts, datum = .text text

/-- There is something under a name, and it has a property. -/
def Has (name : String) (good : Datum → Prop) (fields : List Entry) : Prop :=
  ∃ datum, Entry.find? name fields = some datum ∧ good datum

/-- If there is something under a name, it has a property. -/
def MayHave (name : String) (good : Datum → Prop) (fields : List Entry) : Prop :=
  ∀ datum, Entry.find? name fields = some datum → good datum

/-- There is something under a name. -/
def HasSome (name : String) (fields : List Entry) : Prop :=
  Has name (fun _ => True) fields

/-! ## Constraints -/

/-- A constraint on data, as schemas are made of. -/
inductive Constraint where
  | anything
  | both (first second : Constraint)
  | except (excluded : Constraint)
  /-- The first one decides which of the others is to hold. -/
  | cases (test yes no : Constraint)
  | hasShape (shape : Datum.Shape)
  | oneOf (texts : List String)
  | matching (pattern : Pattern)
  | minLength (least : Nat)
  | minEntries (least : Nat)
  | required (name : String)
  /-- About what is under a name. -/
  | under (name : String) (constraint : Constraint)
  /-- About what is under keys other than some names. -/
  | elsewhere (names : List String) (constraint : Constraint)
  | keys (constraint : Constraint)

namespace Constraint

/-- A datum keeps a constraint. -/
@[simp]
def Admits : Constraint → Datum → Prop
  | anything, _ => True
  | both first second, datum => first.Admits datum ∧ second.Admits datum
  | except excluded, datum => ¬ excluded.Admits datum
  | cases test yes no, datum =>
    (test.Admits datum → yes.Admits datum) ∧ (¬ test.Admits datum → no.Admits datum)
  | hasShape shape, datum => datum.shape = shape
  | oneOf texts, datum => IsOneOf texts datum
  | matching pattern, datum => ∀ text, datum = .text text → pattern.accepts text = true
  | minLength least, datum => ∀ text, datum = .text text → least ≤ text.length
  | minEntries least, datum => ∀ fields, datum = .map fields → least ≤ fields.length
  | required name, datum => ∀ fields, datum = .map fields → HasSome name fields
  | under name constraint, datum =>
    ∀ fields, datum = .map fields → MayHave name constraint.Admits fields
  | elsewhere names constraint, datum =>
    ∀ fields, datum = .map fields →
      ∀ field ∈ fields, ¬ IsOneOf names field.key → constraint.Admits field.value
  | keys constraint, datum =>
    ∀ fields, datum = .map fields → ∀ field ∈ fields, constraint.Admits field.key

/-- Several constraints together. -/
def all (constraints : List Constraint) : Constraint :=
  constraints.foldr both anything

/-- No datum keeps this constraint. -/
def nothing : Constraint := except anything

end Constraint

/-! ## The documents -/

open Constraint in
/-- The schema of the definition of a token. -/
def definitionDocument : Constraint :=
  all
    [hasShape .map,
      required "category",
      elsewhere ["category", "lexeme", "description"] nothing,
      under "category" (oneOf ["special", "literal", "operator", "delimiter", "keyword"]),
      under "lexeme" (all [hasShape .text, minLength 1]),
      under "description" (hasShape .text),
      cases (under "category" (oneOf ["operator", "delimiter", "keyword"]))
        (required "lexeme") (except (required "lexeme"))]

open Constraint in
/-- The schema of registries. -/
def registryDocument : Constraint :=
  all
    [hasShape .map,
      required "version",
      required "tokens",
      elsewhere ["version", "tokens"] nothing,
      under "version" (all [hasShape .text, matching .version]),
      under "tokens"
        (all
          [hasShape .map,
            minEntries 1,
            keys (matching .name),
            elsewhere [] definitionDocument])]

end MonkeyFrontend.Registry
