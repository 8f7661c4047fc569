import MonkeyFrontend.Datum.Render

/-!
# Obstacles

A check that takes data for something they are not cannot go on. An
`Obstacle` says what it tried; its wording is `Obstacle.message`. The
functions of this module are the ways to use a datum that can meet one.
-/

namespace MonkeyFrontend

/-- What a datum is asked for that only a map has. -/
inductive MapPart where
  /-- Its entries. -/
  | entries
  /-- The data of its entries. -/
  | values
  /-- The datum under a key. -/
  | member
deriving DecidableEq

/-- The name of a part in messages. -/
def MapPart.label : MapPart → String
  | entries => "items"
  | values => "values"
  | member => "get"

/-- A reason why a datum cannot be used as asked. -/
inductive Obstacle where
  /-- Something other than a map was asked for a part of a map. -/
  | notMap (found : Datum.Shape) (part : MapPart)
  /-- A map has no entry under a key that it must have. -/
  | missingKey (key : Datum)
  /-- Something without parts was to be gone through. -/
  | notIterable (found : Datum.Shape)
  /-- Something without a length was to be measured. -/
  | notMeasurable (found : Datum.Shape)
  /-- Something was to be a key that cannot be one. -/
  | notKey (found : Datum.Shape)
  /-- A map was to be cut into parts. -/
  | notDivisible
  /-- Two data were to be compared that have no order. -/
  | notComparable (relation : String) (left right : Datum.Shape)
  /-- Something other than a text was to fill a column. -/
  | notPaddable (found : Datum.Shape)

/-- How an obstacle is worded. -/
def Obstacle.message : Obstacle → String
  | .notMap found part =>
    "'" ++ found.label ++ "' object has no attribute '" ++ part.label ++ "'"
  | .missingKey key => key.render
  | .notIterable found => "'" ++ found.label ++ "' object is not iterable"
  | .notMeasurable found => "object of type '" ++ found.label ++ "' has no len()"
  | .notKey found => "unhashable type: '" ++ found.label ++ "'"
  | .notDivisible => "unhashable type: 'slice'"
  | .notComparable relation left right =>
    "'" ++ relation ++ "' not supported between instances of '" ++ left.label ++ "' and '" ++
      right.label ++ "'"
  | .notPaddable .null => "unsupported format string passed to NoneType.__format__"
  | .notPaddable found => "Unknown format code 's' for object of type '" ++ found.label ++ "'"

namespace Datum

/-- The entries of a map. Anything else has none, for lack of the given part. -/
def entries (datum : Datum) (part : MapPart) : Except Obstacle (List Entry) :=
  match datum with
  | map entries => .ok entries
  | other => .error (.notMap other.shape part)

/-- The datum under a text in a map. -/
def member? (datum : Datum) (name : String) : Except Obstacle (Option Datum) := do
  let entries ← datum.entries .member
  pure (Entry.find? name entries)

/-- The datum that a map must have under a key. -/
def under (key : Datum) : List Entry → Except Obstacle Datum
  | [] => .error (.missingKey key)
  | entry :: rest => if entry.key.sameKey key then .ok entry.value else under key rest

/-- The names that a datum lists: the keys of a map, the items of a list,
or the characters of a text. -/
def names : Datum → Except Obstacle (List Datum)
  | map entries => .ok (entries.map Entry.key)
  | list items => .ok items
  | text value => .ok (value.toList.map fun c => text c.toString)
  | other => .error (.notIterable other.shape)

/-- The number of entries, items or characters. -/
def size : Datum → Except Obstacle Nat
  | map entries => .ok entries.length
  | list items => .ok items.length
  | text value => .ok value.length
  | other => .error (.notMeasurable other.shape)

/-- The datum itself, which must be one that can be a key. -/
def asKey (datum : Datum) : Except Obstacle Datum :=
  if datum.isKey then .ok datum else .error (.notKey datum.shape)

theorem asKey_eq_ok_iff {datum key : Datum} :
    datum.asKey = .ok key ↔ datum = key ∧ key.isKey = true := by
  unfold asKey
  split
  next h =>
    rw [Except.ok.injEq]
    exact ⟨fun heq => ⟨heq, heq ▸ h⟩, And.left⟩
  next h =>
    constructor
    · intro herror
      cases herror
    · rintro ⟨rfl, hkey⟩
      exact absurd hkey h

end Datum

end MonkeyFrontend
