import MonkeyFrontend.Text.Decimal

/-!
# Data

Decoded structured data, as a token registry is handed over: nothing, truth
values, numbers, texts, lists, and maps whose keys are data themselves.
Maps keep the order of their entries.

Numbers are exact. A decimal number stays one even if its value is whole;
`numeric?` gives the value of all numbers on one scale, on which the truth
values count as zero and one.

## Main results

* `Datum.sameKey_self` — every datum that can be a key is the same key as
  itself.
-/

namespace MonkeyFrontend

mutual

/-- A piece of structured data. -/
inductive Datum where
  /-- Nothing. -/
  | null
  /-- A truth value. -/
  | boolean (value : Bool)
  /-- A whole number. -/
  | integer (value : Int)
  /-- A number written with a point. -/
  | decimal (value : Decimal)
  /-- A text. -/
  | text (value : String)
  /-- Data in a row. -/
  | list (items : List Datum)
  /-- Data under keys. -/
  | map (entries : List Entry)

/-- A datum of a map with its key. -/
structure Entry where
  key : Datum
  value : Datum

end

namespace Datum

/-! ## Shapes -/

/-- What a datum is, without its content. -/
inductive Shape where
  | null
  | boolean
  | integer
  | decimal
  | text
  | list
  | map
deriving DecidableEq

/-- The name of a shape in messages. -/
def Shape.label : Shape → String
  | null => "NoneType"
  | boolean => "bool"
  | integer => "int"
  | decimal => "float"
  | text => "str"
  | list => "list"
  | map => "dict"

/-- The shape of a datum. -/
def shape : Datum → Shape
  | null => .null
  | boolean _ => .boolean
  | integer _ => .integer
  | decimal _ => .decimal
  | text _ => .text
  | list _ => .list
  | map _ => .map

/-- Whether a datum is a text. -/
def isText (datum : Datum) : Bool :=
  datum.shape == .text

/-- A map whose keys are texts. -/
def ofFields (fields : List (String × Datum)) : Datum :=
  map (fields.map fun field => ⟨text field.1, field.2⟩)

/-! ## Keys -/

/-- The value of a number or truth value: a whole number, and the number of
its digits that stand after the point. -/
def numeric? : Datum → Option (Int × Nat)
  | boolean value => some (if value then 1 else 0, 0)
  | integer value => some (value, 0)
  | decimal value => some (value.units, value.places)
  | _ => none

/-- Whether two data stand for the same key of a map. Numbers of one value
do, in whatever form they are written; lists and maps are no keys. -/
def sameKey (a b : Datum) : Bool :=
  match a.numeric?, b.numeric? with
  | some (m, p), some (n, q) => m * Int.pow 10 q == n * Int.pow 10 p
  | none, none =>
    match a, b with
    | text s, text t => s == t
    | null, null => true
    | _, _ => false
  | _, _ => false

/-- Whether a datum can be a key. -/
def isKey (datum : Datum) : Bool :=
  match datum with
  | list _ | map _ => false
  | _ => true

theorem sameKey_self {datum : Datum} (h : datum.isKey = true) : datum.sameKey datum = true := by
  cases datum <;> simp_all [sameKey, numeric?, isKey]

theorem sameKey_text (s t : String) : (text s).sameKey (text t) = (s == t) := rfl

end Datum

/-- The datum under a text in a list of entries. -/
def Entry.find? (name : String) : List Entry → Option Datum
  | [] => none
  | entry :: rest =>
    match entry.key with
    | .text key => if key = name then some entry.value else Entry.find? name rest
    | _ => Entry.find? name rest

end MonkeyFrontend
