import MonkeyFrontend.Datum

/-!
# Tables

Values under data as keys, in the order in which the keys first came up. A
key that comes up again keeps its place and its form; only its value
changes.

## Main results

* `Table.get?_update_self`, `Table.get?_put_self` — what was put under a key
  is found under it.
-/

namespace MonkeyFrontend

/-- Values under keys. -/
abbrev Table (α : Type) := List (Datum × α)

namespace Table

variable {α : Type}

/-- The value under a key. -/
def get? (table : Table α) (key : Datum) : Option α :=
  match table with
  | [] => none
  | (other, value) :: rest => if other.sameKey key then some value else get? rest key

/-- Puts what `value` makes of the value so far under a key. -/
def update (table : Table α) (key : Datum) (value : Option α → α) : Table α :=
  match table with
  | [] => [(key, value none)]
  | (other, old) :: rest =>
    if other.sameKey key then (other, value (some old)) :: rest
    else (other, old) :: update rest key value

/-- Puts a value under a key. -/
def put (table : Table α) (key : Datum) (value : α) : Table α :=
  table.update key fun _ => value

theorem get?_update_self (table : Table α) {key : Datum} (hkey : key.isKey = true)
    (value : Option α → α) :
    (table.update key value).get? key = some (value (table.get? key)) := by
  induction table with
  | nil => simp [update, get?, Datum.sameKey_self hkey]
  | cons first rest ih =>
    obtain ⟨other, old⟩ := first
    by_cases h : other.sameKey key = true
    · simp [update, get?, h]
    · simp [update, get?, h, ih]

theorem get?_put_self (table : Table α) {key : Datum} (hkey : key.isKey = true) (value : α) :
    (table.put key value).get? key = some value :=
  get?_update_self table hkey fun _ => value

end Table

end MonkeyFrontend
