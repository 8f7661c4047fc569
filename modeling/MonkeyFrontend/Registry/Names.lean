import MonkeyFrontend.Registry.Complaint

/-!
# Names of entries

The first check of a registry: the names of its entries and the labels of
the token kinds have to be the same set.
-/

namespace MonkeyFrontend.Registry

/-- The names that are texts. -/
def textNames (names : List Datum) : List String :=
  names.filterMap fun name =>
    match name with
    | .text value => some value
    | _ => none

/-- Kinds in the order of their labels. -/
def sortedKinds (kinds : List Kind) : List Kind :=
  kinds.mergeSort fun a b => decide (a.label ≤ b.label)

/-- The complaints about a list of names: first the names that are no
texts, as they come, then the kinds that are not among the names, and then
the names that are no kinds, each in rising order. -/
def nameComplaints (names : List Datum) : List Complaint :=
  let registered := textNames names
  let missing := Kind.all.filter fun kind => !registered.contains kind.label
  let unknown := registered.eraseDups.filter fun name => (Kind.ofLabel? name).isNone
  (names.filter fun name => !name.isText).map .nameNotText ++
    (sortedKinds missing).map .kindMissing ++
    (sortedTexts unknown).map .nameUnknown

/-- Checks the names of a registry's entries. -/
def checkNames (tokens : Datum) : Except Obstacle (List Complaint) := do
  let names ← tokens.names
  pure (nameComplaints names)

end MonkeyFrontend.Registry
