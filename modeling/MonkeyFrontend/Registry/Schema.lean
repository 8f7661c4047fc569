import MonkeyFrontend.Datum.Obstacle
import MonkeyFrontend.Registry.Document

/-!
# Holding registries against a schema

What holds data against schemas is no part of this library. Of a schema that
it was given nothing is known but what it says when it is asked about a
datum: that the datum is accepted, that it is rejected, with a message and
the keys that lead to the place that is wrong, or that the schema makes no
sense. It may also meet an obstacle and say nothing.

That it understands a schema as the document is meant is a property of it
(`Schema.Follows`).
-/

namespace MonkeyFrontend.Registry

/-- What is said about a datum that is held against a schema. -/
inductive Judgment where
  /-- The datum is as it is to be. -/
  | accepted
  /-- The datum is wrong, and where. -/
  | rejected (message : String) (path : List Datum)
  /-- The schema is wrong, and why. -/
  | unusable (cause : String)

/-- The lines that report a judgment. -/
def Judgment.report : Judgment → List String
  | accepted => []
  | rejected message path =>
    ("Schema validation error: " ++ message) ::
      if path.isEmpty then []
      else ["  at path: " ++ " -> ".intercalate (path.map Datum.plain)]
  | unusable cause => ["Invalid schema: " ++ cause]

/-- A schema, as it is understood by whatever holds data against it. -/
structure Schema where
  /-- What is said about a datum. -/
  judge : Datum → Except Obstacle Judgment

namespace Schema

/-- The schema is understood as a document is meant: it accepts the data that the document admits,
and no others. -/
def Follows (schema : Schema) (document : Constraint) : Prop :=
  ∀ datum, schema.judge datum = .ok .accepted ↔ document.Admits datum

/-- The lines that report how a registry departs from a schema. -/
def check (schema : Schema) (registry : Datum) : Except Obstacle (List String) := do
  let judgment ← schema.judge registry
  pure judgment.report

/-- The same lines, unless schemas are not looked at. -/
def checkIf (enabled : Bool) (schema : Schema) (registry : Datum) : Except Obstacle (List String) :=
  if enabled then schema.check registry else pure []

end Schema

end MonkeyFrontend.Registry
