import MonkeyFrontend.Fault

/-!
# Readers of tokens

The constructs of the language are written once, against the few things that
a reader of tokens can do, and hold for every kind of reader that can do
them. There are two kinds. A `Parser` reads a list of tokens that lies
before it as a whole, and gives the faults it has found. A `Routine` draws
its tokens from a scanner when it gets to them, looks at two of them at a
time, and writes what is wrong into a collection of messages that others may
have written into before. What holds of the one holds of the other, because
they do the same things alike.

Repetition is bounded, since a reader moves forward only: `bounded` gives a
bound that exceeds the number of tokens that are left. It is felt only by a
repetition whose rounds pass no token.
-/

namespace MonkeyFrontend

/-- What a reader of tokens can do. -/
class Reading (m : Type → Type) where
  /-- Gives the token at this place. -/
  current : m Token
  /-- Gives the token after the one at this place. -/
  peek : m Token
  /-- Gives the number of braces that are open at this place. -/
  depth : m Int
  /-- Passes the token at this place. -/
  advance : m Unit
  /-- Drops a broken statement that began at a brace depth, and passes the rest of it. -/
  skip : Int → m Unit
  /-- Fails without a word. -/
  fail {α : Type} : m α
  /-- Reports a fault and fails. -/
  abort {α : Type} : Fault → m α
  /-- Turns a failure into a value. What was reported stays reported, and the
  reader stays where the failure left it. -/
  attempt {α : Type} : m α → m (Option α)
  /-- Gives something that repeats itself a bound on its repetitions that exceeds the number
  of tokens left. -/
  bounded {α : Type} : (Nat → m α) → m α

namespace Reading

variable {m : Type → Type} [Monad m] [Reading m] {α : Type}

/-- Moves onto the next token if it is of the given kind; otherwise reports
that it is not, stays, and fails. -/
def expect (kind : Kind) : m Unit := do
  let next ← peek
  if next.kind = kind then advance else abort (.unexpected kind next.kind)

/-! ## Repeating -/

/-- At most `bound` rounds of `many`. -/
def manyWithin (item : m (Option α)) : Nat → m (List α)
  | 0 => fail
  | bound + 1 => do
    match ← item with
    | none => pure []
    | some first =>
      let rest ← manyWithin item bound
      pure (first :: rest)

/-- Collects items until there is none. -/
def many (item : m (Option α)) : m (List α) :=
  bounded (manyWithin item)

/-- At most `bound` rounds of `grow`. -/
def growWithin (step : α → m (Option α)) : Nat → α → m α
  | 0, _ => fail
  | bound + 1, value => do
    match ← step value with
    | none => pure value
    | some grown => growWithin step bound grown

/-- Replaces a value by what `step` makes of it until `step` leaves it alone. -/
def grow (step : α → m (Option α)) (value : α) : m α :=
  bounded fun bound => growWithin step bound value

end Reading

end MonkeyFrontend
