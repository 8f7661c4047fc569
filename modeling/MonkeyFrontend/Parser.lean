import MonkeyFrontend.Cursor
import MonkeyFrontend.Reading

/-!
# Parsers

A parser starts at a cursor and stops at one, which is never before its
start: that is a field of the type, so every parser that can be written
down has it. On the way it may report faults, and it either gives a value
or fails. Failing and reporting are independent of each other. A parser
that fails has normally reported why, and a parser that succeeds may have
reported faults of broken statements that it dropped and counted.

Sequencing is the monad's `bind`: the faults of the first parser come
before those of the second, and a failure of the first ends the whole.
Nothing is undone by a failure, so after one the cursor stands where the
failing parser stopped, and error recovery goes on from there.

Repetition is bounded by the number of tokens that are left, which suffices
if every round of `many` and `grow` passes at least one. `bounded` is the
one place where that number is read off the cursor.

## Main results

* `Parser.ext` — parsers that run alike are equal.
* `LawfulMonad Parser` — sequencing is associative, and `pure` is neutral.
* `Parser.size_rest_le` — no parser leaves more tokens than it was given.
* `Parser.many_eq`, `Parser.grow_eq` — repetitions whose rounds make progress
  are not cut short by their bounds: they unfold as loops without one.
-/

namespace MonkeyFrontend

/-- What became of a run. -/
structure Outcome (α : Type) where
  /-- The value, unless the run failed. -/
  value? : Option α
  /-- The faults reported, oldest first. -/
  faults : List Fault
  /-- The number of broken statements that were dropped. -/
  dropped : Nat
  /-- The place where the run stopped. -/
  rest : Cursor

/-- A run that can begin anywhere and moves forward only. -/
structure Parser (α : Type) where
  /-- The run from a given place. -/
  run : Cursor → Outcome α
  /-- A run stops at its start or after it. -/
  reaches_rest : ∀ cursor : Cursor, cursor.Reaches (run cursor).rest

namespace Outcome

variable {α β : Type}

/-- The outcome of two runs in a row, the second of which begins where
the first one stopped and is left out if the first one failed. -/
def andThen (first : Outcome α) (next : α → Cursor → Outcome β) : Outcome β :=
  match first.value? with
  | none => ⟨none, first.faults, first.dropped, first.rest⟩
  | some a =>
    let second := next a first.rest
    ⟨second.value?, first.faults ++ second.faults, first.dropped + second.dropped, second.rest⟩

theorem reaches_andThen {start : Cursor} {first : Outcome α} {next : α → Cursor → Outcome β}
    (hfirst : start.Reaches first.rest) (hnext : ∀ a (c : Cursor), c.Reaches (next a c).rest) :
    start.Reaches (first.andThen next).rest := by
  unfold andThen
  split
  · exact hfirst
  · exact hfirst.trans (hnext _ _)

end Outcome

namespace Parser

variable {α β : Type}

theorem ext {p q : Parser α} (h : ∀ cursor, p.run cursor = q.run cursor) : p = q := by
  obtain ⟨run, _⟩ := p
  obtain ⟨_, _⟩ := q
  obtain rfl : run = _ := funext h
  rfl

theorem size_rest_le (p : Parser α) (cursor : Cursor) :
    (p.run cursor).rest.size ≤ cursor.size :=
  (p.reaches_rest cursor).size_le

/-! ## Sequencing -/

instance : Monad Parser where
  pure a := ⟨fun cursor => ⟨some a, [], 0, cursor⟩, .refl⟩
  bind p next :=
    ⟨fun cursor => (p.run cursor).andThen fun a => (next a).run,
      fun cursor => Outcome.reaches_andThen (p.reaches_rest cursor) fun a => (next a).reaches_rest⟩

theorem run_pure (a : α) (cursor : Cursor) :
    (pure a : Parser α).run cursor = ⟨some a, [], 0, cursor⟩ := rfl

theorem run_bind (p : Parser α) (next : α → Parser β) (cursor : Cursor) :
    (p >>= next).run cursor = (p.run cursor).andThen fun a => (next a).run := rfl

theorem run_bind_of_none {p : Parser α} {next : α → Parser β} {cursor rest : Cursor}
    {faults : List Fault} {dropped : Nat}
    (h : p.run cursor = ⟨none, faults, dropped, rest⟩) :
    (p >>= next).run cursor = ⟨none, faults, dropped, rest⟩ := by
  rw [run_bind, h]
  rfl

theorem run_bind_of_some {p : Parser α} {next : α → Parser β} {cursor rest : Cursor} {a : α}
    {faults : List Fault} {dropped : Nat}
    (h : p.run cursor = ⟨some a, faults, dropped, rest⟩) :
    (p >>= next).run cursor =
      ⟨((next a).run rest).value?, faults ++ ((next a).run rest).faults,
        dropped + ((next a).run rest).dropped, ((next a).run rest).rest⟩ := by
  rw [run_bind, h]
  rfl

private theorem bind_pure_self (p : Parser α) : (p >>= pure) = p := by
  apply ext
  intro cursor
  rw [run_bind]
  unfold Outcome.andThen
  split
  next failed => rw [← failed]
  next a found => simp [run_pure, ← found]

private theorem pure_bind_self (a : α) (next : α → Parser β) : (pure a >>= next) = next a := by
  apply ext
  intro cursor
  rw [run_bind, run_pure]
  simp [Outcome.andThen]

private theorem bind_bind {γ : Type} (p : Parser α) (f : α → Parser β) (g : β → Parser γ) :
    (p >>= f >>= g) = (p >>= fun a => f a >>= g) := by
  apply ext
  intro cursor
  simp only [run_bind, Outcome.andThen]
  cases (p.run cursor).value? with
  | none => rfl
  | some a =>
    cases h : ((f a).run (p.run cursor).rest).value? with
    | none => simp [h]
    | some b => simp [h, Nat.add_assoc]

instance : LawfulMonad Parser :=
  LawfulMonad.mk' Parser bind_pure_self pure_bind_self bind_bind

/-! ## Looking and moving -/

/-- Gives a view of the cursor and stays where it is. -/
def look (view : Cursor → α) : Parser α :=
  ⟨fun cursor => ⟨some (view cursor), [], 0, cursor⟩, .refl⟩

instance : Reading Parser where
  current := look Cursor.current
  peek := look Cursor.peek
  depth := look fun cursor => cursor.depth
  advance := ⟨fun cursor => ⟨some (), [], 0, cursor.advance⟩, Cursor.reaches_advance⟩
  skip home := ⟨fun cursor => ⟨some (), [], 1, cursor.skipAt home⟩, Cursor.reaches_skipAt home⟩
  fail := ⟨fun cursor => ⟨none, [], 0, cursor⟩, .refl⟩
  abort fault := ⟨fun cursor => ⟨none, [fault], 0, cursor⟩, .refl⟩
  attempt p :=
    ⟨fun cursor => { p.run cursor with value? := some (p.run cursor).value? }, p.reaches_rest⟩
  bounded within :=
    ⟨fun cursor => (within (cursor.size + 1)).run cursor,
      fun cursor => (within (cursor.size + 1)).reaches_rest cursor⟩

/-- Gives the token at the cursor. -/
abbrev current : Parser Token := Reading.current

/-- Gives the token after the one at the cursor. -/
abbrev peek : Parser Token := Reading.peek

/-- Gives the number of braces open at the cursor. -/
abbrev depth : Parser Int := Reading.depth

/-- Passes the token at the cursor. -/
abbrev advance : Parser Unit := Reading.advance

/-- Drops a broken statement that began at brace depth `home`. -/
abbrev skip (home : Int) : Parser Unit := Reading.skip home

/-- Fails without a word. -/
abbrev fail : Parser α := Reading.fail

/-- Reports a fault and fails. -/
abbrev abort (fault : Fault) : Parser α := Reading.abort fault

/-- Turns a failure into a value. -/
abbrev attempt (p : Parser α) : Parser (Option α) := Reading.attempt p

/-- Moves onto the next token if it is of the given kind. -/
abbrev expect (kind : Kind) : Parser Unit := Reading.expect kind

/-- Runs a parser with a bound that exceeds the number of tokens left. -/
abbrev bounded (within : Nat → Parser α) : Parser α := Reading.bounded within

/-- At most `bound` rounds of `many`. -/
abbrev manyWithin (item : Parser (Option α)) : Nat → Parser (List α) := Reading.manyWithin item

/-- Collects items until there is none. -/
abbrev many (item : Parser (Option α)) : Parser (List α) := Reading.many item

/-- At most `bound` rounds of `grow`. -/
abbrev growWithin (step : α → Parser (Option α)) : Nat → α → Parser α := Reading.growWithin step

/-- Replaces a value by what `step` makes of it until `step` leaves it alone. -/
abbrev grow (step : α → Parser (Option α)) (value : α) : Parser α := Reading.grow step value

/-! ## Repetitions never run out of their bounds -/

/-- Two sequences run alike if their first parts do, and their second parts
do at the place where the first parts stop. -/
theorem run_bind_congr {p q : Parser α} {f g : α → Parser β} {cursor : Cursor}
    (hfirst : p.run cursor = q.run cursor)
    (hnext : ∀ a, (p.run cursor).value? = some a →
      (f a).run (p.run cursor).rest = (g a).run (p.run cursor).rest) :
    (p >>= f).run cursor = (q >>= g).run cursor := by
  rw [run_bind, run_bind, ← hfirst, Outcome.andThen, Outcome.andThen]
  split
  · rfl
  next a found => rw [hnext a found]

/-- A round makes progress if whenever it gives something it leaves fewer
tokens than it found. -/
def Progresses (round : Parser (Option α)) : Prop :=
  ∀ cursor a, (round.run cursor).value? = some (some a) →
    (round.run cursor).rest.size < cursor.size

/-- All bounds that exceed the number of tokens left are equally good. -/
theorem run_manyWithin_eq {item : Parser (Option α)} (h : Progresses item) {bound : Nat} :
    ∀ {other : Nat} {cursor : Cursor}, cursor.size < bound → cursor.size < other →
      (manyWithin item bound).run cursor = (manyWithin item other).run cursor := by
  induction bound with
  | zero => intro other cursor hb _; omega
  | succ bound ih =>
    intro other cursor hb ho
    cases other with
    | zero => omega
    | succ other =>
      apply run_bind_congr rfl
      intro found hfound
      cases found with
      | none => rfl
      | some first =>
        have shorter := h cursor first hfound
        apply run_bind_congr
        · exact ih (by omega) (by omega)
        · intros; rfl

/-- The equation by which `many` unfolds, one round at a time. -/
theorem many_eq {item : Parser (Option α)} (h : Progresses item) :
    many item = (do
      match ← item with
      | none => pure []
      | some first =>
        let rest ← many item
        pure (first :: rest)) := by
  apply ext
  intro cursor
  apply run_bind_congr rfl
  intro found hfound
  cases found with
  | none => rfl
  | some first =>
    have shorter := h cursor first hfound
    apply run_bind_congr
    · exact run_manyWithin_eq h shorter (Nat.lt_succ_self _)
    · intros; rfl

/-- All bounds that exceed the number of tokens left are equally good. -/
theorem run_growWithin_eq {step : α → Parser (Option α)} (h : ∀ a, Progresses (step a))
    {bound : Nat} :
    ∀ {other : Nat} {value : α} {cursor : Cursor}, cursor.size < bound → cursor.size < other →
      (growWithin step bound value).run cursor = (growWithin step other value).run cursor := by
  induction bound with
  | zero => intro other value cursor hb _; omega
  | succ bound ih =>
    intro other value cursor hb ho
    cases other with
    | zero => omega
    | succ other =>
      apply run_bind_congr rfl
      intro found hfound
      cases found with
      | none => rfl
      | some grown =>
        have shorter := h value cursor grown hfound
        exact ih (by omega) (by omega)

/-- The equation by which `grow` unfolds, one step at a time. -/
theorem grow_eq {step : α → Parser (Option α)} (h : ∀ a, Progresses (step a)) (value : α) :
    grow step value = (do
      match ← step value with
      | none => pure value
      | some grown => grow step grown) := by
  apply ext
  intro cursor
  apply run_bind_congr rfl
  intro found hfound
  cases found with
  | none => rfl
  | some grown =>
    have shorter := h value cursor grown hfound
    exact run_growWithin_eq h shorter (Nat.lt_succ_self _)

end Parser

end MonkeyFrontend
