import MonkeyFrontend.Datum.Obstacle
import MonkeyFrontend.Datum.Table

/-!
# Ordered runs

Numbers are ordered by value and texts by their characters; nothing else
has an order, and neither do a number and a text. Comparing two keys that
have no order is an obstacle.

A run is an ordered stretch of a table. The longest run at the front of a
table is taken as it is, turned round if it falls, and entries after it are
put into their places in it by halving.

## Main results

* `Table.perm_firstRun` — the run at the front and the entries after it have
  the entries of the whole table.
* `Table.perm_insertAll` — a run into which entries are put has its own
  entries and them.
-/

namespace MonkeyFrontend

/-- Whether the first datum comes before the second. -/
def Datum.before (a b : Datum) : Except Obstacle Bool :=
  match a, b with
  | .text s, .text t => .ok (decide (s < t))
  | a, b =>
    match a.numeric?, b.numeric? with
    | some (m, p), some (n, q) => .ok (decide (m * Int.pow 10 q < n * Int.pow 10 p))
    | _, _ => .error (.notComparable "<" a.shape b.shape)

/-- Whether the first datum comes after the second. -/
def Datum.after (a b : Datum) : Except Obstacle Bool :=
  match b.before a with
  | .ok found => .ok found
  | .error _ => .error (.notComparable ">" a.shape b.shape)

namespace Table

variable {α : Type}

/-- Cuts a table after the run of entries that each come before the one in
front (`falling`) or do not. `last` is the key in front of the table. -/
def splitRun (falling : Bool) (last : Datum) : Table α → Except Obstacle (Table α × Table α)
  | [] => .ok ([], [])
  | (key, value) :: rest => do
    if (← key.before last) == falling then
      let (run, rest) ← splitRun falling key rest
      pure ((key, value) :: run, rest)
    else
      pure ([], (key, value) :: rest)

/-- The ordered run at the front of a table, in rising order, and what is
left of the table. -/
def firstRun : Table α → Except Obstacle (Table α × Table α)
  | [] => .ok ([], [])
  | [entry] => .ok ([entry], [])
  | first :: second :: rest => do
    let falling ← second.1.before first.1
    let (run, rest) ← splitRun falling second.1 rest
    let run := first :: second :: run
    pure (if falling then run.reverse else run, rest)

/-- The place of a key among the entries from `low` up to `high` of an
ordered table, found by halving. -/
def place (key : Datum) (table : Table α) (low high : Nat) : Except Obstacle Nat :=
  if low < high then
    let middle := (low + high) / 2
    match table[middle]? with
    | none => .ok low
    | some entry => do
      if ← key.before entry.1 then place key table low middle
      else place key table (middle + 1) high
  else
    .ok low
termination_by high - low

/-- Puts an entry in at a place. -/
def insertAt (entry : Datum × α) (index : Nat) (table : Table α) : Table α :=
  table.take index ++ entry :: table.drop index

theorem perm_insertAt (entry : Datum × α) (index : Nat) (table : Table α) :
    (insertAt entry index table).Perm (entry :: table) := by
  have parts : (entry :: (table.take index ++ table.drop index)).Perm (entry :: table) := by
    rw [List.take_append_drop]
  exact List.perm_middle.trans parts

/-- Puts entries one after the other into their places in an ordered table. -/
def insertAll (ordered : Table α) : Table α → Except Obstacle (Table α)
  | [] => .ok ordered
  | entry :: rest => do
    let index ← place entry.1 ordered 0 ordered.length
    insertAll (insertAt entry index ordered) rest

theorem splitRun_append {falling : Bool} {last : Datum} {table run rest : Table α}
    (h : splitRun falling last table = .ok (run, rest)) : run ++ rest = table := by
  induction table generalizing last run rest with
  | nil =>
    cases h
    rfl
  | cons entry table ih =>
    obtain ⟨key, value⟩ := entry
    rw [splitRun] at h
    cases hb : key.before last with
    | error obstacle => simp [bind, Except.bind, hb] at h
    | ok isBefore =>
      by_cases hf : (isBefore == falling) = true
      · cases hs : splitRun falling key table with
        | error obstacle => simp [bind, Except.bind, hb, hs, hf] at h
        | ok parts =>
          simp only [bind, Except.bind, hb, hs, hf, pure, Except.pure, if_true] at h
          cases h
          rw [List.cons_append, ih hs]
      · simp only [bind, Except.bind, hb, hf, pure, Except.pure] at h
        cases h
        rfl

theorem perm_firstRun {table run rest : Table α} (h : firstRun table = .ok (run, rest)) :
    (run ++ rest).Perm table := by
  match table with
  | [] =>
    cases h
    rfl
  | [entry] =>
    cases h
    rfl
  | first :: second :: table =>
    rw [firstRun] at h
    cases hb : second.1.before first.1 with
    | error obstacle => simp [bind, Except.bind, hb] at h
    | ok falling =>
      cases hs : splitRun falling second.1 table with
      | error obstacle => simp [bind, Except.bind, hb, hs] at h
      | ok parts =>
        simp only [bind, Except.bind, hb, hs, pure, Except.pure] at h
        cases h
        rw [← splitRun_append hs]
        cases falling with
        | false => exact .refl _
        | true => exact (List.reverse_perm (first :: second :: parts.1)).append_right parts.2

theorem length_firstRun_pos {entry : Datum × α} {table run rest : Table α}
    (h : firstRun (entry :: table) = .ok (run, rest)) : 0 < run.length := by
  match table with
  | [] =>
    cases h
    exact Nat.one_pos
  | second :: table =>
    rw [firstRun] at h
    cases hb : second.1.before entry.1 with
    | error obstacle => simp [bind, Except.bind, hb] at h
    | ok falling =>
      cases hs : splitRun falling second.1 table with
      | error obstacle => simp [bind, Except.bind, hb, hs] at h
      | ok parts =>
        simp only [bind, Except.bind, hb, hs, pure, Except.pure] at h
        cases h
        cases falling <;> simp

theorem perm_insertAll {ordered entries result : Table α}
    (h : insertAll ordered entries = .ok result) : result.Perm (ordered ++ entries) := by
  induction entries generalizing ordered with
  | nil =>
    cases h
    rw [List.append_nil]
  | cons entry entries ih =>
    rw [insertAll] at h
    cases hp : place entry.1 ordered 0 ordered.length with
    | error obstacle => simp [bind, Except.bind, hp] at h
    | ok index =>
      simp only [bind, Except.bind, hp] at h
      exact (ih h).trans (((perm_insertAt entry index ordered).append_right entries).trans
        List.perm_middle.symm)

end Table

end MonkeyFrontend
