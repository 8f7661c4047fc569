import MonkeyFrontend.Datum.Order

/-!
# Sorted tables

A table is put into the order of its keys in runs. A run begins with the
ordered stretch at the front of what is left of the table, and takes in the
entries after it until it has the least length for a table of that size.
Neighbouring runs are then merged two by two until one is left.

Since keys without an order are an obstacle, it matters which keys are
compared first, and so when two runs are merged. Let the table be cut into
halves, the halves into halves, and so on. Two neighbouring runs part at the
depth at which their middles first lie in different pieces. A pair of runs
that part deep is merged before one that parts less deep: when a new run is
found, all pairs before it are merged that part deeper than the new run and
the one before it.

## Main results

* `Table.perm_merge` — merging two tables keeps the entries of both.
* `Table.perm_sorted` — a sorted table has the entries of the table.
-/

namespace MonkeyFrontend.Table

variable {α : Type}

/-! ## Merging -/

/-- Merges two ordered tables into one. -/
def merge : Table α → Table α → Except Obstacle (Table α)
  | [], second => .ok second
  | first, [] => .ok first
  | a :: first, b :: second => do
    if ← b.1.before a.1 then
      let rest ← merge (a :: first) second
      pure (b :: rest)
    else
      let rest ← merge first (b :: second)
      pure (a :: rest)
termination_by first second => first.length + second.length

theorem perm_merge {first second result : Table α} (h : merge first second = .ok result) :
    result.Perm (first ++ second) := by
  induction first, second using merge.induct generalizing result with
  | case1 second =>
    rw [merge] at h
    cases h
    rfl
  | case2 first =>
    rw [merge] at h
    · cases h
      rw [List.append_nil]
    · assumption
  | case3 a first b second ihSecond ihFirst =>
    rw [merge] at h
    cases hb : b.1.before a.1 with
    | error obstacle => simp [bind, Except.bind, hb] at h
    | ok isBefore =>
      cases isBefore with
      | true =>
        cases hm : merge (a :: first) second with
        | error obstacle => simp [bind, Except.bind, hb, hm] at h
        | ok rest =>
          simp only [bind, Except.bind, hb, hm, pure, Except.pure, if_true] at h
          cases h
          exact ((ihSecond hm).cons b).trans List.perm_middle.symm
      | false =>
        cases hm : merge first (b :: second) with
        | error obstacle => simp [bind, Except.bind, hb, hm] at h
        | ok rest =>
          simp only [bind, Except.bind, hb, hm, pure, Except.pure] at h
          cases h
          exact (ihFirst hm).cons a

/-! ## Runs -/

/-- A run of a table, in rising order. -/
structure Run (α : Type) where
  /-- How many entries of the table stand before the run. -/
  start : Nat
  /-- The entries of the run. -/
  entries : Table α

/-- The least length of a run, unless the table ends before: the size of the
table, halved until it is below 64, and rounded up. -/
def leastRun (size : Nat) : Nat :=
  let pieces := Nat.pow 2 (size.log2 - 5)
  (size + pieces - 1) / pieces

/-- Takes a run of at least the given length from the front of what is left
of a table. -/
def takeRun (least start : Nat) (table : Table α) : Except Obstacle (Run α × Table α) := do
  let (run, rest) ← firstRun table
  let wanted := least - run.length
  let entries ← insertAll run (rest.take wanted)
  pure (⟨start, entries⟩, rest.drop wanted)

namespace Run

/-- The middle of a run, counted in halves of an entry. -/
def middle (run : Run α) : Nat :=
  2 * run.start + run.entries.length

/-- How many times a table is cut into halves until the middles of two runs
lie in different pieces. -/
def parting (size : Nat) (first second : Run α) : Nat :=
  let piece (depth : Nat) (run : Run α) := run.middle * Nat.pow 2 depth / (2 * size)
  ((List.range (size.log2 + 2)).find? fun depth =>
    piece depth first != piece depth second).getD 0

/-- Merges a run with the one after it. -/
def join (first second : Run α) : Except Obstacle (Run α) := do
  let entries ← merge first.entries second.entries
  pure ⟨first.start, entries⟩

end Run

/-- The runs before the last one, the nearest first, each with the depth at
which it parts from the run after it. -/
abbrev Earlier (α : Type) := List (Run α × Nat)

/-- The entries of several runs, with those of the nearest run first. -/
def entriesOf (earlier : Earlier α) : Table α :=
  earlier.flatMap fun run => run.1.entries

/-- Merges the last run with the runs before it that part deeper than
`depth`. -/
def settle (depth : Nat) (last : Run α) : Earlier α → Except Obstacle (Run α × Earlier α)
  | [] => .ok (last, [])
  | (run, parting) :: earlier =>
    if depth < parting then do
      let joined ← run.join last
      settle depth joined earlier
    else
      .ok (last, (run, parting) :: earlier)

/-- Merges the last run with all runs before it, the nearest first. The two
runs before it are merged sooner if the first of them is shorter than it. -/
def joinAll (last : Run α) : List (Run α) → Except Obstacle (Run α)
  | [] => .ok last
  | [run] => run.join last
  | second :: first :: earlier => do
    if first.entries.length < last.entries.length then
      let joined ← first.join second
      joinAll last (joined :: earlier)
    else
      let joined ← second.join last
      joinAll joined (first :: earlier)
termination_by earlier => earlier.length

theorem Run.perm_join {first second joined : Run α} (h : first.join second = .ok joined) :
    joined.entries.Perm (first.entries ++ second.entries) := by
  rw [Run.join] at h
  cases hm : merge first.entries second.entries with
  | error obstacle => simp [bind, Except.bind, hm] at h
  | ok entries =>
    simp only [bind, Except.bind, hm, pure, Except.pure] at h
    cases h
    exact perm_merge hm

theorem perm_settle {depth : Nat} {last settled : Run α} {earlier others : Earlier α}
    (h : settle depth last earlier = .ok (settled, others)) :
    (settled.entries ++ entriesOf others).Perm (last.entries ++ entriesOf earlier) := by
  induction earlier generalizing last with
  | nil =>
    cases h
    rfl
  | cons first earlier ih =>
    obtain ⟨run, parting⟩ := first
    rw [settle] at h
    split at h
    · cases hj : run.join last with
      | error obstacle => simp [bind, Except.bind, hj] at h
      | ok joined =>
        simp only [bind, Except.bind, hj] at h
        have turned := (Run.perm_join hj).trans List.perm_append_comm
        have merged := (ih h).trans (turned.append_right (entriesOf earlier))
        rw [List.append_assoc] at merged
        exact merged
    · cases h
      rfl

theorem perm_joinAll {last whole : Run α} {earlier : List (Run α)}
    (h : joinAll last earlier = .ok whole) :
    whole.entries.Perm (last.entries ++ earlier.flatMap Run.entries) := by
  induction last, earlier using joinAll.induct generalizing whole with
  | case1 last =>
    rw [joinAll] at h
    cases h
    simp
  | case2 last run =>
    rw [joinAll] at h
    simpa using (Run.perm_join h).trans List.perm_append_comm
  | case3 last second first earlier shorter ih =>
    rw [joinAll, if_pos shorter] at h
    cases hj : first.join second with
    | error obstacle => simp [bind, Except.bind, hj] at h
    | ok joined =>
      simp only [bind, Except.bind, hj] at h
      have turned := (Run.perm_join hj).trans List.perm_append_comm
      have merged := (ih joined h).trans
        ((turned.append_right (earlier.flatMap Run.entries)).append_left last.entries)
      simpa [List.append_assoc] using merged
  | case4 last second first earlier notShorter ih =>
    rw [joinAll, if_neg notShorter] at h
    cases hj : second.join last with
    | error obstacle => simp [bind, Except.bind, hj] at h
    | ok joined =>
      simp only [bind, Except.bind, hj] at h
      have turned := (Run.perm_join hj).trans List.perm_append_comm
      have merged := (ih joined h).trans
        (turned.append_right ((first :: earlier).flatMap Run.entries))
      simpa [List.append_assoc] using merged

theorem perm_takeRun {least start : Nat} {table rest : Table α} {run : Run α}
    (h : takeRun least start table = .ok (run, rest)) :
    (run.entries ++ rest).Perm table := by
  rw [takeRun] at h
  cases hf : firstRun table with
  | error obstacle => simp [bind, Except.bind, hf] at h
  | ok parts =>
    obtain ⟨front, others⟩ := parts
    cases hi : insertAll front (others.take (least - front.length)) with
    | error obstacle => simp [bind, Except.bind, hf, hi] at h
    | ok entries =>
      simp only [bind, Except.bind, hf, hi, pure, Except.pure] at h
      cases h
      have taken := (perm_insertAll hi).append_right (others.drop (least - front.length))
      rw [List.append_assoc, List.take_append_drop] at taken
      exact taken.trans (perm_firstRun hf)

theorem length_le_of_takeRun {least start : Nat} {entry : Datum × α} {table rest : Table α}
    {run : Run α} (h : takeRun least start (entry :: table) = .ok (run, rest)) :
    rest.length ≤ table.length := by
  rw [takeRun] at h
  cases hf : firstRun (entry :: table) with
  | error obstacle => simp [bind, Except.bind, hf] at h
  | ok parts =>
    obtain ⟨front, others⟩ := parts
    cases hi : insertAll front (others.take (least - front.length)) with
    | error obstacle => simp [bind, Except.bind, hf, hi] at h
    | ok entries =>
      simp only [bind, Except.bind, hf, hi, pure, Except.pure] at h
      cases h
      have size := (perm_firstRun hf).length_eq
      have := length_firstRun_pos hf
      simp only [List.length_append, List.length_cons] at size
      simp only [List.length_drop]
      omega

/-- Sorts what is left of a table of the given size behind its last run and
the runs before that one. -/
def sortRest (size : Nat) (last : Run α) (earlier : Earlier α) :
    Table α → Except Obstacle (Table α)
  | [] => do
    let whole ← joinAll last (earlier.map Prod.fst)
    pure whole.entries
  | entry :: table =>
    match _taken : takeRun (leastRun size) (last.start + last.entries.length) (entry :: table) with
    | .error obstacle => .error obstacle
    | .ok (next, rest) => do
      let depth := last.parting size next
      let (settled, earlier) ← settle depth last earlier
      sortRest size next ((settled, depth) :: earlier) rest
termination_by table => table.length
decreasing_by exact Nat.lt_succ_of_le (length_le_of_takeRun _taken)

/-- The entries in the order of their keys. -/
def sorted (table : Table α) : Except Obstacle (Table α) := do
  let (run, rest) ← takeRun (leastRun table.length) 0 table
  sortRest table.length run [] rest

theorem perm_sortRest {size : Nat} {last : Run α} {earlier : Earlier α}
    {table result : Table α} (h : sortRest size last earlier table = .ok result) :
    result.Perm (last.entries ++ entriesOf earlier ++ table) := by
  induction last, earlier, table using sortRest.induct size generalizing result with
  | case1 last earlier =>
    rw [sortRest] at h
    cases hw : joinAll last (earlier.map Prod.fst) with
    | error obstacle => simp [bind, Except.bind, hw] at h
    | ok whole =>
      simp only [bind, Except.bind, hw, pure, Except.pure] at h
      cases h
      have joined := perm_joinAll hw
      rw [List.flatMap_map] at joined
      rw [List.append_nil]
      exact joined
  | case2 last earlier entry table obstacle found =>
    rw [sortRest] at h
    split at h
    · cases h
    · rename_i taken
      rw [found] at taken
      cases taken
  | case3 last earlier entry table next rest found depth =>
    rename_i ih
    rw [sortRest] at h
    split at h
    · cases h
    · rename_i taken
      rw [found] at taken
      cases taken
      cases hs : settle (last.parting size next) last earlier with
      | error obstacle => simp [bind, Except.bind, hs] at h
      | ok parts =>
        obtain ⟨settled, others⟩ := parts
        simp only [bind, Except.bind, hs] at h
        have before : (entriesOf ((settled, depth) :: others)).Perm
            (last.entries ++ entriesOf earlier) := perm_settle hs
        have after : (next.entries ++ rest).Perm (entry :: table) := perm_takeRun found
        have turned := (List.perm_append_comm.trans (before.append_right next.entries)).append_right
          rest
        rw [List.append_assoc (last.entries ++ entriesOf earlier)] at turned
        exact (ih settled others h).trans (turned.trans (after.append_left _))

theorem perm_sorted {table ordered : Table α} (h : table.sorted = .ok ordered) :
    ordered.Perm table := by
  rw [sorted] at h
  cases hr : takeRun (leastRun table.length) 0 table with
  | error obstacle => simp [bind, Except.bind, hr] at h
  | ok parts =>
    obtain ⟨run, rest⟩ := parts
    simp only [bind, Except.bind, hr] at h
    have all := perm_sortRest h
    rw [entriesOf, List.flatMap_nil, List.append_nil] at all
    exact all.trans (perm_takeRun hr)

end MonkeyFrontend.Table
