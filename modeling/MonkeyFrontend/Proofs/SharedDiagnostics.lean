import MonkeyFrontend.Proofs.Refinement

/-!
# Diagnostics that are shared

Several sources may be read with one collection of diagnostics, and others may record errors in
it in between. A routine has the collection at hand from its first step to its last, and may do
with it what it likes. Those of the language follow parsers, which know of no collection, so they
neither ask what is in it nor take anything out, but record their faults behind the rest
(`Simulation.following`).

So what the uses of a collection leave in it is what it held before, and then what each use
records alone, one after the other; and each program is the one that is read alone.

## Main results

* `parseInto_eq_append` — a source beside any diagnostics, and beside new ones.
* `Diagnostics.useAll_eq` — several uses, and each of them alone.
* `shared_diagnostics_accumulate` — what becomes of shared diagnostics.
-/

namespace MonkeyFrontend

namespace Diagnostics

/-! ## One collection after another -/

instance : Append Diagnostics := ⟨fun first second => ⟨first.entries ++ second.entries⟩⟩

theorem messages_append (first second : Diagnostics) :
    (first ++ second).messages = first.messages ++ second.messages :=
  List.map_append

theorem append_assoc (first second third : Diagnostics) :
    first ++ second ++ third = first ++ (second ++ third) :=
  congrArg Diagnostics.mk (List.append_assoc _ _ _)

theorem empty_append (diagnostics : Diagnostics) : empty ++ diagnostics = diagnostics :=
  congrArg Diagnostics.mk (List.nil_append _)

theorem append_empty (diagnostics : Diagnostics) : diagnostics ++ empty = diagnostics :=
  congrArg Diagnostics.mk (List.append_nil _)

theorem record_append (first second : Diagnostics) (message : String) :
    (first ++ second).record message = first ++ second.record message :=
  congrArg Diagnostics.mk (List.append_assoc _ _ _)

/-- Faults are recorded behind all that was recorded before. -/
theorem recordFaults_append_left (first second : Diagnostics) (faults : List Fault) :
    (first ++ second).recordFaults faults = first ++ second.recordFaults faults := by
  unfold recordFaults
  induction faults generalizing second with
  | nil => rfl
  | cons fault rest ih =>
      show ((first ++ second).record fault.message).recordAll (rest.map Fault.message) = _
      rw [record_append]
      exact ih (second.record fault.message)

/-- Several collections, one after the other. -/
def concat (collections : List Diagnostics) : Diagnostics :=
  ⟨collections.flatMap entries⟩

theorem messages_concat (collections : List Diagnostics) :
    (concat collections).messages = collections.flatMap messages :=
  List.map_flatMap

end Diagnostics

/-- A source is read beside any diagnostics as it is read beside new ones, and what is wrong with it
is recorded behind what they held. Without any it is read beside new ones. -/
theorem parseInto_eq_append (diagnostics? : Option Diagnostics) (source : String) :
    parseInto diagnostics? source =
      ((parse source).1, diagnostics?.getD .empty ++ (parse source).2) := by
  rw [parseInto_eq, parse_eq, ← Diagnostics.recordFaults_append_left, Diagnostics.append_empty]

/-! ## Uses of diagnostics -/

namespace Diagnostics

/-- Something that is done with diagnostics. -/
inductive Use where
  /-- An error is recorded. -/
  | error (message : String)
  /-- A source is read. -/
  | source (text : String)

/-- What comes of a use: a program, if a source is read, and the diagnostics afterwards. -/
def use (diagnostics : Diagnostics) : Use → Option Program × Diagnostics
  | .error message => (none, diagnostics.record message)
  | .source text =>
    let read := parseInto (some diagnostics) text
    (some read.1, read.2)

/-- What comes of several uses of the same diagnostics. -/
def useAll : Diagnostics → List Use → List (Option Program) × Diagnostics
  | diagnostics, [] => ([], diagnostics)
  | diagnostics, first :: rest =>
    let (program?, diagnostics) := diagnostics.use first
    let (programs, diagnostics) := diagnostics.useAll rest
    (program? :: programs, diagnostics)

/-- A use adds to diagnostics what it records alone, and gives what it gives alone. -/
theorem use_eq (diagnostics : Diagnostics) (step : Use) :
    diagnostics.use step = ((empty.use step).1, diagnostics ++ (empty.use step).2) := by
  cases step with
  | error message =>
      have hrecord := record_append diagnostics empty message
      rw [append_empty] at hrecord
      exact Prod.ext rfl hrecord
  | source text =>
      have hgiven := parseInto_eq_append (some diagnostics) text
      have hnew := parseInto_eq_append (some empty) text
      simp only [use, hgiven, hnew, Option.getD_some, empty_append]

/-- The same for several uses. -/
theorem useAll_eq (diagnostics : Diagnostics) (steps : List Use) :
    diagnostics.useAll steps =
      (steps.map fun step => (empty.use step).1,
        diagnostics ++ concat (steps.map fun step => (empty.use step).2)) := by
  induction steps generalizing diagnostics with
  | nil => exact Prod.ext rfl (append_empty diagnostics).symm
  | cons step rest ih =>
      show ((diagnostics.use step).1 :: ((diagnostics.use step).2.useAll rest).1,
        ((diagnostics.use step).2.useAll rest).2) = _
      rw [ih, use_eq, append_assoc]
      rfl

end Diagnostics

/-- A source that is read with diagnostics that hold something already gives the same program as
with new ones, and leaves behind what was there and then what is recorded for it alone; new ones
are what it gets where none are given. So after any errors that are recorded and sources that are
read in a row with the same diagnostics, the messages are those from before, and then those of each
step alone, in the order of the steps; and each program is the one that its source gives alone. -/
theorem shared_diagnostics_accumulate (diagnostics : Diagnostics) :
    (∀ source, parseInto none source = parse source ∧
      (parseInto (some diagnostics) source).1 = (parse source).1 ∧
      (parseInto (some diagnostics) source).2.messages =
        diagnostics.messages ++ (parse source).2.messages) ∧
    ∀ steps : List Diagnostics.Use,
      (diagnostics.useAll steps).1 = steps.map (fun step => (Diagnostics.empty.use step).1) ∧
        (diagnostics.useAll steps).2.messages =
          diagnostics.messages ++
            steps.flatMap fun step => (Diagnostics.empty.use step).2.messages := by
  constructor
  · intro source
    have hnew := parseInto_eq_append none source
    have hgiven := parseInto_eq_append (some diagnostics) source
    refine ⟨?_, ?_, ?_⟩
    · rw [hnew, Option.getD_none, Diagnostics.empty_append]
    · rw [hgiven]
    · rw [hgiven]
      exact Diagnostics.messages_append diagnostics (parse source).2
  · intro steps
    rw [Diagnostics.useAll_eq]
    refine ⟨rfl, ?_⟩
    rw [Diagnostics.messages_append, Diagnostics.messages_concat, List.flatMap_map]

end MonkeyFrontend
