import MonkeyFrontend.Datum.Sorting

/-!
# Tables that can be sorted

Sorting a table compares keys, and to compare keys that have no order is an obstacle. Which
keys are compared depends on how the runs of the table fall. But if all of its keys have
an order among them, then no comparison fails, so sorting does not fail either
(`Table.Comparable.sorted`). Texts are such keys.

Every step of the sort keeps the entries that it is given, so what can be compared at the
beginning can be compared at every step.

## Main results

* `Table.Comparable.sorted` — a table whose keys can be compared can be sorted.
* `Table.TextKeys.comparable` — texts can be compared.
-/

namespace MonkeyFrontend

/-! ## Checks without an obstacle -/

/-- Nothing stands in the way of a check. -/
def Succeeds {α : Type} (check : Except Obstacle α) : Prop :=
  ∃ a, check = .ok a

namespace Succeeds

variable {α β : Type}

theorem ok (a : α) : Succeeds (.ok a) := ⟨a, rfl⟩

/-- A sequence succeeds if its second part does, whatever the first part gives. -/
theorem bind {check : Except Obstacle α} {next : α → Except Obstacle β} (h : Succeeds check)
    (hnext : ∀ a, check = .ok a → Succeeds (next a)) : Succeeds (check >>= next) := by
  obtain ⟨a, ha⟩ := h
  obtain ⟨b, hb⟩ := hnext a ha
  exact ⟨b, by rw [ha]; exact hb⟩

end Succeeds

/-- A sequence gives a value exactly if its first part gives one and its second part goes on
from there to the value. -/
theorem bind_eq_ok_iff {α β : Type} {check : Except Obstacle α} {next : α → Except Obstacle β}
    {b : β} : (check >>= next) = .ok b ↔ ∃ a, check = .ok a ∧ next a = .ok b := by
  cases check <;> simp [bind, Except.bind]

namespace Table

variable {α : Type}

/-- Any two keys of a table can be compared. -/
def Comparable (table : Table α) : Prop :=
  ∀ a ∈ table, ∀ b ∈ table, Succeeds (a.1.before b.1)

/-- All keys of a table are texts. -/
def TextKeys (table : Table α) : Prop :=
  ∀ a ∈ table, ∃ key, a.1 = .text key

theorem TextKeys.comparable {table : Table α} (h : table.TextKeys) : table.Comparable := by
  intro a ha b hb
  obtain ⟨s, hs⟩ := h a ha
  obtain ⟨t, ht⟩ := h b hb
  rw [hs, ht]
  exact .ok _

namespace Comparable

variable {table other rest : Table α}

theorem subset (h : table.Comparable) (hsub : other ⊆ table) : other.Comparable :=
  fun a ha b hb => h a (hsub ha) b (hsub hb)

theorem tail {entry : Datum × α} (h : Comparable (entry :: table)) : table.Comparable :=
  h.subset (List.subset_cons_self entry table)

/-! ## Runs -/

theorem splitRun {falling : Bool} {last : Datum} (h : table.Comparable)
    (hlast : ∀ a ∈ table, Succeeds (a.1.before last)) :
    Succeeds (table.splitRun falling last) := by
  induction table generalizing last with
  | nil => exact .ok _
  | cons entry table ih =>
      obtain ⟨key, value⟩ := entry
      apply Succeeds.bind (hlast _ List.mem_cons_self)
      intro isBefore _
      split
      · have hkey : ∀ a ∈ table, Succeeds (a.1.before key) :=
          fun a ha => h a (List.mem_cons_of_mem _ ha) _ List.mem_cons_self
        exact (ih h.tail hkey).bind fun _ _ => .ok _
      · exact .ok _

theorem firstRun (h : table.Comparable) : Succeeds table.firstRun := by
  match table with
  | [] => exact .ok _
  | [entry] => exact .ok _
  | first :: second :: table =>
      apply Succeeds.bind (h second (by simp) first (by simp))
      intro falling _
      have hlast : ∀ a ∈ table, Succeeds (a.1.before second.1) :=
        fun a ha => h a (by simp [ha]) second (by simp)
      exact (h.tail.tail.splitRun hlast).bind fun _ _ => .ok _

theorem place {key : Datum} (h : ∀ a ∈ table, Succeeds (key.before a.1)) (low high : Nat) :
    Succeeds (Table.place key table low high) := by
  induction low, high using Table.place.induct table with
  | case1 low high hlt middle hnone =>
      rw [Table.place, if_pos hlt]
      simp only [middle] at hnone
      simp only [hnone]
      exact .ok low
  | case2 low high hlt middle entry hsome ihlow ihhigh =>
      rw [Table.place, if_pos hlt]
      simp only [middle] at hsome
      simp only [hsome]
      apply Succeeds.bind (h entry (List.mem_of_getElem? hsome))
      intro isBefore _
      split
      · exact ihlow
      · exact ihhigh
  | case3 low high hge =>
      rw [Table.place, if_neg hge]
      exact .ok low

theorem insertAll (h : Comparable (table ++ other)) : Succeeds (table.insertAll other) := by
  induction other generalizing table with
  | nil => exact .ok _
  | cons entry other ih =>
      have hkey : ∀ a ∈ table, Succeeds (entry.1.before a.1) :=
        fun a ha => h entry (by simp) a (by simp [ha])
      apply Succeeds.bind (Comparable.place hkey 0 table.length)
      intro index _
      have hperm := ((perm_insertAt entry index table).append_right other).trans
        List.perm_middle.symm
      exact ih (h.subset hperm.subset)

theorem takeRun (h : table.Comparable) (least start : Nat) :
    Succeeds (Table.takeRun least start table) := by
  apply Succeeds.bind h.firstRun
  rintro ⟨run, rest⟩ hrun
  have hperm := perm_firstRun hrun
  have htaken : run ++ rest.take (least - run.length) ⊆ run ++ rest :=
    ((List.take_sublist _ rest).append_left run).subset
  have hentries : Comparable (run ++ rest.take (least - run.length)) :=
    (h.subset hperm.subset).subset htaken
  exact hentries.insertAll.bind fun _ _ => .ok _

/-! ## Merging -/

theorem merge (h : Comparable (table ++ other)) : Succeeds (table.merge other) := by
  induction table, other using Table.merge.induct with
  | case1 second =>
      rw [Table.merge]
      exact .ok second
  | case2 first hne =>
      rw [Table.merge]
      · exact .ok first
      · exact hne
  | case3 a first b second ihsecond ihfirst =>
      rw [Table.merge]
      apply Succeeds.bind (h b (by simp) a (by simp))
      intro isBefore _
      split
      · have hrest : Comparable (a :: first ++ second) := by
          apply h.subset
          exact ((List.sublist_cons_self b second).append_left (a :: first)).subset
        exact (ihsecond hrest).bind fun _ _ => .ok _
      · have hrest : Comparable (first ++ b :: second) := h.subset (List.subset_cons_self a _)
        exact (ihfirst hrest).bind fun _ _ => .ok _

/-- Two runs whose keys can be compared are joined, and what could be compared with both can
be compared with the joined run. -/
theorem join {first second : Run α} {others : Table α}
    (h : Comparable (first.entries ++ (second.entries ++ others))) :
    ∃ joined, first.join second = .ok joined ∧ Comparable (joined.entries ++ others) := by
  rw [← List.append_assoc] at h
  have hpair : Comparable (first.entries ++ second.entries) :=
    h.subset (List.subset_append_left _ _)
  obtain ⟨joined, hjoined⟩ : Succeeds (first.join second) := hpair.merge.bind fun _ _ => .ok _
  exact ⟨joined, hjoined, h.subset ((Run.perm_join hjoined).append_right others).subset⟩

/-- Which of two parts comes first makes no difference. -/
theorem swap {first second third : Table α} (h : Comparable (first ++ (second ++ third))) :
    Comparable (second ++ (first ++ third)) :=
  h.subset (List.perm_append_comm_assoc first second third).symm.subset

theorem settle {last : Run α} {earlier : Earlier α} (depth : Nat)
    (h : Comparable (last.entries ++ entriesOf earlier)) :
    Succeeds (Table.settle depth last earlier) := by
  induction earlier generalizing last with
  | nil => exact .ok _
  | cons first earlier ih =>
      obtain ⟨run, parting⟩ := first
      have hwhole : Comparable (last.entries ++ (run.entries ++ entriesOf earlier)) := h
      rw [Table.settle]
      split
      · obtain ⟨joined, hjoined, hrest⟩ := hwhole.swap.join
        rw [hjoined]
        exact ih hrest
      · exact .ok _

theorem joinAll {last : Run α} {earlier : List (Run α)}
    (h : Comparable (last.entries ++ earlier.flatMap Run.entries)) :
    Succeeds (Table.joinAll last earlier) := by
  induction last, earlier using Table.joinAll.induct with
  | case1 last =>
      rw [Table.joinAll]
      exact .ok last
  | case2 last run =>
      rw [Table.joinAll]
      obtain ⟨joined, hjoined, _⟩ := h.swap.join
      exact ⟨joined, hjoined⟩
  | case3 last second first earlier hshort ih =>
      rw [Table.joinAll, if_pos hshort]
      have hwhole : Comparable (last.entries ++
          (second.entries ++ (first.entries ++ earlier.flatMap Run.entries))) := h
      -- The two runs that are merged are brought to the front.
      have hturned := hwhole.swap
      rw [← List.append_assoc] at hturned
      have hpair := hturned.swap
      rw [List.append_assoc] at hpair
      obtain ⟨joined, hjoined, hrest⟩ := hpair.join
      rw [hjoined]
      exact ih joined hrest.swap
  | case4 last second first earlier hlong ih =>
      rw [Table.joinAll, if_neg hlong]
      have hwhole : Comparable (last.entries ++
          (second.entries ++ (first :: earlier).flatMap Run.entries)) := h
      obtain ⟨joined, hjoined, hrest⟩ := hwhole.swap.join
      rw [hjoined]
      exact ih joined hrest

/-! ## Sorting -/

theorem sortRest {size : Nat} {last : Run α} {earlier : Earlier α}
    (h : Comparable (last.entries ++ entriesOf earlier ++ table)) :
    Succeeds (Table.sortRest size last earlier table) := by
  induction last, earlier, table using Table.sortRest.induct size with
  | case1 last earlier =>
      rw [Table.sortRest]
      have hall : Comparable (last.entries ++ (earlier.map Prod.fst).flatMap Run.entries) := by
        rw [List.flatMap_map]
        exact h.subset (List.subset_append_left _ _)
      exact hall.joinAll.bind fun _ _ => .ok _
  | case2 last earlier entry table obstacle hfails =>
      have hrest : Comparable (entry :: table) := h.subset (List.subset_append_right _ _)
      obtain ⟨taken, htaken⟩ := hrest.takeRun (leastRun size) (last.start + last.entries.length)
      rw [hfails] at htaken
      cases htaken
  | case3 last earlier entry table next rest htaken depth ih =>
      rw [Table.sortRest]
      split
      next hfails =>
        rw [htaken] at hfails
        cases hfails
      next hnext =>
        rw [htaken] at hnext
        cases hnext
        have hsettle : Comparable (last.entries ++ entriesOf earlier) :=
          h.subset (List.subset_append_left _ _)
        apply (hsettle.settle depth).bind
        rintro ⟨settled, others⟩ hsettled
        have hbefore := perm_settle hsettled
        have hafter := perm_takeRun htaken
        apply ih
        apply h.subset
        intro member hmem
        have hrest : member ∈ next.entries ++ rest → member ∈ entry :: table :=
          fun hin => hafter.subset hin
        have hold : member ∈ settled.entries ++ entriesOf others →
            member ∈ last.entries ++ entriesOf earlier := fun hin => hbefore.subset hin
        have hsplit : member ∈ next.entries ∨ member ∈ settled.entries ++ entriesOf others ∨
            member ∈ rest := by
          simpa [entriesOf, or_assoc] using hmem
        simp only [List.mem_append] at hrest hold hsplit ⊢
        grind

/-- A table whose keys can be compared can be sorted. -/
theorem sorted (h : table.Comparable) : Succeeds table.sorted := by
  apply Succeeds.bind (h.takeRun _ 0)
  rintro ⟨run, rest⟩ htaken
  apply sortRest
  rw [entriesOf, List.flatMap_nil, List.append_nil]
  exact h.subset (perm_takeRun htaken).subset

end Comparable

end Table

end MonkeyFrontend
