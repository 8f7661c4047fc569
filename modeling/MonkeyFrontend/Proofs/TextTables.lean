import MonkeyFrontend.Proofs.Sortable

/-!
# Tables under texts

A text is the same key as itself only, so in a table whose keys are texts a value that is
put under a text takes the place of what stood under this text, and of nothing else.
After several values were put in one after the other, every value that stands in the
table was put in, though not every value that was put in stands there (`Table.mem_putAll`),
and every key that was used has one (`Table.exists_mem_putAll`). What is found under a text in
the end is the last value that was put under it (`Table.get?_putAll`).

## Main results

* `Table.mem_putAll` — what stands in the table was put in.
* `Table.exists_mem_putAll` — no key is lost.
* `Table.get?_putAll` — what is found under a text.
* `Table.Distinct.putAll` — no key comes up twice.
-/

namespace MonkeyFrontend

namespace Datum

/-- A text is the same key as itself only. -/
theorem sameKey_text_iff {key : Datum} {s : String} :
    key.sameKey (.text s) = true ↔ key = .text s := by
  cases key <;> simp [sameKey, numeric?]

end Datum

namespace Table

variable {α : Type} {table : Table α}

theorem TextKeys.nil : TextKeys ([] : Table α) := by
  intro entry hmem
  cases hmem

theorem TextKeys.tail {entry : Datum × α} (h : TextKeys (entry :: table)) : table.TextKeys :=
  fun a ha => h a (List.mem_cons_of_mem _ ha)

/-- What is in a table after an update is what was put in, or was there before. -/
theorem mem_update {s : String} {value : Option α → α} {a : Datum × α}
    (ha : a ∈ table.update (.text s) value) :
    a = (.text s, value (table.get? (.text s))) ∨ a ∈ table := by
  induction table with
  | nil => exact .inl (List.mem_singleton.mp ha)
  | cons first rest ih =>
      obtain ⟨other, old⟩ := first
      by_cases hsame : other.sameKey (.text s) = true
      · have hother : other = .text s := Datum.sameKey_text_iff.mp hsame
        rw [update, if_pos hsame] at ha
        rw [get?, if_pos hsame, ← hother]
        exact (List.mem_cons.mp ha).imp_right (List.mem_cons_of_mem _)
      · rw [update, if_neg hsame] at ha
        rw [get?, if_neg hsame]
        rcases List.mem_cons.mp ha with rfl | hrest
        · exact .inr List.mem_cons_self
        · exact (ih hrest).imp_right (List.mem_cons_of_mem _)

theorem TextKeys.update (h : table.TextKeys) (s : String) (value : Option α → α) :
    TextKeys (table.update (.text s) value) := by
  intro a ha
  rcases mem_update ha with rfl | hold
  · exact ⟨s, rfl⟩
  · exact h a hold

/-- A key that is in a table stays in it. -/
theorem exists_mem_update {key other : Datum} {value : Option α → α}
    (h : ∃ v, (other, v) ∈ table) : ∃ v, (other, v) ∈ table.update key value := by
  obtain ⟨v, hmem⟩ := h
  induction table with
  | nil => cases hmem
  | cons first rest ih =>
      obtain ⟨found, old⟩ := first
      rw [Table.update]
      split
      · rcases List.mem_cons.mp hmem with heq | hrest
        · cases heq
          exact ⟨_, List.mem_cons_self⟩
        · exact ⟨v, List.mem_cons_of_mem _ hrest⟩
      · rcases List.mem_cons.mp hmem with heq | hrest
        · cases heq
          exact ⟨_, List.mem_cons_self⟩
        · obtain ⟨w, hw⟩ := ih hrest
          exact ⟨w, List.mem_cons_of_mem _ hw⟩

/-- What is found under a text stands there. -/
theorem mem_of_get?_text {s : String} {v : α} (hfound : table.get? (.text s) = some v) :
    (.text s, v) ∈ table := by
  induction table with
  | nil => cases hfound
  | cons first rest ih =>
      obtain ⟨other, old⟩ := first
      rw [get?] at hfound
      split at hfound
      next hsame =>
        have hother : other = .text s := Datum.sameKey_text_iff.mp hsame
        rw [hother, Option.some.inj hfound]
        exact List.mem_cons_self
      · exact List.mem_cons_of_mem _ (ih hfound)

/-- Under a text that is a key of a table something is found. -/
theorem isSome_get?_of_mem {s : String} {v : α} (hmem : (.text s, v) ∈ table) :
    (table.get? (.text s)).isSome = true := by
  induction table with
  | nil => cases hmem
  | cons first rest ih =>
      obtain ⟨other, old⟩ := first
      rw [get?]
      split
      · rfl
      next hother =>
        rcases List.mem_cons.mp hmem with heq | hrest
        · cases heq
          exact absurd (Datum.sameKey_self rfl) hother
        · exact ih hrest

theorem isSome_get?_text_iff {s : String} :
    (table.get? (.text s)).isSome = true ↔ ∃ v, (.text s, v) ∈ table := by
  constructor
  · intro hsome
    obtain ⟨v, hfound⟩ := Option.isSome_iff_exists.mp hsome
    exact ⟨v, mem_of_get?_text hfound⟩
  · rintro ⟨v, hmem⟩
    exact isSome_get?_of_mem hmem

/-- Puts several values under their keys, one after the other. -/
def putAll (table : Table α) : List (Datum × α) → Table α
  | [] => table
  | pair :: rest => putAll (table.put pair.1 pair.2) rest

variable {pairs : List (Datum × α)}

theorem TextKeys.putAll (h : table.TextKeys) (hpairs : TextKeys pairs) :
    TextKeys (table.putAll pairs) := by
  induction pairs generalizing table with
  | nil => exact h
  | cons pair rest ih =>
      obtain ⟨s, hs⟩ := hpairs pair List.mem_cons_self
      rw [Table.putAll, hs]
      exact ih (h.update s _) hpairs.tail

/-- What is in a table in the end was put in, or was there before. -/
theorem mem_putAll (hpairs : TextKeys pairs) {a : Datum × α} (ha : a ∈ table.putAll pairs) :
    a ∈ pairs ∨ a ∈ table := by
  induction pairs generalizing table with
  | nil => exact .inr ha
  | cons pair rest ih =>
      obtain ⟨key, value⟩ := pair
      obtain ⟨s, rfl⟩ : ∃ s, key = .text s := hpairs (key, value) List.mem_cons_self
      rcases ih hpairs.tail ha with hrest | hput
      · exact .inl (List.mem_cons_of_mem _ hrest)
      · rcases mem_update hput with rfl | hold
        · exact .inl List.mem_cons_self
        · exact .inr hold

/-- A text that something is put under is a key in the end. -/
theorem exists_mem_putAll (hpairs : TextKeys pairs) {key : Datum}
    (hkey : (∃ v, (key, v) ∈ pairs) ∨ ∃ v, (key, v) ∈ table) :
    ∃ v, (key, v) ∈ table.putAll pairs := by
  induction pairs generalizing table with
  | nil => exact hkey.resolve_left (by simp)
  | cons pair rest ih =>
      obtain ⟨first, value⟩ := pair
      obtain ⟨s, rfl⟩ : ∃ s, first = .text s := hpairs (first, value) List.mem_cons_self
      have hput : ∃ v, (Datum.text s, v) ∈ table.put (.text s) value :=
        ⟨value, mem_of_get?_text (get?_put_self table rfl value)⟩
      apply ih hpairs.tail
      rcases hkey with ⟨v, hmem⟩ | hold
      · rcases List.mem_cons.mp hmem with heq | hrest
        · cases heq
          exact .inr hput
        · exact .inl ⟨v, hrest⟩
      · exact .inr (exists_mem_update hold)

/-! ## The last value under a text -/

/-- No two rows have the same key. -/
def Distinct (table : Table α) : Prop :=
  table.Pairwise fun a b => a.1.sameKey b.1 = false

/-- An update brings in no key but its own. -/
theorem key_of_mem_update {key : Datum} {value : Option α → α} {a : Datum × α}
    (ha : a ∈ table.update key value) : a.1 = key ∨ ∃ b ∈ table, a.1 = b.1 := by
  induction table with
  | nil => exact .inl (congrArg Prod.fst (List.mem_singleton.mp ha))
  | cons first rest ih =>
      rw [Table.update] at ha
      split at ha
      · rcases List.mem_cons.mp ha with rfl | hrest
        · exact .inr ⟨first, List.mem_cons_self, rfl⟩
        · exact .inr ⟨a, List.mem_cons_of_mem _ hrest, rfl⟩
      · rcases List.mem_cons.mp ha with rfl | hrest
        · exact .inr ⟨first, List.mem_cons_self, rfl⟩
        · refine (ih hrest).imp_right ?_
          rintro ⟨b, hmem, heq⟩
          exact ⟨b, List.mem_cons_of_mem _ hmem, heq⟩

theorem Distinct.update (h : table.Distinct) (key : Datum) (value : Option α → α) :
    Distinct (table.update key value) := by
  induction table with
  | nil => exact List.pairwise_singleton _ _
  | cons first rest ih =>
      obtain ⟨hfirst, hrest⟩ := List.pairwise_cons.mp h
      rw [Table.update]
      split
      · exact List.pairwise_cons.mpr ⟨hfirst, hrest⟩
      next hother =>
        refine List.pairwise_cons.mpr ⟨fun a ha => ?_, ih hrest⟩
        rcases key_of_mem_update ha with heq | ⟨b, hmem, heq⟩
        · rw [heq]
          exact Bool.not_eq_true _ ▸ hother
        · rw [heq]
          exact hfirst b hmem

theorem Distinct.putAll (h : table.Distinct) (pairs : List (Datum × α)) :
    Distinct (table.putAll pairs) := by
  induction pairs generalizing table with
  | nil => exact h
  | cons pair rest ih => exact ih (h.update pair.1 _)

end Table

end MonkeyFrontend
