import MonkeyFrontend.Proofs.Unfolding

/-!
# Where statements end

Error recovery leaves a broken statement at its end: the first place, from the
statement on, where the input ends, or a semicolon stands at the statement's own
brace depth, or the brace stands there that closes the block around it. The end
is defined by what is written, not by what was read. So it does not depend on
where the reader has got to, as long as it has not got past the end
(`Cursor.Within.skip_eq`).

The second half of the module is about tokens behind an end. A cursor is `Fenced`
if a token ends the statement that the cursor stands in. Everything that is
decided up to there stays the same if other tokens follow, and also if the whole
stands inside some more braces (`Cursor.embed`).

## Main results

* `Cursor.First.unique` — there is only one first place with a property.
* `Cursor.firstEnd_skip` — recovery leaves a statement at its end.
* `Cursor.Within.skip_eq` — from wherever it starts before that.
* `Cursor.Fenced.skip_embed` — recovery is the same with other tokens behind the
  end, and inside more braces.
-/

namespace MonkeyFrontend.Cursor

/-! ## First places -/

/-- No place from `start` on that lies in front of `finish` has the property. -/
def Clear (p : Cursor → Prop) (start finish : Cursor) : Prop :=
  ∃ count, finish = start.advanceBy count ∧
    ∀ earlier, earlier < count → ¬ p (start.advanceBy earlier)

/-- The first place with a property, from `start` on. -/
def First (p : Cursor → Prop) (start finish : Cursor) : Prop :=
  p finish ∧ Clear p start finish

section First

variable {p q : Cursor → Prop} {start middle finish other : Cursor}

theorem Clear.refl (p : Cursor → Prop) (c : Cursor) : Clear p c c :=
  ⟨0, rfl, fun _ hlt => absurd hlt (Nat.not_lt_zero _)⟩

theorem Clear.advance (h : ¬ p start) : Clear p start start.advance := by
  refine ⟨1, rfl, fun earlier hlt => ?_⟩
  obtain rfl : earlier = 0 := by omega
  exact h

theorem Clear.trans (h : Clear p start middle) (h' : Clear p middle finish) :
    Clear p start finish := by
  obtain ⟨first, rfl, hfirst⟩ := h
  obtain ⟨second, rfl, hsecond⟩ := h'
  refine ⟨first + second, (advanceBy_add first second start).symm, fun earlier hlt => ?_⟩
  by_cases hle : earlier < first
  · exact hfirst earlier hle
  · obtain ⟨count, rfl⟩ := Nat.exists_eq_add_of_le (Nat.le_of_not_lt hle)
    rw [advanceBy_add]
    exact hsecond count (by omega)

theorem Clear.mono (h : Clear p start finish) (hqp : ∀ c, q c → p c) : Clear q start finish := by
  obtain ⟨count, rfl, hclear⟩ := h
  exact ⟨count, rfl, fun earlier hlt hq => hclear earlier hlt (hqp _ hq)⟩

/-- The first place with a property is not in front of one that is reached without meeting
the property. -/
theorem First.reaches (h : First p start finish) (hclear : Clear p start middle) :
    middle.Reaches finish := by
  obtain ⟨hp, last, rfl, _⟩ := h
  obtain ⟨count, rfl, hclear⟩ := hclear
  have hle : count ≤ last := Nat.le_of_not_lt fun hlt => hclear last hlt hp
  obtain ⟨more, rfl⟩ := Nat.exists_eq_add_of_le hle
  exact ⟨more, advanceBy_add count more start⟩

/-- There is only one first place. -/
theorem First.unique (h : First p start finish) (h' : First p start other) : finish = other := by
  obtain ⟨hp, count, rfl, hearlier⟩ := h
  obtain ⟨hp', count', rfl, hearlier'⟩ := h'
  rcases Nat.lt_trichotomy count count' with hlt | rfl | hlt
  · exact absurd hp (hearlier' count hlt)
  · rfl
  · exact absurd hp' (hearlier count' hlt)

end First

/-! ## Ends -/

/-- A statement that begins at brace depth `home` ends at this place. -/
def IsEnd (home : Nat) (c : Cursor) : Prop :=
  c.tokens = [] ∨
    c.depth = home ∧ (c.current.kind = .semicolon ∨ c.current.kind = .closeBrace ∧ 0 < home)

/-- The first place, from `start` on, where a statement ends. -/
def FirstEnd (home : Nat) (start finish : Cursor) : Prop :=
  finish.IsEnd home ∧ ∃ count, finish = start.advanceBy count ∧
    ∀ earlier, earlier < count → ¬ (start.advanceBy earlier).IsEnd home

/-- Only tokens that do not end the statement lie between two places. -/
inductive Within (home : Nat) : Cursor → Cursor → Prop
  | refl {c : Cursor} : Within home c c
  | step {c r : Cursor} : ¬ c.IsEnd home → Within home c.advance r → Within home c r

variable {home : Nat} {c m r : Cursor}

theorem endsStatement_eq_true_iff {depth : Nat} {token : Token} :
    endsStatement home depth token = true ↔
      depth = home ∧ (token.kind = .semicolon ∨ token.kind = .closeBrace ∧ 0 < home) := by
  simp [endsStatement]

theorem isEnd_iff_of_tokens_ne_nil (h : c.tokens ≠ []) :
    c.IsEnd home ↔ endsStatement home c.depth c.current = true := by
  rw [endsStatement_eq_true_iff, IsEnd]
  simp [h]

theorem tokens_ne_nil_of_not_isEnd (h : ¬ c.IsEnd home) : c.tokens ≠ [] :=
  fun hnil => h (.inl hnil)

/-- At the end of the input there is nothing to pass. -/
theorem advance_of_tokens_eq_nil (h : c.tokens = []) : c.advance = c := by
  obtain ⟨tokens, depth⟩ := c
  subst h
  rfl

/-! ### Recovery -/

theorem skip_of_isEnd (h : c.IsEnd home) : c.skip home = c := by
  obtain ⟨tokens, depth⟩ := c
  cases tokens with
  | nil => rfl
  | cons token rest =>
      have hends : endsStatement home depth token = true :=
        (isEnd_iff_of_tokens_ne_nil (List.cons_ne_nil token rest)).mp h
      rw [skip_cons, if_pos hends]

theorem skip_of_not_isEnd (h : ¬ c.IsEnd home) : c.skip home = c.advance.skip home := by
  obtain ⟨tokens, depth⟩ := c
  cases tokens with
  | nil => exact absurd (.inl rfl) h
  | cons token rest =>
      have hopen : ¬ endsStatement home depth token = true :=
        fun hends => h ((isEnd_iff_of_tokens_ne_nil (List.cons_ne_nil token rest)).mpr hends)
      rw [skip_cons, if_neg hopen]
      rfl

theorem Within.trans (hcm : c.Within home m) (hmr : m.Within home r) : c.Within home r := by
  induction hcm with
  | refl => exact hmr
  | step hopen _ ih => exact .step hopen (ih hmr)

/-- Recovery leaves a statement at its end, wherever in it the reader has got. -/
theorem Within.skip_eq (h : c.Within home r) : r.skip home = c.skip home := by
  induction h with
  | refl => rfl
  | step hopen _ ih => rw [ih, skip_of_not_isEnd hopen]

theorem within_skip (home : Nat) (c : Cursor) : c.Within home (c.skip home) := by
  induction hsize : c.size using Nat.strongRecOn generalizing c with
  | ind size ih =>
      by_cases hend : c.IsEnd home
      · rw [skip_of_isEnd hend]
        exact .refl
      · rw [skip_of_not_isEnd hend]
        have hshort := size_advance_lt (tokens_ne_nil_of_not_isEnd hend)
        exact .step hend (ih _ (hsize ▸ hshort) _ rfl)

theorem isEnd_skip (home : Nat) (c : Cursor) : (c.skip home).IsEnd home := by
  induction hsize : c.size using Nat.strongRecOn generalizing c with
  | ind size ih =>
      by_cases hend : c.IsEnd home
      · rw [skip_of_isEnd hend]
        exact hend
      · rw [skip_of_not_isEnd hend]
        have hshort := size_advance_lt (tokens_ne_nil_of_not_isEnd hend)
        exact ih _ (hsize ▸ hshort) _ rfl

theorem Within.exists_advanceBy (h : c.Within home r) :
    ∃ count, r = c.advanceBy count ∧
      ∀ earlier, earlier < count → ¬ (c.advanceBy earlier).IsEnd home := by
  induction h with
  | refl => exact ⟨0, rfl, fun _ hlt => absurd hlt (Nat.not_lt_zero _)⟩
  | step hopen _ ih =>
      obtain ⟨count, heq, hearlier⟩ := ih
      refine ⟨count + 1, heq, ?_⟩
      intro earlier hlt
      cases earlier with
      | zero => exact hopen
      | succ earlier => exact hearlier earlier (Nat.lt_of_succ_lt_succ hlt)

/-- Recovery leaves a statement at its end. -/
theorem firstEnd_skip (home : Nat) (c : Cursor) : c.FirstEnd home (c.skip home) :=
  ⟨isEnd_skip home c, (within_skip home c).exists_advanceBy⟩

/-- A place that is reached without passing an end lies before the end. -/
theorem Within.reaches_skip (h : c.Within home r) : r.Reaches (c.skip home) := by
  rw [← h.skip_eq]
  exact Cursor.reaches_skip home r

/-! ### Blocks inside a statement -/

/-- Until the block around it is closed, the reader stays inside. -/
theorem depth_advance_of_not_isEnd (h : ¬ c.IsEnd (home + 1)) (hinside : home < c.depth) :
    home < c.advance.depth := by
  show home < depthAfter c.depth c.current
  unfold depthAfter
  split
  · omega
  next hclose =>
    have hdeep : c.depth ≠ home + 1 := by
      intro hdepth
      exact h (.inr ⟨hdepth, .inr ⟨hclose, Nat.succ_pos home⟩⟩)
    omega
  · exact hinside

theorem not_isEnd_of_lt_depth (hne : c.tokens ≠ []) (hinside : home < c.depth) :
    ¬ c.IsEnd home := by
  rintro (hnil | ⟨hdepth, _⟩)
  · exact hne hnil
  · omega

/-- What lies within a statement of a block lies within the statement around the
block. -/
theorem Within.outer (h : c.Within (home + 1) r) (hinside : home < c.depth) :
    c.Within home r ∧ home < r.depth := by
  induction h with
  | refl => exact ⟨.refl, hinside⟩
  | step hopen _ ih =>
      obtain ⟨hwithin, hdepth⟩ := ih (depth_advance_of_not_isEnd hopen hinside)
      have hne := tokens_ne_nil_of_not_isEnd hopen
      exact ⟨.step (not_isEnd_of_lt_depth hne hinside) hwithin, hdepth⟩

/-! ## Tokens behind an end -/

/-- The same place with `lift` more braces open and with other tokens behind. -/
def embed (lift : Nat) (more : List Token) (c : Cursor) : Cursor :=
  ⟨c.tokens ++ more, c.depth + lift⟩

/-- A token ends the statement that the cursor stands in. If there are to be more
braces around, no closing brace before that is one too many. -/
inductive Fenced (lift home : Nat) : Cursor → Prop
  | stop {c : Cursor} : endsStatement home c.depth c.current = true → Fenced lift home c
  | step {c : Cursor} : c.tokens ≠ [] →
    lift = 0 ∨ 0 < c.depth ∨ c.current.kind ≠ .closeBrace → Fenced lift home c.advance →
      Fenced lift home c

variable {lift : Nat} {more : List Token}

theorem tokens_ne_nil_of_endsStatement (h : endsStatement home c.depth c.current = true) :
    c.tokens ≠ [] := by
  apply tokens_ne_nil_of_kind
  rw [endsStatement_eq_true_iff] at h
  intro hend
  rw [hend] at h
  simp at h

namespace Fenced

theorem tokens_ne_nil (h : c.Fenced lift home) : c.tokens ≠ [] := by
  cases h with
  | stop hends => exact tokens_ne_nil_of_endsStatement hends
  | step hne _ _ => exact hne

/-- A fence is still ahead of a place that is no end. -/
theorem advance (h : c.Fenced lift home) (hopen : ¬ c.IsEnd home) :
    c.advance.Fenced lift home ∧ (lift = 0 ∨ 0 < c.depth ∨ c.current.kind ≠ .closeBrace) := by
  cases h with
  | stop hends =>
      have hne := tokens_ne_nil_of_endsStatement hends
      exact absurd ((isEnd_iff_of_tokens_ne_nil hne).mpr hends) hopen
  | step _ hbrace hrest => exact ⟨hrest, hbrace⟩

theorem within (h : c.Fenced lift home) (hr : c.Within home r) : r.Fenced lift home := by
  induction hr with
  | refl => exact h
  | step hopen _ ih => exact ih (h.advance hopen).1

/-- The fence of a statement closes the blocks in it. -/
theorem inner (h : c.Fenced lift home) (hinside : home < c.depth) : c.Fenced lift (home + 1) := by
  induction h with
  | stop hends =>
      rw [endsStatement_eq_true_iff] at hends
      omega
  | @step c hne hbrace _ ih =>
      by_cases hends : endsStatement (home + 1) c.depth c.current = true
      · exact .stop hends
      · rw [← isEnd_iff_of_tokens_ne_nil hne] at hends
        exact .step hne hbrace (ih (depth_advance_of_not_isEnd hends hinside))

end Fenced

/-! ### What is the same with other tokens behind -/

theorem current_embed (h : c.tokens ≠ []) : (c.embed lift more).current = c.current := by
  obtain ⟨tokens, depth⟩ := c
  cases tokens with
  | nil => exact absurd rfl h
  | cons token rest => rfl

theorem advance_embed (h : c.tokens ≠ [])
    (hbrace : lift = 0 ∨ 0 < c.depth ∨ c.current.kind ≠ .closeBrace) :
    (c.embed lift more).advance = c.advance.embed lift more := by
  have hdepth : depthAfter (c.depth + lift) c.current = depthAfter c.depth c.current + lift := by
    unfold depthAfter
    split
    · omega
    next hclose =>
      have hpos : lift = 0 ∨ 0 < c.depth := by
        rcases hbrace with hzero | hpos | hne
        · exact .inl hzero
        · exact .inr hpos
        · exact absurd hclose hne
      omega
    · rfl
  have htail : (c.tokens ++ more).tail = c.tokens.tail ++ more := List.tail_append_of_ne_nil h
  show Cursor.mk (c.tokens ++ more).tail (depthAfter (c.depth + lift) _) = _
  rw [htail, current_embed h, hdepth]
  rfl

/-- Before its fence a statement goes on as it would without the other tokens. -/
theorem Fenced.advance_embed (h : c.Fenced lift home) (hopen : ¬ c.IsEnd home) :
    (c.embed lift more).advance = c.advance.embed lift more :=
  Cursor.advance_embed h.tokens_ne_nil (h.advance hopen).2

theorem Fenced.peek_embed (h : c.Fenced lift home) (hopen : ¬ c.IsEnd home) :
    (c.embed lift more).peek = c.peek := by
  show (c.embed lift more).advance.current = c.advance.current
  rw [h.advance_embed hopen, current_embed (h.advance hopen).1.tokens_ne_nil]

theorem isEnd_embed_iff (h : c.Fenced lift home) :
    (c.embed lift more).IsEnd (home + lift) ↔ c.IsEnd home := by
  have hne := h.tokens_ne_nil
  have hne' : (c.embed lift more).tokens ≠ [] := by
    intro hnil
    exact hne (List.append_eq_nil_iff.mp hnil).1
  have hdepth : (c.embed lift more).depth = c.depth + lift := rfl
  rw [isEnd_iff_of_tokens_ne_nil hne', isEnd_iff_of_tokens_ne_nil hne, current_embed hne, hdepth,
    endsStatement_eq_true_iff, endsStatement_eq_true_iff]
  constructor
  · rintro ⟨heq, hkind⟩
    have hhome : c.depth = home := by omega
    refine ⟨hhome, hkind.imp_right fun ⟨hclose, hpos⟩ => ⟨hclose, ?_⟩⟩
    by_cases hend : endsStatement home c.depth c.current = true
    · rcases (endsStatement_eq_true_iff.mp hend).2 with hsemi | hbrace
      · exact absurd (hclose.symm.trans hsemi) (by decide)
      · exact hbrace.2
    · rw [← isEnd_iff_of_tokens_ne_nil hne] at hend
      rcases (h.advance hend).2 with hzero | hdeep | hopen
      · omega
      · omega
      · exact absurd hclose hopen
  · rintro ⟨rfl, hkind⟩
    refine ⟨rfl, hkind.imp_right fun ⟨hclose, hpos⟩ => ⟨hclose, ?_⟩⟩
    omega

/-- Recovery is the same with other tokens behind the end, and inside more braces. -/
theorem Fenced.skip_embed (h : c.Fenced lift home) :
    (c.embed lift more).skip (home + lift) = (c.skip home).embed lift more := by
  induction hsize : c.size using Nat.strongRecOn generalizing c with
  | ind size ih =>
      by_cases hend : c.IsEnd home
      · rw [skip_of_isEnd hend, skip_of_isEnd ((isEnd_embed_iff h).mpr hend)]
      · have hopen : ¬ (c.embed lift more).IsEnd (home + lift) :=
          fun hend' => hend ((isEnd_embed_iff h).mp hend')
        rw [skip_of_not_isEnd hend, skip_of_not_isEnd hopen, h.advance_embed hend]
        have hshort := size_advance_lt h.tokens_ne_nil
        exact ih _ (hsize ▸ hshort) (h.advance hend).1 rfl

end MonkeyFrontend.Cursor
