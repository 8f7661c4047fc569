import MonkeyFrontend.Proofs.Accounting

/-!
# Clean runs

A run is clean if it gives a value and reports nothing. Clean runs compose
as relations do: a sequence runs cleanly from one place to another with some
value if its parts do, by way of some place between (`Parser.yields_bind`).
So a parser can be read off as a relation between a place, a value and a
place, `Parser.Yields`, and everything about faults is left behind.

What a clean run has read is the list of tokens that its two places span.
Constructs stop on their last token, so the list includes the token at the
second place; `Cursor.Spans` is that relation, and `Cursor.Passes` is the
one for lists that end just before the second place.

## Main results

* `Cursor.spans_iff` — a list is spanned if it is not empty and begins the
  tokens that are left.
* `Parser.yields_bind` — clean runs compose as relations.
* `Parser.yields_many` — a repetition is clean if all its rounds are.
* `Parser.Yields.grow_invariant` — what every step of a clean growth keeps
  holds where no further step follows.
-/

namespace MonkeyFrontend

/-! ## Tokens between two places -/

namespace Cursor

/-- The tokens from one place up to another one, which is past the last of them. -/
inductive Passes : Cursor → List Token → Cursor → Prop
  | nil {c : Cursor} : Passes c [] c
  | cons {c r : Cursor} {t : Token} {ts : List Token} :
    c.tokens.head? = some t → Passes c.advance ts r → Passes c (t :: ts) r

/-- The tokens from one place up to another one, which is at the last of them. -/
inductive Spans : Cursor → List Token → Cursor → Prop
  | single {c : Cursor} {t : Token} : c.tokens.head? = some t → Spans c [t] c
  | cons {c r : Cursor} {t : Token} {ts : List Token} :
    c.tokens.head? = some t → Spans c.advance ts r → Spans c (t :: ts) r

theorem current_of_head? {c : Cursor} {t : Token} (h : c.tokens.head? = some t) :
    c.current = t := by
  rw [current, List.headD_eq_head?_getD, h, Option.getD_some]

theorem head?_of_kind {c : Cursor} (h : c.current.kind ≠ .endOfInput) :
    c.tokens.head? = some c.current :=
  head?_of_tokens_ne_nil (tokens_ne_nil_of_kind h)

theorem tokens_of_head? {c : Cursor} {t : Token} (h : c.tokens.head? = some t) :
    c.tokens = t :: c.advance.tokens := by
  obtain ⟨_, htail⟩ := List.head?_eq_some_iff.mp h
  rw [advance, htail]
  rfl

theorem Passes.tokens {c r : Cursor} {ts : List Token} (h : c.Passes ts r) :
    c.tokens = ts ++ r.tokens := by
  induction h with
  | nil => rfl
  | cons hhead _ ih => rw [tokens_of_head? hhead, ih, List.cons_append]

theorem Passes.append {c m r : Cursor} {ts us : List Token} (h : c.Passes ts m)
    (hrest : m.Passes us r) : c.Passes (ts ++ us) r := by
  induction h with
  | nil => exact hrest
  | cons hhead _ ih => exact .cons hhead (ih hrest)

theorem Passes.split {us : List Token} {c r : Cursor} :
    ∀ {ts : List Token}, c.Passes (ts ++ us) r → ∃ m, c.Passes ts m ∧ m.Passes us r := by
  intro ts h
  induction ts generalizing c with
  | nil => exact ⟨c, .nil, h⟩
  | cons t ts ih =>
      cases h with
      | cons hhead hrest =>
          obtain ⟨m, hfirst, hsecond⟩ := ih hrest
          exact ⟨m, .cons hhead hfirst, hsecond⟩

/-- A list that begins the tokens that are left is passed. -/
theorem passes_advanceBy {ts : List Token} {c : Cursor} (h : ts <+: c.tokens) :
    c.Passes ts (c.advanceBy ts.length) := by
  induction ts generalizing c with
  | nil => exact .nil
  | cons t ts ih =>
      obtain ⟨rest, hrest⟩ := h
      have hhead : c.tokens.head? = some t := by
        rw [← hrest]
        rfl
      refine .cons hhead (ih ⟨rest, ?_⟩)
      rw [tokens_of_head? hhead, List.cons_append] at hrest
      exact List.tail_eq_of_cons_eq hrest

/-! ### Spanned lists -/

theorem Spans.ne_nil {c r : Cursor} {ts : List Token} (h : c.Spans ts r) : ts ≠ [] := by
  cases h <;> exact List.cons_ne_nil _ _

theorem Spans.head? {c r : Cursor} {ts : List Token} (h : c.Spans ts r) :
    ts.head? = some c.current := by
  cases h with
  | single hhead => rw [current_of_head? hhead]; rfl
  | cons hhead _ => rw [current_of_head? hhead]; rfl

theorem Spans.passes {c r : Cursor} {ts : List Token} (h : c.Spans ts r) :
    c.Passes ts r.advance := by
  induction h with
  | single hhead => exact .cons hhead .nil
  | cons hhead _ ih => exact .cons hhead ih

theorem Passes.spans {c m r : Cursor} {ts us : List Token} (h : c.Passes ts m)
    (hrest : m.Spans us r) : c.Spans (ts ++ us) r := by
  induction h with
  | nil => exact hrest
  | cons hhead _ ih => exact .cons hhead (ih hrest)

theorem Spans.append {c m r : Cursor} {ts us : List Token} (h : c.Spans ts m)
    (hrest : m.advance.Spans us r) : c.Spans (ts ++ us) r :=
  h.passes.spans hrest

/-- A list that is passed and has a last token is spanned up to that token. -/
theorem Passes.exists_spans {c m : Cursor} {ts : List Token} (h : c.Passes ts m)
    (hne : ts ≠ []) : ∃ r, c.Spans ts r ∧ m = r.advance := by
  induction h with
  | nil => exact absurd rfl hne
  | @cons c r t ts hhead hrest ih =>
      cases hts : ts with
      | nil =>
          subst hts
          cases hrest
          exact ⟨c, .single hhead, rfl⟩
      | cons u us =>
          obtain ⟨last, hspan, hlast⟩ := ih (by simp [hts])
          rw [← hts]
          exact ⟨last, .cons hhead hspan, hlast⟩

theorem Spans.split {us : List Token} {c r : Cursor} :
    ∀ {ts : List Token}, c.Spans (ts ++ us) r → us ≠ [] → ∃ m, c.Passes ts m ∧ m.Spans us r := by
  intro ts h hne
  induction ts generalizing c with
  | nil => exact ⟨c, .nil, h⟩
  | cons t ts ih =>
      generalize hall : t :: ts ++ us = all at h
      cases h with
      | single hhead =>
          have hnil : ts ++ us = [] := by simpa using congrArg List.tail hall
          exact absurd (List.append_eq_nil_iff.mp hnil).2 hne
      | cons hhead hrest =>
          rw [List.cons_append] at hall
          injection hall with ht hts
          subst ht
          rw [← hts] at hrest
          obtain ⟨m, hpass, hspan⟩ := ih hrest
          exact ⟨m, .cons hhead hpass, hspan⟩

/-- Two lists in a row are spanned one after the other. -/
theorem Spans.split_spans {ts us : List Token} {c r : Cursor} (h : c.Spans (ts ++ us) r)
    (hts : ts ≠ []) (hus : us ≠ []) : ∃ m, c.Spans ts m ∧ m.advance.Spans us r := by
  obtain ⟨m, hpass, hspan⟩ := h.split hus
  obtain ⟨last, hfirst, rfl⟩ := hpass.exists_spans hts
  exact ⟨last, hfirst, hspan⟩

theorem spans_single_iff {c r : Cursor} {t : Token} :
    c.Spans [t] r ↔ c.tokens.head? = some t ∧ r = c := by
  constructor
  · intro h
    cases h with
    | single hhead => exact ⟨hhead, rfl⟩
    | cons _ hrest => cases hrest
  · rintro ⟨hhead, rfl⟩
    exact .single hhead

theorem spans_cons_iff {c r : Cursor} {t : Token} {ts : List Token} (hne : ts ≠ []) :
    c.Spans (t :: ts) r ↔ c.tokens.head? = some t ∧ c.advance.Spans ts r := by
  constructor
  · intro h
    cases h with
    | single => exact absurd rfl hne
    | cons hhead hrest => exact ⟨hhead, hrest⟩
  · rintro ⟨hhead, hrest⟩
    exact .cons hhead hrest

/-- A token that is no end of input is there to be spanned or passed. -/
theorem head?_of_kind_eq {c : Cursor} {kind : Kind} (hkind : c.current.kind = kind)
    (hne : kind ≠ .endOfInput) : c.tokens.head? = some c.current :=
  head?_of_kind (by rw [hkind]; exact hne)

theorem Spans.cons_kind {c r : Cursor} {kind : Kind} {xs : List Token}
    (hkind : c.current.kind = kind) (hne : kind ≠ .endOfInput) (h : c.advance.Spans xs r) :
    c.Spans (c.current :: xs) r :=
  .cons (head?_of_kind_eq hkind hne) h

theorem Passes.cons_kind {c r : Cursor} {kind : Kind} {xs : List Token}
    (hkind : c.current.kind = kind) (hne : kind ≠ .endOfInput) (h : c.advance.Passes xs r) :
    c.Passes (c.current :: xs) r :=
  .cons (head?_of_kind_eq hkind hne) h

theorem Passes.spans_kind {c r : Cursor} {kind : Kind} {xs : List Token} (h : c.Passes xs r)
    (hkind : r.current.kind = kind) (hne : kind ≠ .endOfInput) :
    c.Spans (xs ++ [r.current]) r :=
  h.spans (.single (head?_of_kind_eq hkind hne))

theorem Spans.eq_advanceBy {c r : Cursor} {ts : List Token} (h : c.Spans ts r) :
    r = c.advanceBy (ts.length - 1) := by
  induction h with
  | single => rfl
  | @cons c r t ts _ hrest ih =>
      have hpos : 0 < ts.length := List.length_pos_iff.mpr hrest.ne_nil
      rw [ih, List.length_cons, show ts.length + 1 - 1 = ts.length - 1 + 1 by omega]
      rfl

/-- A list is spanned if it is not empty and begins the tokens that are left;
the second place is then as many tokens on as the list is long, less one. -/
theorem spans_iff {c r : Cursor} {ts : List Token} :
    c.Spans ts r ↔ ts ≠ [] ∧ ts <+: c.tokens ∧ r = c.advanceBy (ts.length - 1) := by
  constructor
  · intro h
    exact ⟨h.ne_nil, ⟨_, h.passes.tokens.symm⟩, h.eq_advanceBy⟩
  · rintro ⟨hne, hpre, rfl⟩
    obtain ⟨r, hspan, _⟩ := (passes_advanceBy hpre).exists_spans hne
    rw [← hspan.eq_advanceBy]
    exact hspan

end Cursor

/-! ## Clean runs of combinators -/

namespace Parser

variable {α β : Type}

/-- The parser runs from `c` to `r`, gives the value `a` and reports nothing. -/
def Yields (p : Parser α) (c : Cursor) (a : α) (r : Cursor) : Prop :=
  (p.run c).value? = some a ∧ (p.run c).faults = [] ∧ (p.run c).rest = r

theorem yields_congr {p q : Parser α} {c d : Cursor} (h : p.run c = q.run d) {a : α} {r : Cursor} :
    p.Yields c a r ↔ q.Yields d a r := by
  rw [Yields, Yields, h]

/-- A sequence is clean if both of its parts are. -/
theorem yields_bind {p : Parser α} {f : α → Parser β} {c r : Cursor} {b : β} :
    (p >>= f).Yields c b r ↔ ∃ a m, p.Yields c a m ∧ (f a).Yields m b r := by
  unfold Yields
  rw [run_bind]
  unfold Outcome.andThen
  constructor
  · intro h
    split at h
    · cases h.1
    next a found =>
      obtain ⟨hvalue, hfaults, hrest⟩ := h
      obtain ⟨hfirst, hsecond⟩ := List.append_eq_nil_iff.mp hfaults
      exact ⟨a, _, ⟨found, hfirst, rfl⟩, hvalue, hsecond, hrest⟩
  · rintro ⟨a, m, ⟨hvalue, hfaults, rfl⟩, hnext⟩
    rw [hvalue]
    simpa [hfaults] using hnext

theorem yields_pure {a b : α} {c r : Cursor} :
    (pure a : Parser α).Yields c b r ↔ b = a ∧ r = c := by
  simp [Yields, run_pure, eq_comm]

/-- A sequence that ends by wrapping up a value. -/
theorem yields_bind_pure {p : Parser α} {f : α → β} {c r : Cursor} {b : β} :
    (p >>= fun a => pure (f a)).Yields c b r ↔ ∃ a, p.Yields c a r ∧ b = f a := by
  rw [yields_bind]
  constructor
  · rintro ⟨a, m, hfirst, hpure⟩
    obtain ⟨rfl, rfl⟩ := yields_pure.mp hpure
    exact ⟨a, hfirst, rfl⟩
  · rintro ⟨a, hfirst, rfl⟩
    exact ⟨a, r, hfirst, yields_pure.mpr ⟨rfl, rfl⟩⟩

theorem yields_abort {fault : Fault} {a : α} {c r : Cursor} :
    (abort fault : Parser α).Yields c a r ↔ False := by
  simp [Yields, abort]

theorem yields_fail {a : α} {c r : Cursor} : (fail : Parser α).Yields c a r ↔ False := by
  simp [Yields, fail]

theorem yields_current_bind {f : Token → Parser β} {c r : Cursor} {b : β} :
    (current >>= f).Yields c b r ↔ (f c.current).Yields c b r :=
  yields_congr (run_current_bind f c)

theorem yields_peek_bind {f : Token → Parser β} {c r : Cursor} {b : β} :
    (peek >>= f).Yields c b r ↔ (f c.peek).Yields c b r :=
  yields_congr (run_peek_bind f c)

theorem yields_advance_bind {f : Unit → Parser β} {c r : Cursor} {b : β} :
    (advance >>= f).Yields c b r ↔ (f ()).Yields c.advance b r :=
  yields_congr (run_advance_bind f c)

/-- An expected token is there and is passed onto. -/
theorem yields_expect_bind {kind : Kind} {f : Unit → Parser β} {c r : Cursor} {b : β} :
    (expect kind >>= f).Yields c b r ↔ c.peek.kind = kind ∧ (f ()).Yields c.advance b r := by
  rw [yields_bind]
  unfold expect Reading.expect
  simp only [yields_peek_bind]
  constructor
  · rintro ⟨u, m, hfirst, hsecond⟩
    split at hfirst
    next hkind =>
      obtain ⟨_, _, rfl⟩ := hfirst
      exact ⟨hkind, hsecond⟩
    · exact (yields_abort.mp hfirst).elim
  · rintro ⟨hkind, hsecond⟩
    refine ⟨(), c.advance, ?_, hsecond⟩
    rw [if_pos hkind]
    exact ⟨rfl, rfl, rfl⟩

/-! ### Repetitions -/

/-- The rounds of a clean repetition, from place to place. -/
inductive Rounds (item : Parser (Option α)) : Cursor → List α → Cursor → Prop
  | stop {c r : Cursor} : item.Yields c none r → Rounds item c [] r
  | more {c m r : Cursor} {a : α} {rest : List α} :
    item.Yields c (some a) m → Rounds item m rest r → Rounds item c (a :: rest) r

theorem rounds_of_yields_manyWithin {item : Parser (Option α)} {bound : Nat} :
    ∀ {found : List α} {c r : Cursor},
      (manyWithin item bound).Yields c found r → Rounds item c found r := by
  induction bound with
  | zero => intro found c r h; exact (yields_fail.mp h).elim
  | succ bound ih =>
      intro found c r h
      unfold manyWithin at h
      obtain ⟨first, m, hfirst, hnext⟩ := yields_bind.mp h
      cases first with
      | none =>
          obtain ⟨rfl, rfl⟩ := yields_pure.mp hnext
          exact .stop hfirst
      | some a =>
          obtain ⟨rest, _, hrest, hpure⟩ := yields_bind.mp hnext
          obtain ⟨rfl, rfl⟩ := yields_pure.mp hpure
          exact .more hfirst (ih hrest)

/-- A repetition is clean if all of its rounds are. -/
theorem yields_many {item : Parser (Option α)} (hround : Progresses item) {found : List α}
    {c r : Cursor} : (many item).Yields c found r ↔ Rounds item c found r := by
  constructor
  · intro h
    have hwithin : (manyWithin item (c.size + 1)).Yields c found r := h
    exact rounds_of_yields_manyWithin hwithin
  · intro h
    induction h with
    | stop hnone =>
        rw [many_eq hround]
        exact yields_bind.mpr ⟨none, _, hnone, yields_pure.mpr ⟨rfl, rfl⟩⟩
    | more hsome _ ih =>
        rw [many_eq hround]
        refine yields_bind.mpr ⟨_, _, hsome, ?_⟩
        exact yields_bind.mpr ⟨_, _, ih, yields_pure.mpr ⟨rfl, rfl⟩⟩

theorem yields_grow_of_none {step : α → Parser (Option α)} (hround : ∀ a, Progresses (step a))
    {value : α} {c r : Cursor} (h : (step value).Yields c none r) :
    (grow step value).Yields c value r := by
  rw [grow_eq hround]
  exact yields_bind.mpr ⟨none, r, h, yields_pure.mpr ⟨rfl, rfl⟩⟩

theorem yields_grow_of_some {step : α → Parser (Option α)} (hround : ∀ a, Progresses (step a))
    {value grown result : α} {c m r : Cursor} (h : (step value).Yields c (some grown) m)
    (hrest : (grow step grown).Yields m result r) : (grow step value).Yields c result r := by
  rw [grow_eq hround]
  exact yields_bind.mpr ⟨some grown, m, h, hrest⟩

/-- What every step of a clean growth keeps holds at its end, where no step
follows. -/
theorem Yields.grow_invariant {step : α → Parser (Option α)} {keeps : α → Cursor → Prop}
    (hstep : ∀ {a b c m}, keeps a c → (step a).Yields c (some b) m → keeps b m)
    {value result : α} {c r : Cursor} (h : (grow step value).Yields c result r)
    (hstart : keeps value c) : ∃ m, keeps result m ∧ (step result).Yields m none r := by
  replace h : (growWithin step (c.size + 1) value).Yields c result r := h
  generalize c.size + 1 = bound at h
  induction bound generalizing value c with
  | zero => exact (yields_fail.mp h).elim
  | succ bound ih =>
      unfold growWithin at h
      obtain ⟨found, m, hfirst, hnext⟩ := yields_bind.mp h
      cases found with
      | none =>
          obtain ⟨rfl, rfl⟩ := yields_pure.mp hnext
          exact ⟨c, hstart, hfirst⟩
      | some grown => exact ih (hstep hstart hfirst) hnext

end Parser

end MonkeyFrontend
