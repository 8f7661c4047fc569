import MonkeyFrontend.Proofs.Running

/-!
# Rounds make progress

The reader repeats four things: statements of a program, statements of a
block, parameters or arguments after commas, and the growth of an
expression. Each round that gives something leaves fewer tokens than it
found, so by `Parser.many_eq` and `Parser.grow_eq` all four repetitions
unfold as loops without a bound.

Most rounds pass a token on their own account. The round of a block is the
exception: after a broken statement that ended in front of the closing brace
it passes nothing. But then the statement did not begin at that brace, so
dropping it has already passed something.

## Main results

* `Grammar.progresses_programItem`, `Grammar.progresses_blockItem`,
  `Grammar.progresses_nextParameter`, `Grammar.progresses_nextArgument` — for
  every grammar.
* `Operators.progresses_extend` — for every dialect.
-/

namespace MonkeyFrontend

namespace Cursor

/-- A place that is reached and is another place has fewer tokens left. -/
theorem Reaches.size_lt {a b : Cursor} (h : a.Reaches b) (hne : b ≠ a) (hnil : a.tokens ≠ []) :
    b.size < a.size := by
  obtain ⟨count, rfl⟩ := h
  have hpos : 0 < a.size := List.length_pos_iff.mpr hnil
  rw [size_advanceBy]
  cases count with
  | zero => exact absurd rfl hne
  | succ count => omega

theorem size_advance_lt_of_kind {c : Cursor} (h : c.current.kind ≠ .endOfInput) :
    c.advance.size < c.size :=
  size_advance_lt (tokens_ne_nil_of_kind h)

end Cursor

namespace Parser

variable {α β : Type}

/-- A sequence stops with a first part that fails. -/
theorem run_bind_of_value?_eq_none {p : Parser α} {f : α → Parser β} {c : Cursor}
    (h : (p.run c).value? = none) :
    (p >>= f).run c = ⟨none, (p.run c).faults, (p.run c).dropped, (p.run c).rest⟩ := by
  apply run_bind_of_none
  rw [← h]

/-- A sequence goes on where a first part that succeeds has stopped. -/
theorem run_bind_of_value?_eq_some {p : Parser α} {f : α → Parser β} {c : Cursor} {a : α}
    (h : (p.run c).value? = some a) :
    (p >>= f).run c =
      ⟨((f a).run (p.run c).rest).value?, (p.run c).faults ++ ((f a).run (p.run c).rest).faults,
        (p.run c).dropped + ((f a).run (p.run c).rest).dropped,
        ((f a).run (p.run c).rest).rest⟩ := by
  apply run_bind_of_some
  rw [← h]

/-- A sequence that gives a value is a first run that gives one, and a second
run that begins where the first one stopped. -/
theorem value?_bind {p : Parser α} {f : α → Parser β} {c : Cursor} {b : β}
    (h : ((p >>= f).run c).value? = some b) :
    ∃ a, (p.run c).value? = some a ∧ ((f a).run (p.run c).rest).value? = some b ∧
      ((p >>= f).run c).rest = ((f a).run (p.run c).rest).rest := by
  cases hvalue : (p.run c).value? with
  | none =>
      rw [run_bind_of_value?_eq_none hvalue] at h
      cases h
  | some a =>
      rw [run_bind_of_value?_eq_some hvalue] at h ⊢
      exact ⟨a, rfl, h, rfl⟩

end Parser

namespace Grammar

open MonkeyFrontend.Parser

theorem progresses_programItem (grammar : Grammar) : Progresses grammar.programItem := by
  intro c a h
  unfold programItem at h ⊢
  rw [run_current_bind] at h ⊢
  split at h
  · cases h
  next hkind =>
    rw [if_neg hkind]
    have hshort := size_rest_le grammar.statement c
    have hpass := Cursor.size_advance_lt_of_kind hkind
    obtain ⟨statement, _, _, hrest⟩ := value?_bind h
    rw [hrest, run_advance_bind]
    show (grammar.statement.run c).rest.advance.size < c.size
    rw [Cursor.size_advance] at hpass ⊢
    omega

theorem progresses_blockItem (grammar : Grammar) : Progresses grammar.blockItem := by
  intro c a h
  unfold blockItem at h ⊢
  rw [run_current_bind] at h ⊢
  split at h
  · cases h
  next hkind =>
    rw [if_neg hkind]
    rw [not_or] at hkind
    have hnil := Cursor.tokens_ne_nil_of_kind hkind.2
    obtain ⟨statement, _, _, hrest⟩ := value?_bind h
    rw [hrest, run_current_bind]
    have hreach : c.Reaches (grammar.statement.run c).rest := grammar.statement.reaches_rest c
    generalize (grammar.statement.run c).rest = r at hreach
    split
    next hstay =>
      -- The statement stopped at a closing brace, and it did not begin at one.
      have hne : r ≠ c := by
        intro heq
        rw [heq] at hstay
        exact hkind.1 hstay.2
      exact hreach.size_lt hne hnil
    · rw [run_advance_bind]
      show r.advance.size < c.size
      have hpass := Cursor.size_advance_lt hnil
      have hle := hreach.size_le
      rw [Cursor.size_advance] at hpass ⊢
      omega

/-- A round that begins by passing a comma makes progress. -/
private theorem size_of_peek_comma {c : Cursor} (h : c.peek.kind = .comma) :
    c.advance.size < c.size := by
  have hnil : c.advance.tokens ≠ [] := by
    apply Cursor.tokens_ne_nil_of_kind
    show c.peek.kind ≠ .endOfInput
    rw [h]
    decide
  apply Cursor.size_advance_lt
  intro hempty
  exact hnil (by simp [Cursor.advance, hempty])

theorem progresses_nextParameter : Progresses nextParameter := by
  intro c a h
  unfold nextParameter at h ⊢
  rw [run_peek_bind] at h ⊢
  split at h
  next hkind =>
    rw [if_pos hkind, run_advance_bind]
    have hpass := size_of_peek_comma hkind
    have hle := size_rest_le (parameter >>= fun name => pure (some name)) c.advance
    exact Nat.lt_of_le_of_lt hle hpass
  · cases h

theorem progresses_nextArgument (grammar : Grammar) : Progresses grammar.nextArgument := by
  intro c a h
  unfold nextArgument at h ⊢
  rw [run_peek_bind] at h ⊢
  split at h
  next hkind =>
    rw [if_pos hkind, run_advance_bind]
    have hpass := size_of_peek_comma hkind
    exact Nat.lt_of_le_of_lt (size_rest_le _ c.advance) hpass
  · cases h

end Grammar

namespace Operators

open MonkeyFrontend.Parser

/-- In a dialect the end of the input extends nothing, so whatever extends an
expression is there to be passed. -/
theorem progresses_extend (strengths : Strengths) (grammar : Grammar) (weakest : Precedence)
    (left : Expr) : Progresses ((dialect strengths).extend grammar weakest left) := by
  intro c a h
  unfold extend at h ⊢
  rw [run_peek_bind] at h ⊢
  split at h
  · cases h
  next hstrong =>
    rw [if_neg hstrong]
    split at h
    · cases h
    next rule hrule =>
      have hkind : c.peek.kind ≠ .endOfInput := by
        intro heq
        rw [heq] at hrule
        cases hrule
      have hnil : c.tokens ≠ [] := by
        intro hempty
        exact hkind (by simp [Cursor.peek, hempty, Token.endOfInput])
      rw [run_advance_bind]
      exact Nat.lt_of_le_of_lt (size_rest_le _ c.advance) (Cursor.size_advance_lt hnil)

end Operators

end MonkeyFrontend
