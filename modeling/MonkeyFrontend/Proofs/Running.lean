import MonkeyFrontend.Proofs.Strengths

/-!
# Running parsers

What comes of a parser that begins with a look at its place, or with a step past the token at it,
and what comes of a statement that can be read, and of one that cannot.

## Main results

* `Parser.run_current_bind`, `Parser.run_peek_bind`, `Parser.run_advance_bind` — one step of a
  parser.
* `Grammar.run_statement_of_some`, `Grammar.run_statement_of_none` — one statement.
-/

namespace MonkeyFrontend

namespace Cursor

/-- Passing one token before or after several others comes to the same. -/
theorem advanceBy_advance (count : Nat) (c : Cursor) :
    c.advance.advanceBy count = (c.advanceBy count).advance := by
  have h := advanceBy_add count 1 c
  rw [Nat.add_comm] at h
  rw [Nat.add_comm 1 count] at h
  exact h

theorem Reaches.advance {a b : Cursor} (h : a.Reaches b) : a.advance.Reaches b.advance := by
  obtain ⟨count, rfl⟩ := h
  exact ⟨count, (advanceBy_advance count a).symm⟩

/-- What is left later on was left before. -/
theorem Reaches.tokens_subset {a b : Cursor} (h : a.Reaches b) : b.tokens ⊆ a.tokens := by
  obtain ⟨count, rfl⟩ := h
  induction count generalizing a with
  | zero => exact List.Subset.refl _
  | succ count ih => exact fun token hmem => List.mem_of_mem_tail (ih hmem)

theorem current_of_tokens_eq_nil {c : Cursor} (h : c.tokens = []) : c.current = .endOfInput := by
  rw [current, h]
  rfl

theorem tokens_ne_nil_of_kind {c : Cursor} (h : c.current.kind ≠ .endOfInput) :
    c.tokens ≠ [] := by
  intro hnil
  rw [current_of_tokens_eq_nil hnil] at h
  exact h rfl

/-- Where no token stands for the end of the input, only the end itself does. -/
theorem tokens_eq_nil_of_kind {c : Cursor}
    (hend : ∀ token ∈ c.tokens, token.kind ≠ .endOfInput) (h : c.current.kind = .endOfInput) :
    c.tokens = [] := by
  obtain ⟨tokens, depth⟩ := c
  cases tokens with
  | nil => rfl
  | cons token rest => exact absurd h (hend token List.mem_cons_self)

theorem head?_of_tokens_ne_nil {c : Cursor} (h : c.tokens ≠ []) :
    c.tokens.head? = some c.current := by
  rw [current, List.headD_eq_head?_getD]
  cases htokens : c.tokens with
  | nil => exact absurd htokens h
  | cons t ts => rfl

end Cursor

namespace Parser

variable {α β : Type}

/-! ## Sequences -/

/-- Two sequences run alike if their first parts do, and their second parts do wherever
the first parts may stop. -/
theorem run_bind_alike {p q : Parser α} {f g : α → Parser β} {c : Cursor}
    (hfirst : p.run c = q.run c)
    (hnext : ∀ a r, c.Reaches r → (f a).run r = (g a).run r) :
    (p >>= f).run c = (q >>= g).run c :=
  run_bind_congr hfirst fun a _ => hnext a _ (p.reaches_rest c)

/-- A sequence that begins with a look at its own place goes on from there. -/
theorem run_look_bind (view : Cursor → α) (f : α → Parser β) (c : Cursor) :
    (look view >>= f).run c = (f (view c)).run c := by
  rw [run_bind]
  simp [look, Outcome.andThen]

theorem run_current_bind (f : Token → Parser β) (c : Cursor) :
    (current >>= f).run c = (f c.current).run c := run_look_bind _ f c

theorem run_peek_bind (f : Token → Parser β) (c : Cursor) :
    (peek >>= f).run c = (f c.peek).run c := run_look_bind _ f c

theorem run_depth_bind (f : Int → Parser β) (c : Cursor) :
    (depth >>= f).run c = (f c.depth).run c := run_look_bind _ f c

theorem run_advance_bind (f : Unit → Parser β) (c : Cursor) :
    (advance >>= f).run c = (f ()).run c.advance := by
  show (⟨((f ()).run c.advance).value?, [] ++ ((f ()).run c.advance).faults,
    0 + ((f ()).run c.advance).dropped, ((f ()).run c.advance).rest⟩ : Outcome β) = _
  rw [List.nil_append, Nat.zero_add]

theorem run_attempt (p : Parser α) (c : Cursor) :
    (attempt p).run c = ⟨some (p.run c).value?, (p.run c).faults, (p.run c).dropped,
      (p.run c).rest⟩ := rfl

theorem run_skip (home : Nat) (c : Cursor) :
    (skip home).run c = ⟨some (), [], 1, c.skip home⟩ := rfl

end Parser

/-! ## Statements -/

namespace Grammar

open MonkeyFrontend.Parser

variable {grammar : Grammar} {c : Cursor}

/-- A statement that can be read is read. -/
theorem run_statement_of_some {statement : Statement}
    (h : ((grammar.statementFrom c.current.kind).run c).value? = some statement) :
    grammar.statement.run c =
      ⟨some (some statement), ((grammar.statementFrom c.current.kind).run c).faults,
        ((grammar.statementFrom c.current.kind).run c).dropped,
        ((grammar.statementFrom c.current.kind).run c).rest⟩ := by
  unfold Grammar.statement
  have hread := run_attempt (grammar.statementFrom c.current.kind) c
  rw [h] at hread
  rw [run_depth_bind, run_current_bind, run_bind_of_some hread]
  simp [run_pure]

/-- A statement that cannot be read is dropped and counted, and passed up to
its end. -/
theorem run_statement_of_none
    (h : ((grammar.statementFrom c.current.kind).run c).value? = none) :
    grammar.statement.run c =
      ⟨some none, ((grammar.statementFrom c.current.kind).run c).faults,
        ((grammar.statementFrom c.current.kind).run c).dropped + 1,
        ((grammar.statementFrom c.current.kind).run c).rest.skip c.depth⟩ := by
  unfold Grammar.statement
  have hread := run_attempt (grammar.statementFrom c.current.kind) c
  rw [h] at hread
  rw [run_depth_bind, run_current_bind, run_bind_of_some hread,
    run_bind_of_some (run_skip c.depth _)]
  simp [run_pure]

end Grammar

end MonkeyFrontend
