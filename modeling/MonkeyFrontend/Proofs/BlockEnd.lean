import MonkeyFrontend.Proofs.StatementCalls

/-!
# Where blocks end

A block ends at the closing brace that is its own: the first one behind its opening brace that
stands one level deeper than the opening brace does. That place is read off the braces alone.
What stands between the two braces has no influence on it, be it a program or not, and
whatever is broken there is dropped there.

Each call for a statement in a block ends in front of the block's closing brace, or at it if
the statement is dropped. So the loop over the block never passes this brace, and it stops
only at it, or at the end of the input. In the second case the block is given up, and
that is the last thing that is reported.

## Main results

* `Grammar.Confines.clear_onward` — one round of the loop does not pass the block's brace.
* `Grammar.Confines.clear_of_calls` — neither does the whole loop.
* `Operators.block_ends_at_its_brace` — where a block ends, and what becomes of it.
-/

namespace MonkeyFrontend

open Cursor

namespace Cursor

/-- The brace here closes a block whose opening brace stands at brace depth `home`. -/
def ClosesBlock (home : Nat) (c : Cursor) : Prop :=
  c.depth = home + 1 ∧ c.current.kind = .closeBrace

instance (home : Nat) (c : Cursor) : Decidable (c.ClosesBlock home) :=
  inferInstanceAs (Decidable (_ ∧ _))

variable {home : Nat} {c r : Cursor}

/-- The brace of a block ends the statement in front of it. -/
theorem ClosesBlock.isEnd (h : c.ClosesBlock home) : c.IsEnd (home + 1) :=
  .inr ⟨h.1, .inr ⟨h.2, Nat.succ_pos home⟩⟩

theorem ClosesBlock.tokens_ne_nil (h : c.ClosesBlock home) : c.tokens ≠ [] :=
  tokens_ne_nil_of_kind (by rw [h.2]; decide)

/-- No statement of a block has the block's brace for its last token. -/
theorem Finishes.not_closesBlock (h : c.Finishes (home + 1)) : ¬ c.ClosesBlock home := by
  intro hclose
  rcases h with ⟨⟨hopen, _⟩, _⟩ | ⟨_, hsemi⟩
  · exact hopen hclose.isEnd
  · rw [hclose.2] at hsemi
    cases hsemi

theorem Within.clear (h : c.Within (home + 1) r) : Clear (ClosesBlock home) c r :=
  Clear.mono h.exists_advanceBy fun _ hclose => hclose.isEnd

end Cursor

namespace Grammar.Confines

variable {grammar : Grammar} (h : grammar.Confines) {home : Nat} {c : Cursor}
include h

/-- One round of the loop over a block does not pass the block's brace. -/
theorem clear_onward (hdepth : c.depth = home + 1) :
    Clear (ClosesBlock home) c (grammar.blockLoop.onward c) ∧
      ((grammar.blockLoop.onward c).depth = home + 1 ∨
        (grammar.blockLoop.onward c).tokens = []) := by
  have hclear : Clear (ClosesBlock home) c (grammar.statement.run c).rest :=
    (h.statement hdepth).within.clear
  have hfound := (h.statement hdepth).found _ (grammar.value?_statement c)
  have honward : grammar.blockLoop.onward c =
      if (grammar.called c).isNone ∧ (grammar.statement.run c).rest.current.kind = .closeBrace then
        (grammar.statement.run c).rest
      else (grammar.statement.run c).rest.advance := rfl
  rw [honward]
  generalize (grammar.statement.run c).rest = r at hclear hfound
  have hpass (hfinish : r.Finishes (home + 1)) : Clear (ClosesBlock home) c r.advance ∧
      (r.advance.depth = home + 1 ∨ r.advance.tokens = []) :=
    ⟨hclear.trans (.advance hfinish.not_closesBlock), .inl hfinish.depth_advance⟩
  cases hcalled : grammar.called c with
  | some tree =>
      rw [hcalled] at hfound
      rw [if_neg (by simp)]
      exact hpass hfound
  | none =>
      rw [hcalled] at hfound
      have hend : r.IsEnd (home + 1) := by
        rw [show r = c.skip (home + 1) from hfound]
        exact isEnd_skip _ c
      by_cases hclose : r.current.kind = .closeBrace
      · have hne := tokens_ne_nil_of_kind (show r.current.kind ≠ .endOfInput by
          rw [hclose]
          decide)
        rw [if_pos ⟨rfl, hclose⟩]
        exact ⟨hclear, .inl (hend.resolve_left hne).1⟩
      · rw [if_neg fun hstay => hclose hstay.2]
        by_cases hnil : r.tokens = []
        · rw [advance_of_tokens_eq_nil hnil]
          exact ⟨hclear, .inr hnil⟩
        · exact hpass (finishes_of_isEnd hend hnil fun hbrace => hclose hbrace.1)

/-- The loop over a block does not pass the block's brace. -/
theorem clear_of_calls {finish : Cursor} {places : List Cursor}
    (hcalls : grammar.blockLoop.Calls c places finish) (hc : c.depth = home + 1 ∨ c.tokens = []) :
    Clear (ClosesBlock home) c finish ∧ (finish.depth = home + 1 ∨ finish.tokens = []) := by
  induction hcalls with
  | @done c _ => exact ⟨.refl _ c, hc⟩
  | @call c finish places hopen _ ih =>
      have hne : c.tokens ≠ [] := tokens_ne_nil_of_kind fun hend => hopen (.inr hend)
      obtain ⟨hfirst, honward⟩ := h.clear_onward (hc.resolve_right hne)
      obtain ⟨hrest, hfinish⟩ := ih honward
      exact ⟨hfirst.trans hrest, hfinish⟩

end Grammar.Confines

namespace Operators

/-- A block ends at the first brace that stands one level deeper than its opening brace, if
there is one, whatever lies between the two: a block is read, the reader stops on that
brace, and what was to be read around the block is read on from there. If there is none, the
reader stops at the end of the input, no block is read, and the missing brace is the last
thing reported. -/
theorem block_ends_at_its_brace (strengths : Strengths) {start : Cursor}
    (hopen : start.current.kind = .openBrace)
    (hend : ∀ token ∈ start.tokens, token.kind ≠ .endOfInput) :
    let block := (dialect strengths).grammar.block
    (∀ finish, First (ClosesBlock start.depth) start.advance finish →
      ∃ trees, (block.run start).value? = some ⟨start.current, trees⟩ ∧
        (block.run start).rest = finish ∧
        ∀ around : Block → Parser Expr, ((block >>= around).run start).value? =
          ((around ⟨start.current, trees⟩).run finish).value?) ∧
    ((¬ ∃ finish, First (ClosesBlock start.depth) start.advance finish) →
      (block.run start).value? = none ∧ (block.run start).rest.current = .endOfInput ∧
        (block.run start).faults.getLast? = some (.unexpected .closeBrace .endOfInput)) := by
  intro block
  obtain ⟨places, stop, hcalls⟩ :=
    (Grammar.rounds_blockItem (dialect strengths).grammar).exists_calls start.advance
  have hrun : block.run start = _ := Grammar.run_block_of_calls _ hcalls
  have hinside : start.advance.depth = start.depth + 1 := by
    show depthAfter start.depth start.current = start.depth + 1
    rw [depthAfter, hopen]
  obtain ⟨hclear, hdepth⟩ := (confines strengths).clear_of_calls hcalls (.inl hinside)
  by_cases hnil : stop.tokens = []
  · have hcurrent := current_of_tokens_eq_nil hnil
    rw [if_pos (by rw [hcurrent]; rfl)] at hrun
    constructor
    · -- Behind the end of the input there is no brace.
      intro finish hfirst
      have hreaches := hfirst.reaches hclear
      have hempty := hreaches.tokens_subset
      rw [hnil] at hempty
      exact absurd (List.subset_nil.mp hempty) hfirst.1.tokens_ne_nil
    · intro _
      rw [hrun]
      exact ⟨rfl, hcurrent, List.getLast?_concat⟩
  · have hreaches : start.Reaches stop := by
      obtain ⟨count, hstop, _⟩ := hclear
      exact (reaches_advance start).trans ⟨count, hstop⟩
    have hkind : stop.current.kind ≠ .endOfInput :=
      hend _ (hreaches.tokens_subset (List.mem_of_mem_head? (head?_of_tokens_ne_nil hnil)))
    have hfirst : First (ClosesBlock start.depth) start.advance stop :=
      ⟨⟨hdepth.resolve_right hnil, hcalls.stops.resolve_right hkind⟩, hclear⟩
    rw [if_neg hkind] at hrun
    constructor
    · intro finish hfinish
      obtain rfl := hfirst.unique hfinish
      refine ⟨_, by rw [hrun], by rw [hrun], fun around => ?_⟩
      rw [Parser.run_bind_of_some hrun]
    · intro hnone
      exact absurd ⟨stop, hfirst⟩ hnone

/-- Two braces deep, a block with a broken statement, and with a function in it whose own block
holds another one and is closed first. -/
theorem block_ends_at_its_brace_behind_broken_statements :
    let start : Cursor :=
      ⟨[⟨.openBrace, "\x7b"⟩, ⟨.letWord, "let"⟩, ⟨.assign, "="⟩, ⟨.semicolon, ";"⟩,
        ⟨.fnWord, "fn"⟩, ⟨.openParen, "("⟩, ⟨.closeParen, ")"⟩, ⟨.openBrace, "\x7b"⟩,
        ⟨.letWord, "let"⟩, ⟨.closeBrace, "\x7d"⟩, ⟨.closeBrace, "\x7d"⟩, ⟨.number, "1"⟩], 2⟩
    let finish : Cursor := ⟨[⟨.closeBrace, "\x7d"⟩, ⟨.number, "1"⟩], 3⟩
    start.current.kind = .openBrace ∧ (∀ token ∈ start.tokens, token.kind ≠ .endOfInput) ∧
      First (ClosesBlock start.depth) start.advance finish ∧
      ∃ trees, ((dialect .standard).grammar.block.run start).value? = some ⟨start.current, trees⟩ ∧
        ((dialect .standard).grammar.block.run start).rest = finish := by
  intro start finish
  have hend : ∀ token ∈ start.tokens, token.kind ≠ .endOfInput := by decide
  have hfirst : First (ClosesBlock start.depth) start.advance finish :=
    ⟨by decide, 9, rfl, by decide⟩
  obtain ⟨trees, hvalue, hrest, _⟩ :=
    (block_ends_at_its_brace .standard rfl hend).1 finish hfirst
  exact ⟨rfl, hend, hfirst, trees, hvalue, hrest⟩

end Operators

end MonkeyFrontend
