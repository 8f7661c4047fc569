import MonkeyFrontend.Proofs.ClosingBrace
import MonkeyFrontend.Proofs.StatementCalls

/-!
# Blocks are read as programs

The loop over a program and the loop over a block go on differently after a statement that
was dropped, and recovery looks for a closing brace in a block only. Still a list of
tokens with balanced braces means the same in both places: between braces, however deep, it
gives the statements and the faults that it gives on its own.

The proof runs the two loops side by side. Both call for statements at the same places, and
each call is echoed (`Grammar.Echoes`). The last call is the delicate one, because
what lies behind it is the end of the input in one run and a closing brace in the other. If
the tokens end with a semicolon, it cannot get so far. Otherwise nothing may be wrong
with the tokens, and what is read without a fault is read the same in front of a closing
brace.

## Main results

* `Grammar.Echoes.onward` — where a call is echoed, the two loops go on at the same place.
* `Grammar.calls_embed` — the two loops make the same calls.
* `Operators.block_agrees_with_program` — a block is read as its inside is read alone.
-/

namespace MonkeyFrontend

open Cursor MonkeyFrontend.Parser

/-! ## Echoed calls -/

/-- A place outside of all braces, in front of balanced tokens. -/
structure Cursor.Outermost (c : Cursor) : Prop where
  depth : c.depth = 0
  balanced : c.Balanced
  endless : ∀ token ∈ c.tokens, token.kind ≠ .endOfInput

/-- A call for a statement is the same with `lift` more braces around and with `more`
behind. A dropped statement has a semicolon at its end. -/
structure Grammar.Echoes (grammar : Grammar) (lift : Nat) (more : List Token) (c : Cursor) :
    Prop where
  called : grammar.called (c.embed lift more) = grammar.called c
  faults : (grammar.statement.run (c.embed lift more)).faults = (grammar.statement.run c).faults
  rest : (grammar.statement.run (c.embed lift more)).rest =
    (grammar.statement.run c).rest.embed lift more
  semicolon : grammar.called c = none → (grammar.statement.run c).rest.current.kind = .semicolon

namespace Cursor

variable {c r : Cursor} {lift : Nat}

theorem Finishes.tokens_ne_nil {home : Nat} (h : c.Finishes home) : c.tokens ≠ [] := by
  rcases h with ⟨⟨hopen, _⟩, _⟩ | ⟨_, hsemi⟩
  · exact tokens_ne_nil_of_not_isEnd hopen
  · exact tokens_ne_nil_of_kind (by rw [hsemi]; decide)

/-- No balanced token closes a brace where none is open. -/
theorem Outermost.kind_ne_closeBrace (h : c.Outermost) : c.current.kind ≠ .closeBrace := by
  intro hkind
  have hpos := h.balanced.depth_pos hkind
  rw [h.depth] at hpos
  exact Nat.lt_irrefl 0 hpos

theorem Outermost.kind_ne_endOfInput (h : c.Outermost) (hne : c.tokens ≠ []) :
    c.current.kind ≠ .endOfInput :=
  h.endless _ (List.mem_of_mem_head? (head?_of_tokens_ne_nil hne))

theorem Outermost.eq_of_kind (h : c.Outermost) (hkind : c.current.kind = .endOfInput) :
    c = ⟨[], 0⟩ := by
  have hnil : c.tokens = [] := by
    by_cases hnil : c.tokens = []
    · exact hnil
    · exact absurd hkind (h.kind_ne_endOfInput hnil)
  have hdepth := h.depth
  obtain ⟨tokens, depth⟩ := c
  simp only at hnil hdepth
  rw [hnil, hdepth]

/-- A seal ends the statement in front of it inside more braces too. -/
theorem Sealed.fenced_of_balanced (h : c.Sealed) (hbalanced : c.Balanced) : c.Fenced lift 0 := by
  obtain ⟨tokens, depth⟩ := c
  obtain ⟨before, last, rfl, hlast, hdepth⟩ := h
  induction before generalizing depth with
  | nil => exact .stop (endsStatement_eq_true_iff.mpr ⟨hdepth, .inl hlast⟩)
  | cons first before ih =>
      refine .step (List.cons_ne_nil first _) (.inr ?_)
        (ih (depthAfter depth first) hbalanced.advance hdepth)
      by_cases hkind : first.kind = .closeBrace
      · exact .inl (hbalanced.depth_pos hkind)
      · exact .inr hkind

end Cursor

namespace Grammar

variable {grammar : Grammar} {lift : Nat} {more : List Token} {c : Cursor}

/-- Read or dropped, a statement of an echoed call leaves the reader at its end. -/
theorem Echoes.finishes (h : grammar.Echoes lift more c) (hconfines : grammar.Confines)
    (hdepth : c.depth = 0) : (grammar.statement.run c).rest.Finishes 0 := by
  have hfound := (hconfines.statement hdepth).found _ (grammar.value?_statement c)
  have hsemi := h.semicolon
  generalize (grammar.statement.run c).rest = r at hfound hsemi
  cases hcalled : grammar.called c with
  | some tree =>
      rw [hcalled] at hfound
      exact hfound
  | none =>
      rw [hcalled] at hfound
      have hend : r.IsEnd 0 := by
        rw [show r = c.skip 0 from hfound]
        exact isEnd_skip 0 c
      have hne : r.tokens ≠ [] := tokens_ne_nil_of_kind (by rw [hsemi hcalled]; decide)
      exact finishes_of_isEnd hend hne fun hclose => absurd hclose.2 (Nat.lt_irrefl 0)

/-- Where a call is echoed, the loop over a block goes on where the loop over a program
does. -/
theorem Echoes.onward (h : grammar.Echoes lift more c) (hconfines : grammar.Confines)
    (hc : c.Outermost) :
    grammar.blockLoop.onward (c.embed lift more) =
        (grammar.programLoop.onward c).embed lift more ∧
      (grammar.programLoop.onward c).Outermost := by
  have hreaches : c.Reaches (grammar.statement.run c).rest := grammar.statement.reaches_rest c
  have hfinish := h.finishes hconfines hc.depth
  have hbalanced := hc.balanced.reaches hreaches
  constructor
  · -- A block stays in front of a closing brace after a dropped statement, but here a
    -- semicolon stands there.
    have hpass : ¬ ((grammar.called (c.embed lift more)).isNone ∧
        (grammar.statement.run (c.embed lift more)).rest.current.kind = .closeBrace) := by
      rw [h.called, h.rest, current_embed hfinish.tokens_ne_nil]
      rintro ⟨hnone, hclose⟩
      rw [h.semicolon (Option.isNone_iff_eq_none.mp hnone)] at hclose
      cases hclose
    show (if _ then _ else _) = (grammar.statement.run c).rest.advance.embed lift more
    rw [if_neg hpass, h.rest, hbalanced.advance_embed hfinish.tokens_ne_nil]
  · have honward := hreaches.trans (reaches_advance _)
    exact ⟨hfinish.depth_advance, hbalanced.advance,
      fun token hmem => hc.endless token (honward.tokens_subset hmem)⟩

/-- The two loops call for statements at the same places, if the calls are echoed. -/
theorem calls_embed {closing : Token} (hclosing : closing.kind = .closeBrace)
    (hconfines : grammar.Confines) {finish : Cursor} {places : List Cursor}
    (hcalls : grammar.programLoop.Calls c places finish) (hc : c.Outermost)
    (hecho : ∀ place ∈ places, place.Outermost → place.tokens ≠ [] →
      grammar.Echoes lift (closing :: more) place) :
    grammar.blockLoop.Calls (c.embed lift (closing :: more))
        (places.map (embed lift (closing :: more))) ⟨closing :: more, lift⟩ ∧
      ∀ place ∈ places, grammar.Echoes lift (closing :: more) place := by
  induction hcalls with
  | @done c hend =>
      obtain rfl := hc.eq_of_kind hend
      constructor
      · show grammar.blockLoop.Calls ⟨closing :: more, 0 + lift⟩ [] ⟨closing :: more, lift⟩
        rw [Nat.zero_add]
        exact .done (.inl hclosing)
      · intro place hmem
        cases hmem
  | @call c finish places hopen _ ih =>
      have hne : c.tokens ≠ [] := tokens_ne_nil_of_kind hopen
      have hfirst := hecho c List.mem_cons_self hc hne
      obtain ⟨honward, houter⟩ := hfirst.onward hconfines hc
      obtain ⟨hrest, hechoes⟩ :=
        ih houter fun place hmem => hecho place (List.mem_cons_of_mem c hmem)
      have hopen' : ¬ grammar.blockLoop.stops (c.embed lift (closing :: more)) := by
        show ¬ ((c.embed lift (closing :: more)).current.kind = .closeBrace ∨
          (c.embed lift (closing :: more)).current.kind = .endOfInput)
        rw [current_embed hne]
        exact not_or.mpr ⟨hc.kind_ne_closeBrace, hopen⟩
      constructor
      · rw [← honward] at hrest
        exact .call hopen' hrest
      · exact List.forall_mem_cons.mpr ⟨hfirst, hechoes⟩

/-- Echoed calls give the same statements and report the same faults. -/
theorem Echoes.gather {places : List Cursor}
    (h : ∀ place ∈ places, grammar.Echoes lift more place) :
    (places.map (embed lift more)).filterMap grammar.called =
        places.filterMap grammar.called ∧
      grammar.faultsAt (places.map (embed lift more)) = grammar.faultsAt places := by
  induction places with
  | nil => exact ⟨rfl, rfl⟩
  | cons first places ih =>
      obtain ⟨hfirst, hrest⟩ := List.forall_mem_cons.mp h
      obtain ⟨htrees, hfaults⟩ := ih hrest
      constructor
      · rw [List.map_cons, List.filterMap_cons, List.filterMap_cons, hfirst.called, htrees]
      · show (grammar.statement.run (first.embed lift more)).faults ++ grammar.faultsAt _ =
          (grammar.statement.run first).faults ++ grammar.faultsAt places
        rw [hfirst.faults, hfaults]

end Grammar

/-! ## When calls are echoed -/

namespace Operators

variable {strengths : Strengths} {lift : Nat} {closing : Token} {more : List Token} {c : Cursor}

/-- In front of a seal nothing can be told of what lies behind it. -/
theorem echoes_of_sealed (hc : c.Outermost) (hsealed : c.Sealed) :
    (dialect strengths).grammar.Echoes lift more c := by
  have hfence : c.Fenced lift 0 := hsealed.fenced_of_balanced hc.balanced
  have hconfined := (confines strengths).statement hc.depth
  have hecho : (dialect strengths).grammar.statement.run (c.embed lift more) = _ :=
    hconfined.echoes hfence
  refine ⟨?_, ?_, ?_, fun hnone => ?_⟩
  · rw [Grammar.called, hecho]
    rfl
  · rw [hecho]
    rfl
  · rw [hecho]
    rfl
  · have hvalue := (dialect strengths).grammar.value?_statement c
    rw [hnone] at hvalue
    have hskip : ((dialect strengths).grammar.statement.run c).rest = c.skip 0 :=
      hconfined.found none hvalue
    have hne := (hfence.within hconfined.within).tokens_ne_nil
    rw [hskip] at hne ⊢
    have hend := (isEnd_skip 0 c).resolve_left hne
    exact hend.2.resolve_right fun hclose => Nat.lt_irrefl 0 hclose.2

/-- A statement without a fault is the same in front of a closing brace. -/
theorem echoes_of_clean (hclosing : closing.kind = .closeBrace) (hc : c.Outermost)
    (hclean : ((dialect strengths).grammar.statement.run c).faults = []) :
    (dialect strengths).grammar.Echoes lift (closing :: more) c := by
  have hyields : (dialect strengths).grammar.statement.Yields c
      ((dialect strengths).grammar.called c) ((dialect strengths).grammar.statement.run c).rest :=
    ⟨Grammar.value?_statement _ c, hclean, rfl⟩
  have hfound := ((confines strengths).statement hc.depth).found _ hyields.1
  cases hcalled : (dialect strengths).grammar.called c with
  | none =>
      rw [hcalled] at hyields
      exact (Grammar.not_yields_statement_none (accounted_expression strengths) hyields).elim
  | some tree =>
      rw [hcalled] at hyields hfound
      have hfinish : ((dialect strengths).grammar.statement.run c).rest.Finishes 0 := hfound
      have hcarries : (dialect strengths).grammar.CarriesOver lift (closing :: more) :=
        carriesOver strengths ⟨closing, more, rfl, hclosing⟩
      obtain ⟨hvalue, hfaults, hrest⟩ :=
        hcarries.statement _ _ _ hc.balanced hyields hfinish.tokens_ne_nil
      refine ⟨?_, ?_, hrest, fun hnone => ?_⟩
      · rw [hcalled, Grammar.called, hvalue]
        rfl
      · rw [hfaults, hclean]
      · rw [hcalled] at hnone
        cases hnone

/-- A block is read as its inside is read as a program of its own, whatever the depth at which
it stands and whatever comes behind it: it consists of the same statements, the same faults
are reported in the same order, and the reader stops on its closing brace. The inside has to
be balanced. If it is not free of faults, it also has to end with a semicolon outside of
its braces, because a fault at its very end would tell what lies behind it. -/
theorem block_agrees_with_program (strengths : Strengths) {opening closing : Token}
    (hopening : opening.kind = .openBrace) (hclosing : closing.kind = .closeBrace)
    {inside : List Token} (hend : ∀ token ∈ inside, token.kind ≠ .endOfInput)
    (hbalanced : (Cursor.ofTokens inside).Balanced)
    (hlast : (Cursor.ofTokens inside).SealedOrDone ∨
      ((dialect strengths).grammar.statements.run (.ofTokens inside)).faults = [])
    (more : List Token) (depth : Nat) :
    ∃ trees,
      ((dialect strengths).grammar.statements.run (.ofTokens inside)).value? = some trees ∧
      ((dialect strengths).grammar.block.run
        ⟨opening :: (inside ++ closing :: more), depth⟩).value? = some ⟨opening, trees⟩ ∧
      ((dialect strengths).grammar.block.run
        ⟨opening :: (inside ++ closing :: more), depth⟩).faults =
          ((dialect strengths).grammar.statements.run (.ofTokens inside)).faults ∧
      ((dialect strengths).grammar.block.run
        ⟨opening :: (inside ++ closing :: more), depth⟩).rest = ⟨closing :: more, depth + 1⟩ := by
  have hstart : (Cursor.mk (opening :: (inside ++ closing :: more)) depth).advance =
      (Cursor.ofTokens inside).embed (depth + 1) (closing :: more) := by
    show Cursor.mk (inside ++ closing :: more) (depthAfter depth opening) =
      Cursor.mk (inside ++ closing :: more) (0 + (depth + 1))
    rw [depthAfter, hopening, Nat.zero_add]
  have houter : (Cursor.ofTokens inside).Outermost := ⟨rfl, hbalanced, hend⟩
  have hrounds := Grammar.rounds_programItem (dialect strengths).grammar
  obtain ⟨places, finish, hcalls⟩ := hrounds.exists_calls (.ofTokens inside)
  have hprogram := Grammar.run_statements_of_calls _ hcalls
  have hecho : ∀ place ∈ places, place.Outermost → place.tokens ≠ [] →
      (dialect strengths).grammar.Echoes (depth + 1) (closing :: more) place := by
    intro place hmem hplace hne
    rcases hlast with hsealed | hclean
    · rcases hsealed.reaches ((hrounds.pairwise hcalls).2 place hmem) with hdone | hsealed
      · rw [hdone] at hne
        exact absurd rfl hne
      · exact echoes_of_sealed hplace hsealed
    · rw [hprogram] at hclean
      exact echoes_of_clean hclosing hplace (List.flatMap_eq_nil_iff.mp hclean place hmem)
  obtain ⟨hcalls', hechoes⟩ :=
    Grammar.calls_embed hclosing (confines strengths) hcalls houter hecho
  obtain ⟨htrees, hfaults⟩ := Grammar.Echoes.gather hechoes
  rw [← hstart] at hcalls'
  have hblock := Grammar.run_block_of_calls _ hcalls'
  have hopen : ¬ (Cursor.mk (closing :: more) (depth + 1)).current.kind = .endOfInput := by
    show ¬ closing.kind = .endOfInput
    rw [hclosing]
    decide
  rw [if_neg hopen, htrees, hfaults] at hblock
  rw [hprogram, hblock]
  exact ⟨_, rfl, rfl, rfl, rfl⟩

/-- A broken statement, and a function with a broken statement and a block inside it, in a
block three braces deep. -/
theorem block_agrees_with_program_around_broken_statements :
    let inside : List Token :=
      [⟨.letWord, "let"⟩, ⟨.assign, "="⟩, ⟨.number, "5"⟩, ⟨.semicolon, ";"⟩, ⟨.fnWord, "fn"⟩,
        ⟨.openParen, "("⟩, ⟨.closeParen, ")"⟩, ⟨.openBrace, "\x7b"⟩, ⟨.letWord, "let"⟩,
        ⟨.closeBrace, "\x7d"⟩, ⟨.semicolon, ";"⟩]
    (Cursor.ofTokens inside).Balanced ∧ (Cursor.ofTokens inside).SealedOrDone ∧
      ∃ trees,
        ((dialect .standard).grammar.statements.run (.ofTokens inside)).value? = some trees ∧
        ((dialect .standard).grammar.block.run
          ⟨⟨.openBrace, "\x7b"⟩ :: (inside ++ [⟨.closeBrace, "\x7d"⟩]), 3⟩).value? =
            some ⟨⟨.openBrace, "\x7b"⟩, trees⟩ ∧
        ((dialect .standard).grammar.block.run
          ⟨⟨.openBrace, "\x7b"⟩ :: (inside ++ [⟨.closeBrace, "\x7d"⟩]), 3⟩).faults =
            ((dialect .standard).grammar.statements.run (.ofTokens inside)).faults ∧
        ((dialect .standard).grammar.block.run
          ⟨⟨.openBrace, "\x7b"⟩ :: (inside ++ [⟨.closeBrace, "\x7d"⟩]), 3⟩).rest =
            ⟨[⟨.closeBrace, "\x7d"⟩], 4⟩ := by
  intro inside
  have hbalanced : (Cursor.ofTokens inside).Balanced := by decide
  have hsealed : (Cursor.ofTokens inside).SealedOrDone :=
    .inr ⟨inside.dropLast, ⟨.semicolon, ";"⟩, rfl, rfl, rfl⟩
  exact ⟨hbalanced, hsealed,
    block_agrees_with_program .standard rfl rfl (by decide) hbalanced (.inl hsealed) [] 3⟩

end Operators

end MonkeyFrontend
