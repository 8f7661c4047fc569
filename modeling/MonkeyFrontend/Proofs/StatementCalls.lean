import MonkeyFrontend.Proofs.Accounting
import MonkeyFrontend.Proofs.Recovery

/-!
# The calls for statements

The reader calls for a statement in two loops, the one over a program and the one
over a block. A loop is known from two things: where it stops, and where it goes on
after a statement (`StatementLoop`). From these follow the places at which it calls
for one (`StatementLoop.Calls`), and all that it does is what the calls at these
places do, one after another (`StatementLoop.Rounds.run_many`). So a program, and every
block of it, consists of the statements that its own calls gave, in the order of the source.

What a call for a statement reports is accounted for by the statements that were
dropped, in it or with it. So a source is free of messages if nothing was dropped,
and only then.

## Main results

* `StatementLoop.Rounds.run_many` — a loop does what its calls do.
* `Grammar.run_statements_of_calls`, `Grammar.run_block_of_calls` — programs and blocks
  consist of what their calls gave.
* `one_message_per_dropped_statement` — every dropped statement is reported once, and
  nothing else is reported.
-/

namespace MonkeyFrontend

open Cursor

/-- The second place is reached from the first one by passing tokens. -/
def Cursor.Before (earlier later : Cursor) : Prop :=
  earlier.Reaches later ∧ later.size < earlier.size

/-! ## Loops over statements -/

/-- A loop that calls for statements: where it stops, and where it goes on after the
statement that it called for at a place. -/
structure StatementLoop where
  stops : Cursor → Prop
  onward : Cursor → Cursor

/-- The places at which a loop calls for statements, from a place on, and the place
where it stops. -/
inductive StatementLoop.Calls (loop : StatementLoop) : Cursor → List Cursor → Cursor → Prop
  | done {c : Cursor} : loop.stops c → Calls loop c [] c
  | call {c finish : Cursor} {places : List Cursor} :
    ¬ loop.stops c → Calls loop (loop.onward c) places finish → Calls loop c (c :: places) finish

namespace Grammar

variable (grammar : Grammar)

/-- The statement that a call for one gives, unless it is dropped. -/
def called (c : Cursor) : Option Statement :=
  (grammar.statement.run c).value?.join

/-- The loop over a program: it stops at the end of the input, and passes the last token
of each statement. -/
def programLoop : StatementLoop where
  stops c := c.current.kind = .endOfInput
  onward c := (grammar.statement.run c).rest.advance

/-- The loop over a block: it also stops at a closing brace, and does not pass one where
a statement was dropped. -/
def blockLoop : StatementLoop where
  stops c := c.current.kind = .closeBrace ∨ c.current.kind = .endOfInput
  onward c :=
    if (grammar.called c).isNone ∧ (grammar.statement.run c).rest.current.kind = .closeBrace then
      (grammar.statement.run c).rest
    else (grammar.statement.run c).rest.advance

/-- The faults that the calls at some places report, in their order. -/
def faultsAt (places : List Cursor) : List Fault :=
  places.flatMap fun c => (grammar.statement.run c).faults

/-- The number of statements that are dropped in the calls at some places. -/
def droppedAt : List Cursor → Nat
  | [] => 0
  | c :: places => (grammar.statement.run c).dropped + droppedAt places

end Grammar

/-- The rounds of a loop: what one round is where the loop stops, and where it calls for a
statement. -/
structure StatementLoop.Rounds (loop : StatementLoop) (grammar : Grammar)
    (round : Parser (Option (Option Statement))) : Prop where
  progresses : Parser.Progresses round
  stop : ∀ {c}, loop.stops c → round.run c = ⟨some none, [], 0, c⟩
  call : ∀ {c}, ¬ loop.stops c → round.run c =
    ⟨some (some (grammar.called c)), (grammar.statement.run c).faults,
      (grammar.statement.run c).dropped, loop.onward c⟩

namespace StatementLoop

variable {loop : StatementLoop} {grammar : Grammar} {round : Parser (Option (Option Statement))}

/-- A loop goes on at a later place. -/
theorem Rounds.before_onward (h : loop.Rounds grammar round) {c : Cursor}
    (hopen : ¬ loop.stops c) : c.Before (loop.onward c) := by
  have hreaches := round.reaches_rest c
  have hshort := h.progresses c (grammar.called c) (by rw [h.call hopen])
  rw [h.call hopen] at hreaches hshort
  exact ⟨hreaches, hshort⟩

/-- From every place a loop makes its calls and then stops. -/
theorem Rounds.exists_calls (h : loop.Rounds grammar round) (start : Cursor) :
    ∃ places finish, loop.Calls start places finish := by
  induction hsize : start.size using Nat.strongRecOn generalizing start with
  | ind size ih =>
      by_cases hend : loop.stops start
      · exact ⟨[], start, .done hend⟩
      · have hshort := (h.before_onward hend).2
        obtain ⟨places, finish, hcalls⟩ := ih _ (hsize ▸ hshort) _ rfl
        exact ⟨start :: places, finish, .call hend hcalls⟩

/-- The calls are made one after another: each lies behind those before it. -/
theorem Rounds.pairwise (h : loop.Rounds grammar round) {start finish : Cursor}
    {places : List Cursor} (hcalls : loop.Calls start places finish) :
    places.Pairwise Before ∧ ∀ place ∈ places, start.Reaches place := by
  induction hcalls with
  | done _ => exact ⟨.nil, fun _ hmem => absurd hmem List.not_mem_nil⟩
  | @call c finish places hopen _ ih =>
      obtain ⟨hpairwise, hreaches⟩ := ih
      obtain ⟨honward, hshort⟩ := h.before_onward hopen
      constructor
      · refine .cons (fun place hmem => ?_) hpairwise
        have hplace := hreaches place hmem
        exact ⟨honward.trans hplace, Nat.lt_of_le_of_lt hplace.size_le hshort⟩
      · intro place hmem
        rcases List.mem_cons.mp hmem with rfl | hmem
        · exact .refl place
        · exact honward.trans (hreaches place hmem)

/-- Behind its calls a loop stops. -/
theorem Calls.stops {start finish : Cursor} {places : List Cursor}
    (hcalls : loop.Calls start places finish) : loop.stops finish := by
  induction hcalls with
  | done hend => exact hend
  | call _ _ ih => exact ih

/-- A loop does what its calls do, one after another. -/
theorem Rounds.run_many (h : loop.Rounds grammar round) {start finish : Cursor}
    {places : List Cursor} (hcalls : loop.Calls start places finish) :
    (Parser.many round).run start =
      ⟨some (places.map grammar.called), grammar.faultsAt places, grammar.droppedAt places,
        finish⟩ := by
  -- On the calls: every call is one round, and the last round is the one that stops.
  induction hcalls with
  | done hend => exact Parser.run_many_of_none h.progresses (h.stop hend)
  | @call c finish places hopen _ ih =>
      have hrest : ((Parser.many round).run (loop.onward c)).value? =
          some (places.map grammar.called) := by
        rw [ih]
      rw [Parser.run_many_of_some h.progresses (h.call hopen) hrest, ih]
      rfl

end StatementLoop

namespace Grammar

open MonkeyFrontend.Parser

variable (grammar : Grammar)

theorem value?_statement (c : Cursor) :
    (grammar.statement.run c).value? = some (grammar.called c) := by
  obtain ⟨o, hvalue⟩ := exists_value?_statement grammar c
  rw [called, hvalue]
  rfl

theorem rounds_programItem : grammar.programLoop.Rounds grammar grammar.programItem where
  progresses := progresses_programItem grammar
  stop hend := run_programItem_of_endOfInput hend
  call hopen := run_programItem hopen (grammar.value?_statement _)

theorem rounds_blockItem : grammar.blockLoop.Rounds grammar grammar.blockItem where
  progresses := progresses_blockItem grammar
  stop {c} hend := by
    have hend : c.current.kind = .closeBrace ∨ c.current.kind = .endOfInput := hend
    unfold blockItem
    rw [run_current_bind, if_pos hend]
    rfl
  call {c} hopen := by
    have hopen : ¬ (c.current.kind = .closeBrace ∨ c.current.kind = .endOfInput) := hopen
    unfold blockItem blockLoop
    rw [run_current_bind, if_neg hopen, run_bind_of_value?_eq_some (grammar.value?_statement c),
      run_current_bind]
    by_cases hstay : (grammar.called c).isNone ∧
        (grammar.statement.run c).rest.current.kind = .closeBrace
    · simp only [if_pos hstay, run_pure, List.append_nil, Nat.add_zero]
    · simp only [if_neg hstay, run_advance_bind, run_pure, List.append_nil, Nat.add_zero]

/-- A program consists of the statements that its calls gave. -/
theorem run_statements_of_calls {c finish : Cursor} {places : List Cursor}
    (hcalls : grammar.programLoop.Calls c places finish) :
    grammar.statements.run c =
      ⟨some (places.filterMap grammar.called), grammar.faultsAt places,
        grammar.droppedAt places, finish⟩ := by
  have hmany := grammar.rounds_programItem.run_many hcalls
  rw [run_statements (by rw [hmany]), hmany, List.filterMap_map]
  rfl

/-- A block consists of the statements that its calls gave. Where the input ends before it
is closed, it is given up, with a fault of its own behind those of its statements. -/
theorem run_block_of_calls {c finish : Cursor} {places : List Cursor}
    (hcalls : grammar.blockLoop.Calls c.advance places finish) :
    grammar.block.run c =
      if finish.current.kind = .endOfInput then
        ⟨none, grammar.faultsAt places ++ [.unexpected .closeBrace .endOfInput],
          grammar.droppedAt places, finish⟩
      else
        ⟨some ⟨c.current, places.filterMap grammar.called⟩, grammar.faultsAt places,
          grammar.droppedAt places, finish⟩ := by
  have hmany := grammar.rounds_blockItem.run_many hcalls
  unfold block
  rw [run_current_bind, run_advance_bind, run_bind_of_value?_eq_some (by rw [hmany]), hmany,
    run_current_bind, List.filterMap_map]
  by_cases hend : finish.current.kind = .endOfInput
  · rw [if_pos hend, if_pos hend]
    rfl
  · rw [if_neg hend, if_neg hend, run_pure, List.append_nil, Nat.add_zero]
    rfl

/-- A call gives the statement that it read, and passes on what was reported on the way.
If it could not read one, that is the one statement more that was dropped. -/
theorem run_statement_called (c : Cursor) :
    grammar.called c = ((grammar.statementFrom c.current.kind).run c).value? ∧
      (grammar.statement.run c).faults =
        ((grammar.statementFrom c.current.kind).run c).faults ∧
      (grammar.statement.run c).dropped =
        ((grammar.statementFrom c.current.kind).run c).dropped +
          if (grammar.called c).isSome then 0 else 1 := by
  unfold called
  cases hvalue : ((grammar.statementFrom c.current.kind).run c).value? with
  | none =>
      rw [run_statement_of_none hvalue]
      exact ⟨rfl, rfl, rfl⟩
  | some tree =>
      rw [run_statement_of_some hvalue]
      exact ⟨rfl, rfl, rfl⟩

end Grammar

/-! ## Sources -/

/-- A source has as many messages as statements were dropped in it, so it has none only if
nothing was dropped. A program and every block consist of the statements that their own
calls gave, in the order of the calls, which is the order of the source. A call that gives
a statement reports only for statements that were dropped inside it, one fault for each,
and a call that gives none reports one fault more. -/
theorem one_message_per_dropped_statement (source : String) :
    let grammar := Operators.standard.grammar
    let program := grammar.statements.run (.ofSource source)
    ((parse source).2.messages.length = program.dropped ∧
      ((parse source).2.messages = [] ↔ program.dropped = 0)) ∧
    (∃ places finish, grammar.programLoop.Calls (.ofSource source) places finish ∧
      places.Pairwise Before ∧
      (parse source).1.statements = places.filterMap grammar.called ∧
      (parse source).2.messages = (grammar.faultsAt places).map Fault.message ∧
      program.dropped = grammar.droppedAt places) ∧
    (∀ start, ∃ places finish, grammar.blockLoop.Calls start.advance places finish ∧
      places.Pairwise Before ∧
      grammar.block.run start =
        if finish.current.kind = .endOfInput then
          ⟨none, grammar.faultsAt places ++ [.unexpected .closeBrace .endOfInput],
            grammar.droppedAt places, finish⟩
        else
          ⟨some ⟨start.current, places.filterMap grammar.called⟩, grammar.faultsAt places,
            grammar.droppedAt places, finish⟩) ∧
    ∀ place,
      let inside := (grammar.statementFrom place.current.kind).run place
      grammar.called place = inside.value? ∧
      (grammar.statement.run place).faults = inside.faults ∧
      inside.faults.length = inside.dropped + (if inside.value?.isSome then 0 else 1) ∧
      (grammar.statement.run place).dropped =
        inside.dropped + if inside.value?.isSome then 0 else 1 := by
  intro grammar program
  have haccounted : ∀ weakest, Parser.Accounted (grammar.expression weakest) :=
    Operators.accounted_expression .standard
  obtain ⟨places, finish, hcalls⟩ := grammar.rounds_programItem.exists_calls (.ofSource source)
  have hpairwise := (grammar.rounds_programItem.pairwise hcalls).1
  have hrun : program = _ := grammar.run_statements_of_calls hcalls
  have hmessages : (parse source).2.messages = program.faults.map Fault.message :=
    parse_messages source
  have hlength : (parse source).2.messages.length = program.dropped := by
    have hprogram : program.Accounted := Grammar.accounted_statements haccounted _
    rw [Outcome.Accounted, hrun] at hprogram
    rw [hmessages, List.length_map, hrun, hprogram]
    rfl
  refine ⟨⟨hlength, ?_⟩, ⟨places, finish, hcalls, hpairwise, ?_, ?_, ?_⟩, fun start => ?_,
    fun place => ?_⟩
  · rw [← List.length_eq_zero_iff, hlength]
  · have hstatements : (parse source).1.statements = program.value?.getD [] :=
      parse_statements source
    rw [hstatements, hrun]
    rfl
  · rw [hmessages, hrun]
  · rw [hrun]
  · obtain ⟨places, finish, hcalls⟩ := grammar.rounds_blockItem.exists_calls start.advance
    exact ⟨places, finish, hcalls, (grammar.rounds_blockItem.pairwise hcalls).1,
      grammar.run_block_of_calls hcalls⟩
  · obtain ⟨hcalled, hfaults, hdropped⟩ := grammar.run_statement_called place
    have hinside := Grammar.accounted_statementFrom haccounted place.current.kind place
    rw [hcalled] at hdropped
    exact ⟨hcalled, hfaults, hinside, hdropped⟩

end MonkeyFrontend
