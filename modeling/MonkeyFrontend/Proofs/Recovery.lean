import MonkeyFrontend.Proofs.Confinement
import MonkeyFrontend.Proofs.TextsInARow
import MonkeyFrontend.Proofs.Refinement

/-!
# Recovery

A statement that cannot be read is dropped, and the reader goes on where the
statement ends. That place does not depend on where in the statement the fault was,
or on what the fault was: it is the first end of the statement from its first token
on (`Operators.statement_resumes`).

It follows that statements which stand outside of all braces, each behind the
semicolon of the one before it, have nothing to do with each other. Two sources of
which the first one ends with such a semicolon are read as one source in the same way
as each for itself (`parse_append`). Behind that semicolon the brace depth is zero
again, and no run in front of it can tell what lies behind it.

## Main results

* `Operators.statement_resumes` — where the reader stands after a statement.
* `parse_append` — statements and messages of two sources in a row.
-/

namespace MonkeyFrontend

open Cursor MonkeyFrontend.Parser

/-! ## Where a statement leaves the reader -/

/-- A statement that has been read ends in front of its end, or at its semicolon. -/
theorem Cursor.Finishes.reaches_skip {home : Nat} {start r : Cursor} (h : r.Finishes home)
    (hwithin : start.Within home r) :
    r.Reaches (start.skip home) ∧ (r = start.skip home → r.current.kind = .semicolon) ∧
      (r.peek.kind = .semicolon → r = start.skip home) := by
  refine ⟨hwithin.reaches_skip, ?_, ?_⟩
  · intro heq
    rcases h with ⟨⟨hopen, _⟩, _⟩ | ⟨_, hsemi⟩
    · rw [heq] at hopen
      exact absurd (isEnd_skip home start) hopen
    · exact hsemi
  · intro hpeek
    rcases h with ⟨_, hnone⟩ | ⟨hdepth, hsemi⟩
    · exact absurd hpeek hnone
    · have hend : r.IsEnd home := .inr ⟨hdepth, .inl hsemi⟩
      rw [← hwithin.skip_eq, skip_of_isEnd hend]

/-- From every place the reader of statements gives a statement or drops one, and
there is one place, the first end of the statement from its first token on, which
recovery from the first token reaches, and which the reader has not passed when it
fails. If the statement is dropped, the reader stands there. If it is read, the reader
has not passed that place, is there only if a semicolon stands there, and has no
semicolon ahead of it unless it is there. -/
theorem Operators.statement_resumes (strengths : Strengths) (start : Cursor) :
    ∃ finish, start.FirstEnd start.depth finish ∧ start.skip start.depth = finish ∧
      (((dialect strengths).grammar.statementFrom start.current.kind).run start).rest.Reaches
        finish ∧
      (((dialect strengths).grammar.statement.run start).value? = some none ∧
          ((dialect strengths).grammar.statement.run start).rest = finish ∨
        ∃ tree r, ((dialect strengths).grammar.statement.run start).value? = some (some tree) ∧
          ((dialect strengths).grammar.statement.run start).rest = r ∧ r.Reaches finish ∧
            (r = finish → r.current.kind = .semicolon) ∧
              (r.peek.kind = .semicolon → r = finish)) := by
  have hfrom := (confines strengths).statementFrom (rfl : start.depth = start.depth)
  have hstatement := (confines strengths).statement (rfl : start.depth = start.depth)
  refine ⟨_, firstEnd_skip _ _, rfl, hfrom.within.reaches_skip, ?_⟩
  cases hvalue :
      (((dialect strengths).grammar.statementFrom start.current.kind).run start).value? with
  | none =>
      have hrun := Grammar.run_statement_of_none hvalue
      have hdropped : ((dialect strengths).grammar.statement.run start).value? = some none := by
        rw [hrun]
      exact .inl ⟨hdropped, hstatement.found none hdropped⟩
  | some tree =>
      have hrun := Grammar.run_statement_of_some hvalue
      have hread : ((dialect strengths).grammar.statement.run start).value? = some (some tree) := by
        rw [hrun]
      have hfinish : ((dialect strengths).grammar.statement.run start).rest.Finishes start.depth :=
        hstatement.found (some tree) hread
      exact .inr ⟨tree, _, hread, rfl, hfinish.reaches_skip hstatement.within⟩

/-! ## Statements outside of all braces -/

namespace Cursor

/-- The last token that is left is a semicolon outside of all braces. -/
def Sealed (c : Cursor) : Prop :=
  ∃ before last, c.tokens = before ++ [last] ∧ last.kind = .semicolon ∧
    before.foldl depthAfter c.depth = 0

/-- All that is left, if anything is, is sealed. -/
def SealedOrDone (c : Cursor) : Prop :=
  c = ⟨[], 0⟩ ∨ c.Sealed

variable {c r : Cursor}

theorem Sealed.advance (h : c.Sealed) : c.advance.SealedOrDone := by
  obtain ⟨tokens, depth⟩ := c
  obtain ⟨before, last, rfl, hlast, hdepth⟩ := h
  cases before with
  | nil =>
      have hzero : depth = 0 := hdepth
      subst hzero
      refine .inl ?_
      show Cursor.mk [] (depthAfter 0 last) = ⟨[], 0⟩
      rw [depthAfter, hlast]
  | cons first before => exact .inr ⟨before, last, rfl, hlast, hdepth⟩

theorem SealedOrDone.reaches (h : c.SealedOrDone) (hr : c.Reaches r) : r.SealedOrDone := by
  obtain ⟨count, rfl⟩ := hr
  induction count generalizing c with
  | zero => exact h
  | succ count ih =>
      apply ih
      rcases h with rfl | h
      · exact .inl rfl
      · exact h.advance

/-- A statement outside of all braces ends in front of a seal, or at it. -/
theorem Sealed.fenced (h : c.Sealed) : c.Fenced 0 0 := by
  obtain ⟨tokens, depth⟩ := c
  obtain ⟨before, last, rfl, hlast, hdepth⟩ := h
  induction before generalizing depth with
  | nil => exact .stop (endsStatement_eq_true_iff.mpr ⟨hdepth, .inl hlast⟩)
  | cons first before ih =>
      exact .step (List.cons_ne_nil first _) (.inl rfl) (ih (depthAfter depth first) hdepth)

end Cursor

namespace Grammar

variable {grammar : Grammar} {c : Cursor}

/-- Reading a statement never fails. -/
theorem exists_value?_statement (grammar : Grammar) (c : Cursor) :
    ∃ o, (grammar.statement.run c).value? = some o := by
  cases hvalue : ((grammar.statementFrom c.current.kind).run c).value? with
  | none => exact ⟨none, by rw [run_statement_of_none hvalue]⟩
  | some tree => exact ⟨some tree, by rw [run_statement_of_some hvalue]⟩

theorem run_programItem_of_endOfInput (hkind : c.current.kind = .endOfInput) :
    grammar.programItem.run c = ⟨some none, [], 0, c⟩ := by
  unfold programItem
  rw [run_current_bind, if_pos hkind]
  rfl

theorem run_programItem {o : Option Statement} (hkind : c.current.kind ≠ .endOfInput)
    (hvalue : (grammar.statement.run c).value? = some o) :
    grammar.programItem.run c =
      ⟨some (some o), (grammar.statement.run c).faults, (grammar.statement.run c).dropped,
        (grammar.statement.run c).rest.advance⟩ := by
  unfold programItem
  rw [run_current_bind, if_neg hkind, run_bind_of_value?_eq_some hvalue, run_advance_bind,
    run_pure, List.append_nil, Nat.add_zero]

/-- A round of the loop over a program never fails. -/
theorem exists_value?_programItem (grammar : Grammar) (c : Cursor) :
    ∃ o, (grammar.programItem.run c).value? = some o := by
  by_cases hkind : c.current.kind = .endOfInput
  · exact ⟨none, by rw [run_programItem_of_endOfInput hkind]⟩
  · obtain ⟨o, hvalue⟩ := exists_value?_statement grammar c
    exact ⟨some o, by rw [run_programItem hkind hvalue]⟩

theorem run_statements {found : List (Option Statement)}
    (h : ((many grammar.programItem).run c).value? = some found) :
    grammar.statements.run c =
      ⟨some (found.filterMap id), ((many grammar.programItem).run c).faults,
        ((many grammar.programItem).run c).dropped, ((many grammar.programItem).run c).rest⟩ := by
  unfold statements
  rw [run_bind_of_value?_eq_some h, run_pure, List.append_nil, Nat.add_zero]

end Grammar

namespace Parser

variable {α : Type} {item : Parser (Option α)}

/-- A loop whose rounds never fail does not fail. -/
theorem exists_value?_many (hround : Progresses item)
    (hitem : ∀ c, ∃ o, (item.run c).value? = some o) (c : Cursor) :
    ∃ found, ((many item).run c).value? = some found := by
  induction hsize : c.size using Nat.strongRecOn generalizing c with
  | ind size ih =>
      obtain ⟨o, hvalue⟩ := hitem c
      rw [many_eq hround, run_bind, Outcome.andThen, hvalue]
      cases o with
      | none => exact ⟨[], rfl⟩
      | some first =>
          have hshort := hround c first hvalue
          obtain ⟨rest, hrest⟩ := ih _ (hsize ▸ hshort) _ rfl
          refine ⟨first :: rest, ?_⟩
          show ((many item >>= fun rest => pure (first :: rest)).run _).value? = _
          rw [run_bind_of_value?_eq_some hrest]
          rfl

theorem run_many_of_none (hround : Progresses item) {c r : Cursor} {faults : List Fault}
    {dropped : Nat} (h : item.run c = ⟨some none, faults, dropped, r⟩) :
    (many item).run c = ⟨some [], faults, dropped, r⟩ := by
  rw [many_eq hround, run_bind_of_some h]
  simp [run_pure]

theorem run_many_of_some (hround : Progresses item) {c r : Cursor} {first : α} {rest : List α}
    {faults : List Fault} {dropped : Nat}
    (h : item.run c = ⟨some (some first), faults, dropped, r⟩)
    (hrest : ((many item).run r).value? = some rest) :
    (many item).run c =
      ⟨some (first :: rest), faults ++ ((many item).run r).faults,
        dropped + ((many item).run r).dropped, ((many item).run r).rest⟩ := by
  have hmore : (many item >>= fun rest => pure (first :: rest)).run r =
      ⟨some (first :: rest), ((many item).run r).faults, ((many item).run r).dropped,
        ((many item).run r).rest⟩ := by
    rw [run_bind_of_value?_eq_some hrest, run_pure, List.append_nil, Nat.add_zero]
  refine (congrArg (fun p => p.run c) (many_eq hround)).trans ?_
  rw [run_bind_of_some h]
  show Outcome.mk ((many item >>= fun rest => pure (first :: rest)).run r).value? _ _ _ = _
  rw [hmore]

end Parser

namespace Operators

variable (strengths : Strengths)

/-- A round in front of a seal leaves the reader outside of all braces again, and does
what it would do without the tokens behind the seal. -/
theorem run_programItem_of_sealed {c : Cursor} (h : c.Sealed) (hdepth : c.depth = 0)
    (hkind : c.current.kind ≠ .endOfInput) (more : List Token) :
    ∃ o faults dropped r, r.depth = 0 ∧
      (dialect strengths).grammar.programItem.run c = ⟨some (some o), faults, dropped, r⟩ ∧
      (dialect strengths).grammar.programItem.run (c.embed 0 more) =
        ⟨some (some o), faults, dropped, r.embed 0 more⟩ := by
  have hconfined := (confines strengths).statement hdepth
  have hecho : (dialect strengths).grammar.statement.run (c.embed 0 more) = _ :=
    hconfined.echoes h.fenced
  have hcurrent : (c.embed 0 more).current = c.current := current_embed h.fenced.tokens_ne_nil
  obtain ⟨o, hvalue⟩ := Grammar.exists_value?_statement (dialect strengths).grammar c
  have hfence := h.fenced.within hconfined.within
  have hfound := hconfined.found o hvalue
  have hrun := Grammar.run_programItem hkind hvalue
  have hrun' := Grammar.run_programItem
    (show (c.embed 0 more).current.kind ≠ .endOfInput by rw [hcurrent]; exact hkind)
    (by rw [hecho]; exact hvalue)
  generalize (dialect strengths).grammar.statement.run c = outcome at hecho hfence hfound hrun
  refine ⟨o, outcome.faults, outcome.dropped, outcome.rest.advance, ?_, hrun, ?_⟩
  · cases o with
    | some tree => exact Finishes.depth_advance hfound
    | none =>
        have hend : outcome.rest.IsEnd 0 := by
          rw [show outcome.rest = c.skip 0 from hfound]
          exact isEnd_skip 0 c
        have hfinish := finishes_of_isEnd hend hfence.tokens_ne_nil fun hclose =>
          absurd hclose.2 (Nat.lt_irrefl 0)
        exact hfinish.depth_advance
  · rw [hrun', hecho]
    show Outcome.mk _ _ _ (outcome.rest.embed 0 more).advance = _
    rw [advance_embed hfence.tokens_ne_nil (.inl rfl)]
    rfl

/-- Tokens behind a seal are read as if nothing stood in front of them, and have no
influence on what does. -/
theorem run_many_programItem_embed {c : Cursor} (h : c.SealedOrDone) (hdepth : c.depth = 0)
    (hkind : ∀ token ∈ c.tokens, token.kind ≠ .endOfInput) {more : List Token}
    {found found' : List (Option Statement)}
    (hfound : ((many (dialect strengths).grammar.programItem).run c).value? = some found)
    (hfound' :
      ((many (dialect strengths).grammar.programItem).run ⟨more, 0⟩).value? = some found') :
    ((many (dialect strengths).grammar.programItem).run (c.embed 0 more)).value? =
        some (found ++ found') ∧
      ((many (dialect strengths).grammar.programItem).run (c.embed 0 more)).faults =
        ((many (dialect strengths).grammar.programItem).run c).faults ++
          ((many (dialect strengths).grammar.programItem).run ⟨more, 0⟩).faults := by
  have hround := Grammar.progresses_programItem (dialect strengths).grammar
  induction hsize : c.size using Nat.strongRecOn generalizing c found with
  | ind size ih =>
      rcases h with rfl | h
      · have hstop : (dialect strengths).grammar.programItem.run ⟨[], 0⟩ =
            ⟨some none, [], 0, ⟨[], 0⟩⟩ := Grammar.run_programItem_of_endOfInput rfl
        rw [run_many_of_none hround hstop] at hfound ⊢
        cases hfound
        exact ⟨hfound', rfl⟩
      · have hhead : c.current ∈ c.tokens :=
          List.mem_of_mem_head? (head?_of_tokens_ne_nil h.fenced.tokens_ne_nil)
        obtain ⟨o, faults, dropped, r, hr, hrun, hrun'⟩ :=
          run_programItem_of_sealed strengths h hdepth (hkind _ hhead) more
        have hreaches : c.Reaches r := by
          have hrest := (dialect strengths).grammar.programItem.reaches_rest c
          rwa [hrun] at hrest
        have hshort : r.size < c.size := by
          have hprogress := hround c o (by rw [hrun])
          rwa [hrun] at hprogress
        obtain ⟨rest, hrest⟩ := exists_value?_many hround (Grammar.exists_value?_programItem _) r
        obtain ⟨hvalue, hfaults⟩ := ih _ (hsize ▸ hshort)
          (SealedOrDone.reaches (.inr h) hreaches) hr
          (fun token hmem => hkind token (hreaches.tokens_subset hmem)) hrest rfl
        rw [run_many_of_some hround hrun hrest] at hfound ⊢
        rw [run_many_of_some hround hrun' hvalue]
        cases hfound
        refine ⟨rfl, ?_⟩
        show faults ++ _ = faults ++ _ ++ _
        rw [hfaults, List.append_assoc]

/-- The same for whole programs. -/
theorem run_statements_embed {c : Cursor} (h : c.SealedOrDone) (hdepth : c.depth = 0)
    (hkind : ∀ token ∈ c.tokens, token.kind ≠ .endOfInput) (more : List Token) :
    ∃ first second,
      ((dialect strengths).grammar.statements.run c).value? = some first ∧
      ((dialect strengths).grammar.statements.run ⟨more, 0⟩).value? = some second ∧
      ((dialect strengths).grammar.statements.run (c.embed 0 more)).value? =
        some (first ++ second) ∧
      ((dialect strengths).grammar.statements.run (c.embed 0 more)).faults =
        ((dialect strengths).grammar.statements.run c).faults ++
          ((dialect strengths).grammar.statements.run ⟨more, 0⟩).faults := by
  have hround := Grammar.progresses_programItem (dialect strengths).grammar
  have hitem := Grammar.exists_value?_programItem (dialect strengths).grammar
  obtain ⟨found, hfound⟩ := exists_value?_many hround hitem c
  obtain ⟨found', hfound'⟩ := exists_value?_many hround hitem ⟨more, 0⟩
  obtain ⟨hvalue, hfaults⟩ := run_many_programItem_embed strengths h hdepth hkind hfound hfound'
  rw [Grammar.run_statements hfound, Grammar.run_statements hfound', Grammar.run_statements hvalue]
  refine ⟨_, _, rfl, rfl, ?_, hfaults⟩
  rw [List.filterMap_append]

end Operators

/-! ## Two sources in a row -/

/-- If the last token of a source is a semicolon that stands outside of all braces,
another source behind it is read as it is read alone, and so is the first one,
whatever is wrong with either of them. -/
theorem parse_append (first second : String) {before : List Token} {last : Token}
    (htokens : Token.ofSource first = before ++ [last]) (hlast : last.kind = .semicolon)
    (hdepth : before.foldl Cursor.depthAfter 0 = 0) :
    (parse (first ++ second)).1.statements =
        (parse first).1.statements ++ (parse second).1.statements ∧
      (parse (first ++ second)).2.messages =
        (parse first).2.messages ++ (parse second).2.messages := by
  have hsource : Cursor.ofSource (first ++ second) =
      (Cursor.ofSource first).embed 0 (Token.ofSource second) := by
    have hlist := Token.list_append_of_semicolon htokens hlast second.toList
    show Cursor.mk (Token.list (first ++ second).toList) 0 = Cursor.mk (_ ++ _) (0 + 0)
    rw [String.toList_append, hlist]
    rfl
  have hsealed : (Cursor.ofSource first).SealedOrDone := .inr ⟨before, last, htokens, hlast, hdepth⟩
  obtain ⟨statements, statements', hfirst, hsecond, hvalue, hfaults⟩ :=
    Operators.run_statements_embed .standard hsealed rfl
      (fun _ hmem => Token.kind_ne_endOfInput_of_mem_ofSource hmem) (Token.ofSource second)
  rw [← hsource] at hvalue hfaults
  rw [Operators.dialect_standard] at hfirst hsecond hvalue hfaults
  have hsecond : (Operators.standard.grammar.statements.run (.ofSource second)).value? =
      some statements' := hsecond
  constructor
  · rw [parse_statements, parse_statements, parse_statements, hvalue, hfirst, hsecond]
    rfl
  · rw [parse_messages, parse_messages, parse_messages, hfaults, List.map_append]
    rfl

/-- A stray brace and a broken statement, and a statement behind them. -/
theorem parse_append_behind_a_broken_statement :
    Token.ofSource "\x7d let = 5;" =
        [⟨.closeBrace, "\x7d"⟩, ⟨.letWord, "let"⟩, ⟨.assign, "="⟩, ⟨.number, "5"⟩] ++
          [⟨.semicolon, ";"⟩] ∧
      (parse ("\x7d let = 5;" ++ "let b = 6")).1.statements =
        (parse "\x7d let = 5;").1.statements ++ (parse "let b = 6").1.statements ∧
      (parse ("\x7d let = 5;" ++ "let b = 6")).2.messages =
        (parse "\x7d let = 5;").2.messages ++ (parse "let b = 6").2.messages := by
  have htokens : Token.ofSource "\x7d let = 5;" =
      [⟨.closeBrace, "\x7d"⟩, ⟨.letWord, "let"⟩, ⟨.assign, "="⟩, ⟨.number, "5"⟩] ++
        [⟨.semicolon, ";"⟩] := by
    decide +kernel
  exact ⟨htokens, parse_append "\x7d let = 5;" "let b = 6" htokens rfl rfl⟩

end MonkeyFrontend
