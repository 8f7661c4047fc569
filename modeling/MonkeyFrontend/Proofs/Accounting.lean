import MonkeyFrontend.Proofs.Unfolding

/-!
# Every failure is reported once

A run can fail, it can report faults, and it can drop statements, and the
three are independent as far as the type of parsers goes. In the reader they
are not: a run reports one fault for each statement that it drops, one more
if it fails itself, and no others. Such a run is `Accounted`.

Sequences of accounted runs are accounted, without any condition on where
they stop, because a failure ends a sequence. The two places where accounts
could go wrong are `attempt`, which makes a failure vanish, and the bounds
of repetitions, which fail without a word. The first is always followed by
counting the statement as dropped; the second is never reached.

## Main results

* `Grammar.accounted_statement`, `Grammar.accounted_block` — constructs are
  accounted if the expressions in them are.
* `Operators.accounted_expression` — expressions are accounted.
* `Operators.accounted_statements` — so is a whole program.
-/

namespace MonkeyFrontend

/-- One fault for each dropped statement, and one more for a failure. -/
def Outcome.Accounted {α : Type} (outcome : Outcome α) : Prop :=
  outcome.faults.length = outcome.dropped + if outcome.value?.isSome then 0 else 1

namespace Parser

variable {α β : Type}

/-- From every place the parser reports one fault for each statement that it
drops, one more if it fails, and no others. -/
def Accounted (p : Parser α) : Prop :=
  ∀ c, (p.run c).Accounted

/-- A failure that is accounted for has been reported. -/
theorem Accounted.faults_ne_nil {p : Parser α} (h : Accounted p) {c : Cursor}
    (hfail : (p.run c).value? = none) : (p.run c).faults ≠ [] := by
  intro hnil
  have hlen := h c
  rw [Outcome.Accounted, hfail, hnil] at hlen
  simp at hlen

/-! ## Combinators -/

theorem accounted_bind_at {p : Parser α} {f : α → Parser β} {c : Cursor}
    (hp : (p.run c).Accounted)
    (hf : ∀ a, (p.run c).value? = some a → ((f a).run (p.run c).rest).Accounted) :
    ((p >>= f).run c).Accounted := by
  rw [run_bind]
  unfold Outcome.Accounted at hp hf ⊢
  unfold Outcome.andThen
  split
  next failed => simpa [failed] using hp
  next a found =>
    have hnext := hf a found
    rw [found] at hp
    simp only [Option.isSome_some, if_true, Nat.add_zero] at hp
    rw [List.length_append, hp, hnext, Nat.add_assoc]

theorem accounted_bind {p : Parser α} {f : α → Parser β} (hp : Accounted p)
    (hf : ∀ a, Accounted (f a)) : Accounted (p >>= f) :=
  fun c => accounted_bind_at (hp c) fun a _ => hf a _

theorem accounted_pure (a : α) : Accounted (pure a : Parser α) := fun _ => rfl

theorem accounted_look (view : Cursor → α) : Accounted (look view) := fun _ => rfl

theorem accounted_current : Accounted current := accounted_look _

theorem accounted_peek : Accounted peek := accounted_look _

theorem accounted_advance : Accounted advance := fun _ => rfl

theorem accounted_abort (fault : Fault) : Accounted (abort fault : Parser α) := fun _ => rfl

theorem accounted_expect (kind : Kind) : Accounted (expect kind) := by
  apply accounted_bind accounted_peek
  intro next
  split
  · exact accounted_advance
  · exact accounted_abort _

theorem accounted_many {item : Parser (Option α)} (hround : Progresses item)
    (h : Accounted item) : Accounted (many item) := by
  intro c
  induction hsize : c.size using Nat.strongRecOn generalizing c with
  | ind size ih =>
      rw [many_eq hround]
      apply accounted_bind_at (h c)
      intro found hfound
      cases found with
      | none => rfl
      | some first =>
          have hshort := hround c first hfound
          apply accounted_bind_at (ih _ (hsize ▸ hshort) _ rfl)
          intros
          rfl

theorem accounted_grow {step : α → Parser (Option α)} (hround : ∀ a, Progresses (step a))
    (h : ∀ a, Accounted (step a)) (value : α) : Accounted (grow step value) := by
  intro c
  induction hsize : c.size using Nat.strongRecOn generalizing c value with
  | ind size ih =>
      rw [grow_eq hround]
      apply accounted_bind_at (h value c)
      intro found hfound
      cases found with
      | none => rfl
      | some grown =>
          have hshort := hround value c grown hfound
          exact ih _ (hsize ▸ hshort) grown _ rfl

end Parser

/-! ## Constructs -/

namespace Grammar

open MonkeyFrontend.Parser

theorem accounted_optionalSemicolon : Accounted optionalSemicolon := by
  apply accounted_bind accounted_peek
  intro next
  split
  · exact accounted_advance
  · exact accounted_pure _

section Statements

variable {grammar : Grammar} (h : ∀ weakest, Accounted (grammar.expression weakest))
include h

theorem accounted_binding : Accounted grammar.binding := by
  refine accounted_bind accounted_current fun token => ?_
  refine accounted_bind (accounted_expect _) fun _ => ?_
  refine accounted_bind accounted_current fun bound => ?_
  refine accounted_bind (accounted_expect _) fun _ => ?_
  refine accounted_bind accounted_advance fun _ => ?_
  refine accounted_bind (h _) fun value => ?_
  exact accounted_bind accounted_optionalSemicolon fun _ => accounted_pure _

theorem accounted_result : Accounted grammar.result := by
  refine accounted_bind accounted_current fun token => ?_
  refine accounted_bind accounted_advance fun _ => ?_
  refine accounted_bind (h _) fun value => ?_
  exact accounted_bind accounted_optionalSemicolon fun _ => accounted_pure _

theorem accounted_expressionStatement : Accounted grammar.expressionStatement := by
  refine accounted_bind accounted_current fun token => ?_
  refine accounted_bind (h _) fun value => ?_
  exact accounted_bind accounted_optionalSemicolon fun _ => accounted_pure _

theorem accounted_statementFrom (kind : Kind) : Accounted (grammar.statementFrom kind) := by
  unfold statementFrom
  split
  · exact accounted_binding h
  · exact accounted_result h
  · exact accounted_expressionStatement h

/-- A statement never fails: where its reading fails with one fault, it is
counted as dropped. -/
theorem accounted_statement : Accounted grammar.statement := by
  intro c
  have hfrom := accounted_statementFrom h c.current.kind c
  unfold Outcome.Accounted at hfrom ⊢
  cases hvalue : ((grammar.statementFrom c.current.kind).run c).value? with
  | none =>
      rw [run_statement_of_none hvalue]
      simpa [hvalue] using hfrom
  | some statement =>
      rw [run_statement_of_some hvalue]
      simpa [hvalue] using hfrom

theorem accounted_programItem : Accounted grammar.programItem := by
  refine accounted_bind accounted_current fun token => ?_
  split
  · exact accounted_pure _
  · refine accounted_bind (accounted_statement h) fun statement => ?_
    exact accounted_bind accounted_advance fun _ => accounted_pure _

theorem accounted_statements : Accounted grammar.statements := by
  have hitems := accounted_many (progresses_programItem grammar) (accounted_programItem h)
  exact accounted_bind hitems fun found => accounted_pure _

theorem accounted_blockItem : Accounted grammar.blockItem := by
  refine accounted_bind accounted_current fun token => ?_
  split
  · exact accounted_pure _
  · refine accounted_bind (accounted_statement h) fun statement => ?_
    refine accounted_bind accounted_current fun last => ?_
    split
    · exact accounted_pure _
    · exact accounted_bind accounted_advance fun _ => accounted_pure _

theorem accounted_block : Accounted grammar.block := by
  refine accounted_bind accounted_current fun token => ?_
  refine accounted_bind accounted_advance fun _ => ?_
  have hitems := accounted_many (progresses_blockItem grammar) (accounted_blockItem h)
  refine accounted_bind hitems fun found => ?_
  refine accounted_bind accounted_current fun last => ?_
  split
  · exact accounted_abort _
  · exact accounted_pure _

end Statements

theorem accounted_name (grammar : Grammar) : Accounted grammar.name :=
  accounted_bind accounted_current fun _ => accounted_pure _

theorem accounted_integer (grammar : Grammar) : Accounted grammar.integer := by
  refine accounted_bind accounted_current fun token => ?_
  split
  · exact accounted_pure _
  · exact accounted_abort _

theorem accounted_boolean (grammar : Grammar) : Accounted grammar.boolean :=
  accounted_bind accounted_current fun _ => accounted_pure _

theorem accounted_parameter : Accounted parameter := by
  refine accounted_bind (accounted_expect _) fun _ => ?_
  exact accounted_bind accounted_current fun _ => accounted_pure _

theorem accounted_nextParameter : Accounted nextParameter := by
  refine accounted_bind accounted_peek fun next => ?_
  split
  · refine accounted_bind accounted_advance fun _ => ?_
    exact accounted_bind accounted_parameter fun _ => accounted_pure _
  · exact accounted_pure _

theorem accounted_parameters (grammar : Grammar) : Accounted grammar.parameters := by
  refine accounted_bind accounted_peek fun next => ?_
  split
  · exact accounted_bind accounted_advance fun _ => accounted_pure _
  · refine accounted_bind accounted_parameter fun first => ?_
    have hitems := accounted_many progresses_nextParameter accounted_nextParameter
    refine accounted_bind hitems fun rest => ?_
    exact accounted_bind (accounted_expect _) fun _ => accounted_pure _

section Expressions

variable {grammar : Grammar} (h : ∀ weakest, Accounted (grammar.expression weakest))
include h

theorem accounted_unary : Accounted grammar.unary := by
  refine accounted_bind accounted_current fun token => ?_
  refine accounted_bind accounted_advance fun _ => ?_
  exact accounted_bind (h _) fun _ => accounted_pure _

theorem accounted_binary (left : Expr) : Accounted (grammar.binary left) := by
  refine accounted_bind accounted_current fun token => ?_
  refine accounted_bind accounted_advance fun _ => ?_
  exact accounted_bind (h _) fun _ => accounted_pure _

theorem accounted_grouped : Accounted grammar.grouped := by
  refine accounted_bind accounted_advance fun _ => ?_
  refine accounted_bind (h _) fun inner => ?_
  exact accounted_bind (accounted_expect _) fun _ => accounted_pure _

theorem accounted_alternative : Accounted grammar.alternative := by
  refine accounted_bind accounted_peek fun next => ?_
  split
  · refine accounted_bind accounted_advance fun _ => ?_
    refine accounted_bind (accounted_expect _) fun _ => ?_
    exact accounted_bind (accounted_block h) fun _ => accounted_pure _
  · exact accounted_pure _

theorem accounted_conditional : Accounted grammar.conditional := by
  refine accounted_bind accounted_current fun token => ?_
  refine accounted_bind (accounted_expect _) fun _ => ?_
  refine accounted_bind accounted_advance fun _ => ?_
  refine accounted_bind (h _) fun condition => ?_
  refine accounted_bind (accounted_expect _) fun _ => ?_
  refine accounted_bind (accounted_expect _) fun _ => ?_
  refine accounted_bind (accounted_block h) fun consequence => ?_
  exact accounted_bind (accounted_alternative h) fun _ => accounted_pure _

theorem accounted_function : Accounted grammar.function := by
  refine accounted_bind accounted_current fun token => ?_
  refine accounted_bind (accounted_expect _) fun _ => ?_
  refine accounted_bind (accounted_parameters grammar) fun parameters => ?_
  refine accounted_bind (accounted_expect _) fun _ => ?_
  exact accounted_bind (accounted_block h) fun _ => accounted_pure _

theorem accounted_nextArgument : Accounted grammar.nextArgument := by
  refine accounted_bind accounted_peek fun next => ?_
  split
  · refine accounted_bind accounted_advance fun _ => ?_
    refine accounted_bind accounted_advance fun _ => ?_
    exact accounted_bind (h _) fun _ => accounted_pure _
  · exact accounted_pure _

theorem accounted_arguments : Accounted grammar.arguments := by
  refine accounted_bind accounted_peek fun next => ?_
  split
  · exact accounted_bind accounted_advance fun _ => accounted_pure _
  · refine accounted_bind accounted_advance fun _ => ?_
    refine accounted_bind (h _) fun first => ?_
    have hitems := accounted_many (progresses_nextArgument grammar) (accounted_nextArgument h)
    refine accounted_bind hitems fun rest => ?_
    exact accounted_bind (accounted_expect _) fun _ => accounted_pure _

theorem accounted_call (callee : Expr) : Accounted (grammar.call callee) := by
  refine accounted_bind accounted_current fun token => ?_
  exact accounted_bind (accounted_arguments h) fun _ => accounted_pure _

end Expressions

end Grammar

/-! ## Expressions and programs -/

namespace Operators

open MonkeyFrontend.Parser

variable {grammar : Grammar} (h : ∀ weakest, Accounted (grammar.expression weakest))

include h in
theorem accounted_prefixRule {kind : Kind} {rule : PrefixRule}
    (hrule : standardPrefixRule? kind = some rule) : Accounted (rule grammar) := by
  unfold standardPrefixRule? at hrule
  split at hrule <;> cases hrule
  · exact Grammar.accounted_name grammar
  · exact Grammar.accounted_integer grammar
  · exact Grammar.accounted_boolean grammar
  · exact Grammar.accounted_boolean grammar
  · exact Grammar.accounted_unary h
  · exact Grammar.accounted_unary h
  · exact Grammar.accounted_grouped h
  · exact Grammar.accounted_conditional h
  · exact Grammar.accounted_function h

include h in
theorem accounted_infixRule {kind : Kind} {rule : InfixRule}
    (hrule : standardInfixRule? kind = some rule) (left : Expr) :
    Accounted (rule grammar left) := by
  unfold standardInfixRule? at hrule
  split at hrule <;> cases hrule
  case h_9 => exact Grammar.accounted_call h left
  all_goals exact Grammar.accounted_binary h left

variable (strengths : Strengths)

include h in
theorem accounted_extend (weakest : Precedence) (left : Expr) :
    Accounted ((dialect strengths).extend grammar weakest left) := by
  refine accounted_bind accounted_peek fun next => ?_
  split
  · exact accounted_pure _
  · split
    · exact accounted_pure _
    next rule hrule =>
      refine accounted_bind accounted_advance fun _ => ?_
      exact accounted_bind (accounted_infixRule h hrule left) fun _ => accounted_pure _

include h in
theorem accounted_expressionIn (weakest : Precedence) :
    Accounted ((dialect strengths).expressionIn grammar weakest) := by
  refine accounted_bind accounted_current fun first => ?_
  split
  · exact accounted_abort _
  next rule hrule =>
    refine accounted_bind (accounted_prefixRule h hrule) fun left => ?_
    exact accounted_grow (progresses_extend strengths grammar weakest)
      (accounted_extend h strengths weakest) left

/-- An expression that cannot be read is reported once. -/
theorem accounted_expression (weakest : Precedence) :
    Accounted ((dialect strengths).expression weakest) := by
  revert weakest
  apply expression_induction strengths
    (motive := fun reader => ∀ weakest, Accounted (reader weakest))
    (fun weakest => abort (.noExpression .endOfInput))
  · exact fun _ => accounted_abort _
  · exact fun inner h => accounted_expressionIn h strengths
  · intro reader hshallow weakest c
    obtain ⟨shallow, haccounted, hsame⟩ := hshallow (c.size + 1)
    rw [hsame weakest c (Nat.lt_succ_self _)]
    exact haccounted weakest c

/-- A program is read with one fault for each statement that is dropped. -/
theorem accounted_statements : Accounted (dialect strengths).grammar.statements :=
  Grammar.accounted_statements (accounted_expression strengths)

end Operators

end MonkeyFrontend
