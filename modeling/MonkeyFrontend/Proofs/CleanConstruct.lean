import MonkeyFrontend.Proofs.CleanRun

/-!
# Clean runs of constructs

For each construct of the language, what a clean run of it is made of: the
kinds of the tokens that it passes, and the clean runs of its parts between
them. The lemmas are equivalences, so they serve to take a clean run apart
and to put one together. Nothing is said here about how expressions are
read; the grammar is arbitrary, apart from the last section, which is about
the two rounds of precedence climbing in a dialect.

A clean run contains no broken statement, because dropping one is reported.
So the statements of a block or a program form a `Chain`: each one begins
where the one before it has ended.

## Main results

* `Grammar.yields_statement_some`, `Grammar.not_yields_statement_none` —
  clean statements are those that are not dropped.
* `Grammar.chain_of_yields_block`, `Grammar.yields_block_of_chain` and the same
  for `statements` — the two loops over statements read chains.
* `Operators.yields_extend_none`, `Operators.yields_extend_some` — an
  expression ends at the first token that does not bind strongly enough.
-/

namespace MonkeyFrontend

/-- The place itself, or the next one if a semicolon stands there. -/
def Cursor.pastSemicolon (c : Cursor) : Cursor :=
  if c.peek.kind = .semicolon then c.advance else c

namespace Grammar

open MonkeyFrontend.Parser

variable {grammar : Grammar} {c r : Cursor}

/-! ## Statements -/

theorem yields_optionalSemicolon_bind {β : Type} {f : Unit → Parser β} {b : β} :
    (optionalSemicolon >>= f).Yields c b r ↔ (f ()).Yields c.pastSemicolon b r := by
  rw [yields_bind]
  unfold optionalSemicolon Cursor.pastSemicolon
  simp only [yields_peek_bind]
  split
  · constructor
    · rintro ⟨_, _, ⟨_, _, rfl⟩, h⟩
      exact h
    · intro h
      exact ⟨(), _, ⟨rfl, rfl, rfl⟩, h⟩
  · constructor
    · rintro ⟨_, _, ⟨_, _, rfl⟩, h⟩
      exact h
    · intro h
      exact ⟨(), _, ⟨rfl, rfl, rfl⟩, h⟩

theorem yields_binding {s : Statement} :
    grammar.binding.Yields c s r ↔
      c.peek.kind = .name ∧ c.advance.peek.kind = .assign ∧
        ∃ e m, (grammar.expression .lowest).Yields c.advance.advance.advance e m ∧
          s = .binding c.current ⟨c.peek, c.peek.literal⟩ e ∧ r = m.pastSemicolon := by
  unfold binding
  rw [yields_current_bind, yields_expect_bind, yields_current_bind, yields_expect_bind,
    yields_advance_bind, yields_bind]
  simp only [yields_optionalSemicolon_bind, yields_pure]
  rfl

theorem yields_result {s : Statement} :
    grammar.result.Yields c s r ↔
      ∃ e m, (grammar.expression .lowest).Yields c.advance e m ∧
        s = .result c.current e ∧ r = m.pastSemicolon := by
  unfold result
  rw [yields_current_bind, yields_advance_bind, yields_bind]
  simp only [yields_optionalSemicolon_bind, yields_pure]

theorem yields_expressionStatement {s : Statement} :
    grammar.expressionStatement.Yields c s r ↔
      ∃ e m, (grammar.expression .lowest).Yields c e m ∧
        s = .expression c.current e ∧ r = m.pastSemicolon := by
  unfold expressionStatement
  rw [yields_current_bind, yields_bind]
  simp only [yields_optionalSemicolon_bind, yields_pure]

theorem yields_statement_some {s : Statement} :
    grammar.statement.Yields c (some s) r ↔
      (grammar.statementFrom c.current.kind).Yields c s r := by
  unfold Yields
  cases hvalue : ((grammar.statementFrom c.current.kind).run c).value? with
  | none =>
      rw [run_statement_of_none hvalue]
      simp
  | some statement =>
      rw [run_statement_of_some hvalue]
      simp

/-- A dropped statement is reported, so no clean run contains one. -/
theorem not_yields_statement_none (h : ∀ weakest, Accounted (grammar.expression weakest)) :
    ¬ grammar.statement.Yields c none r := by
  rintro ⟨hvalue, hfaults, _⟩
  cases hfrom : ((grammar.statementFrom c.current.kind).run c).value? with
  | none =>
      rw [run_statement_of_none hfrom] at hfaults
      exact (accounted_statementFrom h _).faults_ne_nil hfrom hfaults
  | some statement =>
      rw [run_statement_of_some hfrom] at hvalue
      cases hvalue

/-! ## Chains of statements -/

/-- Statements that are read cleanly one after the other, up to the place
after the last of them. -/
inductive Chain (grammar : Grammar) : Cursor → List Statement → Cursor → Prop
  | nil {c : Cursor} : Chain grammar c [] c
  | cons {c m r : Cursor} {s : Statement} {rest : List Statement} :
    grammar.statement.Yields c (some s) m → Chain grammar m.advance rest r →
      Chain grammar c (s :: rest) r

theorem yields_programItem_none :
    grammar.programItem.Yields c none r ↔ c.current.kind = .endOfInput ∧ r = c := by
  unfold programItem
  rw [yields_current_bind]
  split
  next hkind => simp [yields_pure, hkind]
  next hkind =>
    rw [yields_bind]
    simp only [yields_advance_bind, yields_pure]
    simp [hkind]

theorem yields_programItem_some {o : Option Statement} :
    grammar.programItem.Yields c (some o) r ↔
      c.current.kind ≠ .endOfInput ∧ ∃ m, grammar.statement.Yields c o m ∧ r = m.advance := by
  unfold programItem
  rw [yields_current_bind]
  split
  next hkind => simp [yields_pure, hkind]
  next hkind =>
    rw [yields_bind]
    simp only [yields_advance_bind, yields_pure, Option.some.injEq]
    constructor
    · rintro ⟨_, m, hstatement, rfl, rfl⟩
      exact ⟨hkind, m, hstatement, rfl⟩
    · rintro ⟨_, m, hstatement, rfl⟩
      exact ⟨o, m, hstatement, rfl, rfl⟩

theorem yields_blockItem_none :
    grammar.blockItem.Yields c none r ↔
      (c.current.kind = .closeBrace ∨ c.current.kind = .endOfInput) ∧ r = c := by
  unfold blockItem
  rw [yields_current_bind]
  split
  next hkind => simp [yields_pure, hkind]
  next hkind =>
    simp only [hkind, false_and, iff_false]
    intro h
    obtain ⟨o, m, _, hnext⟩ := yields_bind.mp h
    rw [yields_current_bind] at hnext
    split at hnext
    · cases (yields_pure.mp hnext).1
    · rw [yields_advance_bind] at hnext
      cases (yields_pure.mp hnext).1

theorem yields_blockItem_some {s : Statement} :
    grammar.blockItem.Yields c (some (some s)) r ↔
      ¬ (c.current.kind = .closeBrace ∨ c.current.kind = .endOfInput) ∧
        ∃ m, grammar.statement.Yields c (some s) m ∧ r = m.advance := by
  unfold blockItem
  rw [yields_current_bind]
  split
  next hkind => simp [yields_pure, hkind]
  next hkind =>
    simp only [hkind, not_false_eq_true, true_and]
    constructor
    · intro h
      obtain ⟨o, m, hstatement, hnext⟩ := yields_bind.mp h
      rw [yields_current_bind] at hnext
      split at hnext
      next hstay =>
        obtain ⟨heq, _⟩ := yields_pure.mp hnext
        rw [← Option.some.inj heq] at hstay
        simp at hstay
      next =>
        rw [yields_advance_bind] at hnext
        obtain ⟨heq, hr⟩ := yields_pure.mp hnext
        rw [← Option.some.inj heq] at hstatement
        exact ⟨m, hstatement, hr⟩
    · rintro ⟨m, hstatement, rfl⟩
      refine yields_bind.mpr ⟨some s, m, hstatement, ?_⟩
      rw [yields_current_bind, if_neg (by simp), yields_advance_bind]
      exact yields_pure.mpr ⟨rfl, rfl⟩

/-- In a clean run of a block no round drops a statement. -/
theorem not_yields_blockItem_dropped (h : ∀ weakest, Accounted (grammar.expression weakest)) :
    ¬ grammar.blockItem.Yields c (some none) r := by
  unfold blockItem
  rw [yields_current_bind]
  split
  · intro hyields
    cases (yields_pure.mp hyields).1
  · intro hyields
    obtain ⟨o, m, hstatement, hnext⟩ := yields_bind.mp hyields
    have ho : o = none := by
      rw [yields_current_bind] at hnext
      split at hnext
      · exact (Option.some.inj (yields_pure.mp hnext).1).symm
      · rw [yields_advance_bind] at hnext
        exact (Option.some.inj (yields_pure.mp hnext).1).symm
    subst ho
    exact not_yields_statement_none h hstatement

section Loops

variable (h : ∀ weakest, Accounted (grammar.expression weakest))
include h

theorem chain_of_rounds_blockItem {found : List (Option Statement)}
    (hrounds : Rounds grammar.blockItem c found r) :
    Chain grammar c (found.filterMap id) r ∧
      (r.current.kind = .closeBrace ∨ r.current.kind = .endOfInput) := by
  induction hrounds with
  | stop hnone =>
      obtain ⟨hkind, rfl⟩ := yields_blockItem_none.mp hnone
      exact ⟨.nil, hkind⟩
  | @more c m r o rest hsome _ ih =>
      cases o with
      | none => exact (not_yields_blockItem_dropped h hsome).elim
      | some s =>
          obtain ⟨_, last, hstatement, rfl⟩ := yields_blockItem_some.mp hsome
          exact ⟨.cons hstatement ih.1, ih.2⟩

theorem chain_of_rounds_programItem {found : List (Option Statement)}
    (hrounds : Rounds grammar.programItem c found r) :
    Chain grammar c (found.filterMap id) r ∧ r.current.kind = .endOfInput := by
  induction hrounds with
  | stop hnone =>
      obtain ⟨hkind, rfl⟩ := yields_programItem_none.mp hnone
      exact ⟨.nil, hkind⟩
  | @more c m r o rest hsome _ ih =>
      obtain ⟨_, last, hstatement, rfl⟩ := yields_programItem_some.mp hsome
      cases o with
      | none => exact (not_yields_statement_none h hstatement).elim
      | some s => exact ⟨.cons hstatement ih.1, ih.2⟩

/-- The statements of a block that is read cleanly form a chain up to its
closing brace. -/
theorem chain_of_yields_block {b : Block} (hblock : grammar.block.Yields c b r) :
    ∃ ss, b = ⟨c.current, ss⟩ ∧ Chain grammar c.advance ss r ∧ r.current.kind = .closeBrace := by
  unfold block at hblock
  rw [yields_current_bind, yields_advance_bind] at hblock
  obtain ⟨found, m, hmany, hnext⟩ := yields_bind.mp hblock
  have hrounds := (yields_many (progresses_blockItem grammar)).mp hmany
  obtain ⟨hchain, hlast⟩ := chain_of_rounds_blockItem h hrounds
  rw [yields_current_bind] at hnext
  split at hnext
  · exact (yields_abort.mp hnext).elim
  next hkind =>
    obtain ⟨rfl, rfl⟩ := yields_pure.mp hnext
    exact ⟨_, rfl, hchain, hlast.resolve_right hkind⟩

/-- The statements of a program that is read cleanly form a chain up to the
end of the input. -/
theorem chain_of_yields_statements {ss : List Statement}
    (hprogram : grammar.statements.Yields c ss r) :
    Chain grammar c ss r ∧ r.current.kind = .endOfInput := by
  unfold statements at hprogram
  obtain ⟨found, m, hmany, hnext⟩ := yields_bind.mp hprogram
  have hrounds := (yields_many (progresses_programItem grammar)).mp hmany
  obtain ⟨rfl, rfl⟩ := yields_pure.mp hnext
  exact chain_of_rounds_programItem h hrounds

end Loops

/-- A grammar whose statements begin neither at a closing brace nor at the
end of the input. -/
def BeginsInside (grammar : Grammar) : Prop :=
  ∀ {c s m}, grammar.statement.Yields c (some s) m →
    c.current.kind ≠ .closeBrace ∧ c.current.kind ≠ .endOfInput

theorem yields_block_of_chain (hbegin : BeginsInside grammar) {ss : List Statement}
    (hchain : Chain grammar c.advance ss r) (hlast : r.current.kind = .closeBrace) :
    grammar.block.Yields c ⟨c.current, ss⟩ r := by
  have hrounds : Rounds grammar.blockItem c.advance (ss.map some) r := by
    generalize c.advance = start at hchain
    induction hchain with
    | nil => exact .stop (yields_blockItem_none.mpr ⟨.inl hlast, rfl⟩)
    | cons hstatement _ ih =>
        obtain ⟨hbrace, hend⟩ := hbegin hstatement
        have hopen := not_or.mpr ⟨hbrace, hend⟩
        exact .more (yields_blockItem_some.mpr ⟨hopen, _, hstatement, rfl⟩) (ih hlast)
  unfold block
  rw [yields_current_bind, yields_advance_bind]
  refine yields_bind.mpr ⟨_, r, (yields_many (progresses_blockItem grammar)).mpr hrounds, ?_⟩
  rw [yields_current_bind, if_neg (by rw [hlast]; decide)]
  exact yields_pure.mpr ⟨by simp, rfl⟩

theorem yields_statements_of_chain (hbegin : BeginsInside grammar) {ss : List Statement}
    (hchain : Chain grammar c ss r) (hlast : r.current.kind = .endOfInput) :
    grammar.statements.Yields c ss r := by
  have hrounds : Rounds grammar.programItem c (ss.map some) r := by
    induction hchain with
    | nil => exact .stop (yields_programItem_none.mpr ⟨hlast, rfl⟩)
    | cons hstatement _ ih =>
        have hend := (hbegin hstatement).2
        exact .more (yields_programItem_some.mpr ⟨hend, _, hstatement, rfl⟩) (ih hlast)
  unfold statements
  refine yields_bind.mpr ⟨_, r, (yields_many (progresses_programItem grammar)).mpr hrounds, ?_⟩
  exact yields_pure.mpr ⟨by simp, rfl⟩

/-! ## Expressions -/

theorem yields_name {e : Expr} :
    grammar.name.Yields c e r ↔ e = .name ⟨c.current, c.current.literal⟩ ∧ r = c := by
  unfold name
  rw [yields_current_bind, yields_pure]

theorem yields_integer {e : Expr} :
    grammar.integer.Yields c e r ↔
      ∃ value, readInteger c.current.literal = .ok value ∧
        e = .integer c.current value ∧ r = c := by
  unfold integer
  rw [yields_current_bind]
  cases readInteger c.current.literal with
  | ok value => simp [yields_pure]
  | error fault => simp [yields_abort]

theorem yields_boolean {e : Expr} :
    grammar.boolean.Yields c e r ↔
      e = .boolean c.current (c.current.kind == .trueWord) ∧ r = c := by
  unfold boolean
  rw [yields_current_bind, yields_pure]

theorem yields_unary {e : Expr} :
    grammar.unary.Yields c e r ↔
      ∃ operand, (grammar.expression .prefixed).Yields c.advance operand r ∧
        e = .unary c.current c.current.literal operand := by
  unfold unary
  rw [yields_current_bind, yields_advance_bind, yields_bind_pure]

theorem yields_binary {left e : Expr} :
    (grammar.binary left).Yields c e r ↔
      ∃ right,
        (grammar.expression (grammar.precedence c.current.kind)).Yields c.advance right r ∧
          e = .binary c.current left c.current.literal right := by
  unfold binary
  rw [yields_current_bind, yields_advance_bind, yields_bind_pure]

theorem yields_grouped {e : Expr} :
    grammar.grouped.Yields c e r ↔
      ∃ m, (grammar.expression .lowest).Yields c.advance e m ∧
        m.peek.kind = .closeParen ∧ r = m.advance := by
  unfold grouped
  rw [yields_advance_bind, yields_bind]
  simp only [yields_expect_bind, yields_pure]
  constructor
  · rintro ⟨_, m, hinner, hclose, rfl, rfl⟩
    exact ⟨m, hinner, hclose, rfl⟩
  · rintro ⟨m, hinner, hclose, rfl⟩
    exact ⟨e, m, hinner, hclose, rfl, rfl⟩

theorem yields_alternative_none :
    grammar.alternative.Yields c none r ↔ c.peek.kind ≠ .elseWord ∧ r = c := by
  unfold alternative
  rw [yields_peek_bind]
  split
  next hkind =>
    rw [yields_advance_bind, yields_expect_bind, yields_bind_pure]
    simp [hkind]
  next hkind => simp [yields_pure, hkind]

theorem yields_alternative_some {b : Block} :
    grammar.alternative.Yields c (some b) r ↔
      c.peek.kind = .elseWord ∧ c.advance.peek.kind = .openBrace ∧
        grammar.block.Yields c.advance.advance b r := by
  unfold alternative
  rw [yields_peek_bind]
  split
  next hkind =>
    rw [yields_advance_bind, yields_expect_bind, yields_bind_pure]
    simp [hkind]
  next hkind => simp [yields_pure, hkind]

theorem yields_conditional {e : Expr} :
    grammar.conditional.Yields c e r ↔
      c.peek.kind = .openParen ∧
        ∃ condition m, (grammar.expression .lowest).Yields c.advance.advance condition m ∧
          m.peek.kind = .closeParen ∧ m.advance.peek.kind = .openBrace ∧
            ∃ consequence k, grammar.block.Yields m.advance.advance consequence k ∧
              ∃ alternative, grammar.alternative.Yields k alternative r ∧
                e = .conditional c.current condition consequence alternative := by
  unfold conditional
  rw [yields_current_bind, yields_expect_bind, yields_advance_bind, yields_bind]
  simp only [yields_expect_bind, yields_bind (p := grammar.block), yields_bind_pure]

theorem yields_nextParameter_none :
    (nextParameter : Parser (Option Name)).Yields c none r ↔ c.peek.kind ≠ .comma ∧ r = c := by
  unfold nextParameter parameter
  rw [yields_peek_bind]
  split
  next hkind =>
    rw [yields_advance_bind, yields_bind_pure]
    simp [hkind]
  next hkind => simp [yields_pure, hkind]

theorem yields_nextParameter_some {n : Name} :
    (nextParameter : Parser (Option Name)).Yields c (some n) r ↔
      c.peek.kind = .comma ∧ c.advance.peek.kind = .name ∧
        n = ⟨c.advance.peek, c.advance.peek.literal⟩ ∧ r = c.advance.advance := by
  unfold nextParameter parameter
  rw [yields_peek_bind]
  split
  next hkind =>
    rw [yields_advance_bind, bind_assoc, yields_expect_bind, bind_assoc, yields_current_bind]
    simp only [pure_bind, yields_pure, Option.some.injEq, hkind, true_and]
    rfl
  next hkind => simp [yields_pure, hkind]

/-- Either the closing parenthesis is next, or a name and then rounds of
further names up to the closing parenthesis. -/
theorem yields_parameters {ns : List Name} :
    grammar.parameters.Yields c ns r ↔
      c.peek.kind = .closeParen ∧ ns = [] ∧ r = c.advance ∨
        c.peek.kind = .name ∧ ∃ rest m, Rounds nextParameter c.advance rest m ∧
          m.peek.kind = .closeParen ∧ ns = ⟨c.peek, c.peek.literal⟩ :: rest ∧ r = m.advance := by
  unfold parameters
  rw [yields_peek_bind]
  split
  next hkind =>
    rw [yields_advance_bind, yields_pure]
    simp [hkind]
  next hkind =>
    unfold parameter
    rw [bind_assoc, yields_expect_bind, bind_assoc, yields_current_bind, pure_bind, yields_bind]
    simp only [yields_expect_bind, yields_pure, yields_many progresses_nextParameter, hkind,
      false_and, false_or]
    rfl

theorem yields_function {e : Expr} :
    grammar.function.Yields c e r ↔
      c.peek.kind = .openParen ∧
        ∃ ns m, grammar.parameters.Yields c.advance ns m ∧ m.peek.kind = .openBrace ∧
          ∃ body, grammar.block.Yields m.advance body r ∧ e = .function c.current ns body := by
  unfold function
  rw [yields_current_bind, yields_expect_bind, yields_bind]
  simp only [yields_expect_bind, yields_bind_pure]

theorem yields_nextArgument_none :
    grammar.nextArgument.Yields c none r ↔ c.peek.kind ≠ .comma ∧ r = c := by
  unfold nextArgument
  rw [yields_peek_bind]
  split
  next hkind =>
    rw [yields_advance_bind, yields_advance_bind, yields_bind_pure]
    simp [hkind]
  next hkind => simp [yields_pure, hkind]

theorem yields_nextArgument_some {e : Expr} :
    grammar.nextArgument.Yields c (some e) r ↔
      c.peek.kind = .comma ∧ (grammar.expression .lowest).Yields c.advance.advance e r := by
  unfold nextArgument
  rw [yields_peek_bind]
  split
  next hkind =>
    rw [yields_advance_bind, yields_advance_bind, yields_bind_pure]
    simp [hkind]
  next hkind => simp [yields_pure, hkind]

/-- Either the closing parenthesis is next, or an expression and then rounds
of further expressions up to the closing parenthesis. -/
theorem yields_arguments {es : List Expr} :
    grammar.arguments.Yields c es r ↔
      c.peek.kind = .closeParen ∧ es = [] ∧ r = c.advance ∨
        c.peek.kind ≠ .closeParen ∧
          ∃ first k, (grammar.expression .lowest).Yields c.advance first k ∧
            ∃ rest m, Rounds grammar.nextArgument k rest m ∧
              m.peek.kind = .closeParen ∧ es = first :: rest ∧ r = m.advance := by
  unfold arguments
  rw [yields_peek_bind]
  split
  next hkind =>
    rw [yields_advance_bind, yields_pure]
    simp [hkind]
  next hkind =>
    rw [yields_advance_bind, yields_bind]
    simp only [yields_bind (p := many _), yields_expect_bind, yields_pure,
      yields_many (progresses_nextArgument grammar), hkind, false_and, false_or,
      not_false_eq_true, true_and, ne_eq]

theorem yields_call {callee e : Expr} :
    (grammar.call callee).Yields c e r ↔
      ∃ es, grammar.arguments.Yields c es r ∧ e = .call c.current callee es := by
  unfold call
  rw [yields_current_bind, yields_bind_pure]

end Grammar

/-! ## Precedence climbing -/

namespace Operators

open MonkeyFrontend.Parser

variable (strengths : Strengths) {grammar : Grammar} {c r : Cursor}

theorem yields_expressionIn {weakest : Precedence} {e : Expr} :
    ((dialect strengths).expressionIn grammar weakest).Yields c e r ↔
      ∃ rule, standardPrefixRule? c.current.kind = some rule ∧
        ∃ left m, (rule grammar).Yields c left m ∧
          (grow ((dialect strengths).extend grammar weakest) left).Yields m e r := by
  unfold expressionIn
  rw [yields_current_bind]
  split
  next hrule =>
    have hnone : standardPrefixRule? c.current.kind = none := hrule
    simp [yields_abort, hnone]
  next rule hrule =>
    have hsome : standardPrefixRule? c.current.kind = some rule := hrule
    rw [yields_bind, hsome]
    constructor
    · rintro ⟨left, m, hleft, hgrow⟩
      exact ⟨rule, rfl, left, m, hleft, hgrow⟩
    · rintro ⟨_, heq, left, m, hleft, hgrow⟩
      cases heq
      exact ⟨left, m, hleft, hgrow⟩

variable (hlevel : grammar.precedence = strengths.precedence)
include hlevel

/-- A token that binds strongly enough has a rule, and it is no semicolon. -/
theorem exists_infixRule_of_lt {weakest : Precedence} {kind : Kind}
    (h : weakest < grammar.precedence kind) :
    kind ≠ .semicolon ∧ ∃ rule : InfixRule, standardInfixRule? kind = some rule := by
  have hstrong : .lowest < strengths.precedence kind := by
    rw [← hlevel]
    exact Nat.lt_of_le_of_lt (show Precedence.lowest ≤ weakest by cases weakest <;> decide) h
  rw [Strengths.lowest_lt_precedence_iff] at hstrong
  rcases hstrong with hbinary | rfl
  · refine ⟨?_, _, standardInfixRule?_of_isBinary hbinary⟩
    rintro rfl
    cases hbinary
  · exact ⟨by decide, _, rfl⟩

/-- A semicolon stops an expression because it does not bind strongly enough. -/
theorem not_lt_of_stops {weakest : Precedence} {kind : Kind}
    (h : kind = .semicolon ∨ ¬ weakest < grammar.precedence kind) :
    ¬ weakest < grammar.precedence kind := by
  rcases h with hsemi | hweak
  · intro hlt
    exact (exists_infixRule_of_lt strengths hlevel hlt).1 hsemi
  · exact hweak

/-- An expression ends at a token that does not bind strongly enough. -/
theorem yields_extend_none {weakest : Precedence} {left : Expr} :
    ((dialect strengths).extend grammar weakest left).Yields c none r ↔
      ¬ weakest < grammar.precedence c.peek.kind ∧ r = c := by
  unfold extend
  rw [yields_peek_bind]
  split
  next hstop =>
    have hweak := not_lt_of_stops strengths hlevel hstop
    simp [yields_pure, hweak]
  next hgo =>
    rw [not_or, Classical.not_not] at hgo
    obtain ⟨_, rule, hrule⟩ := exists_infixRule_of_lt strengths hlevel hgo.2
    have hsome : (dialect strengths).infixRule? c.peek.kind = some rule := hrule
    rw [hsome]
    simp only [yields_advance_bind, yields_bind_pure]
    simp [hgo.2]

/-- An expression goes on at a token that binds strongly enough. -/
theorem yields_extend_some {weakest : Precedence} {left e : Expr} :
    ((dialect strengths).extend grammar weakest left).Yields c (some e) r ↔
      weakest < grammar.precedence c.peek.kind ∧
        ∃ rule, standardInfixRule? c.peek.kind = some rule ∧
          (rule grammar left).Yields c.advance e r := by
  unfold extend
  rw [yields_peek_bind]
  split
  next hstop =>
    have hweak := not_lt_of_stops strengths hlevel hstop
    simp [yields_pure, hweak]
  next hgo =>
    rw [not_or, Classical.not_not] at hgo
    obtain ⟨_, rule, hrule⟩ := exists_infixRule_of_lt strengths hlevel hgo.2
    have hsome : (dialect strengths).infixRule? c.peek.kind = some rule := hrule
    rw [hsome]
    simp only [yields_advance_bind, yields_bind_pure]
    simp [hgo.2, hrule]

end Operators

end MonkeyFrontend
