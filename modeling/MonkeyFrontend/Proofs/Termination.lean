import MonkeyFrontend.Proofs.Acceptance
import MonkeyFrontend.Proofs.StatementCalls

/-!
# Reading comes to an end

The reader consists of loops and of calls to itself, and the tokens that are left count
down in both. A round of a loop that does not end the loop passes a token, even if it fails
(`Parser.Shortens`). An expression or a statement that is read inside another one
begins behind the first token of the outer one.

The second of these is said without a record of the calls. If the reader of an
expression is given other readers for the expressions and the statements inside, it gives
the same, as long as these agree with the real ones at the places behind its first token
(`run_expressionIn_withStatements`, `Grammar.AlikeOn.expressionIn`). So it cannot have asked
them anything elsewhere.

A recursion that is allowed one call inside another for each token that is left therefore
reads all there is to read, whatever stands at its bottom. After a program the
input is at its end, and there a second program is empty.

## Main results

* `Operators.run_expressionIn_of_agree` — an expression turns to expressions and
  statements behind its first token only.
* `Operators.run_statement_of_agree` — a statement turns to expressions that begin with it
  or later.
* `parse_terminates` — all loops and calls pass tokens, and the end is reached.
-/

namespace MonkeyFrontend

open Cursor

/-! ## Rounds -/

namespace Parser

variable {α : Type}

/-- A round that does not end its loop leaves fewer tokens than it found. -/
def Shortens (round : Parser (Option α)) : Prop :=
  ∀ c, (round.run c).value? ≠ some none → (round.run c).rest.size < c.size

/-- A round that begins with passing a token shortens the input. -/
theorem size_rest_lt_of_advance {p : Parser α} {c : Cursor} (hnil : c.tokens ≠ []) :
    (p.run c.advance).rest.size < c.size :=
  Nat.lt_of_le_of_lt (size_rest_le p c.advance) (size_advance_lt hnil)

end Parser

namespace Cursor

theorem tokens_ne_nil_of_peek {c : Cursor} (h : c.peek.kind ≠ .endOfInput) : c.tokens ≠ [] := by
  intro hempty
  exact h (by simp [peek, hempty, Token.endOfInput])

end Cursor

namespace Grammar

open MonkeyFrontend.Parser

/-- A round that needs a comma to go on shortens the input. -/
theorem shortens_comma {α : Type} (more : Parser (Option α)) :
    Shortens (do
      let next ← peek
      if next.kind = .comma then
        advance
        more
      else
        pure none) := by
  intro c hopen
  rw [run_peek_bind] at hopen ⊢
  by_cases hcomma : c.peek.kind = .comma
  · rw [if_pos hcomma, run_advance_bind]
    exact size_rest_lt_of_advance (tokens_ne_nil_of_peek (by rw [hcomma]; decide))
  · rw [if_neg hcomma] at hopen
    exact absurd rfl hopen

theorem shortens_nextParameter : Shortens nextParameter := shortens_comma _

theorem shortens_nextArgument (grammar : Grammar) : Shortens grammar.nextArgument :=
  shortens_comma _

end Grammar

/-- The rounds of a loop over statements shorten the input. None of them fails. -/
theorem StatementLoop.Rounds.shortens {loop : StatementLoop} {grammar : Grammar}
    {round : Parser (Option (Option Statement))} (h : loop.Rounds grammar round) :
    Parser.Shortens round := by
  intro c hopen
  by_cases hstops : loop.stops c
  · rw [h.stop hstops] at hopen
    exact absurd rfl hopen
  · exact h.progresses c (grammar.called c) (by rw [h.call hstops])

theorem Operators.shortens_extend (strengths : Strengths) (grammar : Grammar)
    (weakest : Precedence) (left : Expr) :
    Parser.Shortens ((dialect strengths).extend grammar weakest left) := by
  intro c hopen
  unfold extend at hopen ⊢
  rw [Parser.run_peek_bind] at hopen ⊢
  split at hopen
  · exact absurd rfl hopen
  next hstrong =>
    rw [if_neg hstrong]
    split at hopen
    · exact absurd rfl hopen
    next rule hrule =>
      have hkind : c.peek.kind ≠ .endOfInput := by
        intro heq
        rw [heq] at hrule
        cases hrule
      rw [Parser.run_advance_bind]
      exact Parser.size_rest_lt_of_advance (tokens_ne_nil_of_peek hkind)

/-! ## Statements inside -/

namespace Grammar

open MonkeyFrontend.Parser

/-- The round of a block that calls for its statements elsewhere. -/
def blockItemOver (statement : Parser (Option Statement)) :
    Parser (Option (Option Statement)) := do
  let token ← current
  if token.kind = .closeBrace ∨ token.kind = .endOfInput then
    pure none
  else
    let statement ← statement
    let last ← current
    if statement.isNone ∧ last.kind = .closeBrace then pure () else advance
    pure (some statement)

/-- A block that calls for its statements elsewhere. -/
def blockOver (statement : Parser (Option Statement)) : Parser Block := do
  let token ← current
  advance
  let found ← many (blockItemOver statement)
  let last ← current
  if last.kind = .endOfInput then
    abort (.unexpected .closeBrace .endOfInput)
  else
    pure ⟨token, found.filterMap id⟩

/-- The block behind an `else`, read by the given parser. -/
def alternativeOver (block : Parser Block) : Parser (Option Block) := do
  let next ← peek
  if next.kind = .elseWord then
    advance
    expect .openBrace
    let block ← block
    pure (some block)
  else
    pure none

/-- A conditional whose blocks are read by the given parser. -/
def conditionalOver (block : Parser Block) (grammar : Grammar) : Parser Expr := do
  let token ← current
  expect .openParen
  advance
  let condition ← grammar.expression .lowest
  expect .closeParen
  expect .openBrace
  let consequence ← block
  let alternative ← alternativeOver block
  pure (.conditional token condition consequence alternative)

/-- A function whose body is read by the given parser. -/
def functionOver (block : Parser Block) (grammar : Grammar) : Parser Expr := do
  let token ← current
  expect .openParen
  let parameters ← grammar.parameters
  expect .openBrace
  let body ← block
  pure (.function token parameters body)

theorem block_eq (grammar : Grammar) : grammar.block = blockOver grammar.statement := rfl

theorem conditional_eq (grammar : Grammar) :
    grammar.conditional = conditionalOver grammar.block grammar := rfl

theorem function_eq (grammar : Grammar) :
    grammar.function = functionOver grammar.block grammar := rfl

variable {c : Cursor}

/-- A block calls for statements behind its brace only. -/
theorem run_blockOver_alike {statement other : Parser (Option Statement)}
    (h : ∀ r, c.advance.Reaches r → statement.run r = other.run r) :
    (blockOver statement).run c = (blockOver other).run c := by
  unfold blockOver
  rw [run_current_bind, run_current_bind, run_advance_bind, run_advance_bind]
  apply run_bind_alike
  · apply run_many_alike
    intro r hr
    unfold blockItemOver
    rw [run_current_bind, run_current_bind]
    split
    · rfl
    · apply run_bind_alike (h r hr)
      intros
      rfl
  · intros
    rfl

theorem run_alternativeOver_alike {block other : Parser Block}
    (h : ∀ r, c.Reaches r → block.run r = other.run r) :
    (alternativeOver block).run c = (alternativeOver other).run c := by
  apply run_bind_alike rfl
  intro token r₁ h₁
  split
  · apply run_bind_alike rfl
    intro _ r₂ h₂
    apply run_bind_alike rfl
    intro _ r₃ h₃
    apply run_bind_alike (h r₃ ((h₁.trans h₂).trans h₃))
    intros
    rfl
  · rfl

theorem run_conditionalOver_alike {block other : Parser Block} (grammar : Grammar)
    (h : ∀ r, c.Reaches r → block.run r = other.run r) :
    (conditionalOver block grammar).run c = (conditionalOver other grammar).run c := by
  apply run_bind_alike rfl
  intro token r₁ h₁
  apply run_bind_alike rfl
  intro _ r₂ h₂
  apply run_bind_alike rfl
  intro _ r₃ h₃
  apply run_bind_alike rfl
  intro condition r₄ h₄
  apply run_bind_alike rfl
  intro _ r₅ h₅
  apply run_bind_alike rfl
  intro _ r₆ h₆
  have h₆ : c.Reaches r₆ := ((((h₁.trans h₂).trans h₃).trans h₄).trans h₅).trans h₆
  apply run_bind_alike (h r₆ h₆)
  intro consequence r₇ h₇
  apply run_bind_alike (run_alternativeOver_alike fun r hr => h r ((h₆.trans h₇).trans hr))
  intros
  rfl

theorem run_functionOver_alike {block other : Parser Block} (grammar : Grammar)
    (h : ∀ r, c.Reaches r → block.run r = other.run r) :
    (functionOver block grammar).run c = (functionOver other grammar).run c := by
  apply run_bind_alike rfl
  intro token r₁ h₁
  apply run_bind_alike rfl
  intro _ r₂ h₂
  apply run_bind_alike rfl
  intro parameters r₃ h₃
  apply run_bind_alike rfl
  intro _ r₄ h₄
  apply run_bind_alike (h r₄ (((h₁.trans h₂).trans h₃).trans h₄))
  intros
  rfl

end Grammar

theorem Cursor.before_of_advance_reaches {c r : Cursor} (hnil : c.tokens ≠ [])
    (h : c.advance.Reaches r) : c.Before r :=
  ⟨(reaches_advance c).trans h, Nat.lt_of_le_of_lt h.size_le (size_advance_lt hnil)⟩

namespace Operators

open MonkeyFrontend.Parser

/-- The language's tables, with conditionals and functions whose blocks call for their
statements elsewhere. -/
def withStatements (statement : Parser (Option Statement)) : Operators :=
  let block := Grammar.blockOver statement
  (standard.setPrefixRule .ifWord (Grammar.conditionalOver block)).setPrefixRule .fnWord
    (Grammar.functionOver block)

variable {c : Cursor} {statement : Parser (Option Statement)}

/-- The blocks of an expression call for statements behind its first token only. -/
theorem run_expressionIn_withStatements (grammar : Grammar) (weakest : Precedence)
    (h : ∀ r, c.Before r → statement.run r = grammar.statement.run r) :
    ((withStatements statement).expressionIn grammar weakest).run c =
      (standard.expressionIn grammar weakest).run c := by
  have hblock : c.tokens ≠ [] → ∀ r, c.Reaches r →
      (Grammar.blockOver statement).run r = grammar.block.run r := by
    intro hnil r hr
    rw [Grammar.block_eq]
    apply Grammar.run_blockOver_alike
    intro k hk
    exact h k (before_of_advance_reaches hnil (hr.advance.trans hk))
  unfold expressionIn
  rw [run_current_bind, run_current_bind]
  by_cases hif : c.current.kind = .ifWord
  · have hnil := tokens_ne_nil_of_kind (c := c) (by rw [hif]; decide)
    have hconditional : (Grammar.conditionalOver (Grammar.blockOver statement) grammar).run c =
        grammar.conditional.run c := by
      rw [Grammar.conditional_eq]
      exact Grammar.run_conditionalOver_alike grammar (hblock hnil)
    rw [hif]
    apply run_bind_alike hconditional
    intros
    rfl
  · by_cases hfn : c.current.kind = .fnWord
    · have hnil := tokens_ne_nil_of_kind (c := c) (by rw [hfn]; decide)
      have hfunction : (Grammar.functionOver (Grammar.blockOver statement) grammar).run c =
          grammar.function.run c := by
        rw [Grammar.function_eq]
        exact Grammar.run_functionOver_alike grammar (hblock hnil)
      rw [hfn]
      apply run_bind_alike hfunction
      intros
      rfl
    · have hrule : (withStatements statement).prefixRule? c.current.kind =
          standard.prefixRule? c.current.kind :=
        (update_of_ne _ _ hfn).trans (update_of_ne _ _ hif)
      rw [hrule]
      rfl

/-- An expression turns to expressions and statements behind its first token only. -/
theorem run_expressionIn_of_agree {inner : Precedence → Parser Expr} (weakest : Precedence)
    (hinner : ∀ weakest r, c.Before r →
      (inner weakest).run r = (standard.expression weakest).run r)
    (hstatement : ∀ r, c.Before r → statement.run r = standard.grammar.statement.run r) :
    ((withStatements statement).expressionIn ⟨inner, standard.precedence⟩ weakest).run c =
      (standard.expression weakest).run c := by
  have halike : Grammar.AlikeOn .same c.Before ⟨inner, standard.precedence⟩ standard.grammar :=
    { advance := fun {r} hr => by
        have hshort : r.advance.size ≤ r.size := (reaches_advance r).size_le
        exact ⟨hr.1.trans (reaches_advance r), Nat.lt_of_le_of_lt hshort hr.2⟩
      expression := fun hr => hinner _ _ hr }
  have hinside : ∀ r, c.Before r → statement.run r =
      (Grammar.mk inner standard.precedence).statement.run r := by
    intro r hr
    exact (hstatement r hr).trans (halike.statement hr).symm
  rw [run_expressionIn_withStatements _ _ hinside, ← dialect_standard, expression_eq]
  by_cases hnil : c.tokens = []
  · rw [run_expressionIn_of_tokens_eq_nil _ _ _ hnil, run_expressionIn_of_tokens_eq_nil _ _ _ hnil]
  · exact halike.expressionIn rfl rfl (actsAlikeFrom_dialect .standard c)
      (before_of_advance_reaches hnil (.refl _)) weakest

/-- A statement turns to expressions that begin where it begins or later. -/
theorem run_statement_of_agree {inner : Precedence → Parser Expr}
    (hinner : ∀ weakest r, c.Reaches r →
      (inner weakest).run r = (standard.expression weakest).run r) :
    (Grammar.mk inner standard.precedence).statement.run c = standard.grammar.statement.run c := by
  have halike : Grammar.AlikeOn .same c.Reaches ⟨inner, standard.precedence⟩ standard.grammar :=
    { advance := fun {r} hr => hr.trans (reaches_advance r)
      expression := fun hr => hinner _ _ hr }
  exact halike.statement (.refl c)

/-! ## Bounds -/

/-- So many levels and so many rounds suffice from a place on. A recursion or a loop that is
cut off behind them runs like one that is not, whatever stands at its bottom. -/
structure Suffices (bound : Nat) (c : Cursor) : Prop where
  expression : ∀ base weakest,
    (unrolled .standard base bound weakest).run c = (standard.expression weakest).run c
  statement : ∀ base,
    (Grammar.mk (unrolled .standard base bound) standard.precedence).statement.run c =
      standard.grammar.statement.run c
  program : (manyWithin standard.grammar.programItem bound).run c =
    (many standard.grammar.programItem).run c
  block : (manyWithin standard.grammar.blockItem bound).run c =
    (many standard.grammar.blockItem).run c
  parameters : (manyWithin Grammar.nextParameter bound).run c =
    (many Grammar.nextParameter).run c
  arguments : (manyWithin standard.grammar.nextArgument bound).run c =
    (many standard.grammar.nextArgument).run c
  growth : ∀ weakest left,
    (growWithin (standard.extend standard.grammar weakest) bound left).run c =
      (grow (standard.extend standard.grammar weakest) left).run c

/-- One more than the number of tokens that are left suffices. -/
theorem suffices_of_size_lt {bound : Nat} (h : c.size < bound) : Suffices bound c := by
  have hexpression : ∀ base weakest r, c.Reaches r →
      (unrolled .standard base bound weakest).run r = (standard.expression weakest).run r := by
    intro base weakest r hr
    have hshort : r.size < bound := Nat.lt_of_le_of_lt hr.size_le h
    exact (run_expression_eq_unrolled .standard base weakest hshort).symm
  have hmany : ∀ {α : Type} {item : Parser (Option α)}, Progresses item →
      (manyWithin item bound).run c = (many item).run c :=
    fun hitem => run_manyWithin_eq hitem h (Nat.lt_succ_self _)
  exact
    { expression := fun base weakest => hexpression base weakest c (.refl c)
      statement := fun base => run_statement_of_agree (hexpression base)
      program := hmany (Grammar.progresses_programItem _)
      block := hmany (Grammar.progresses_blockItem _)
      parameters := hmany Grammar.progresses_nextParameter
      arguments := hmany (Grammar.progresses_nextArgument _)
      growth := fun weakest left =>
        run_growWithin_eq (progresses_extend .standard standard.grammar weakest) h
          (Nat.lt_succ_self _) }

/-- All five loops of the reader pass tokens. -/
structure LoopsShorten : Prop where
  program : Shortens standard.grammar.programItem
  block : Shortens standard.grammar.blockItem
  parameters : Shortens Grammar.nextParameter
  arguments : Shortens standard.grammar.nextArgument
  growth : ∀ weakest left, Shortens (standard.extend standard.grammar weakest left)

theorem loopsShorten : LoopsShorten where
  program := standard.grammar.rounds_programItem.shortens
  block := standard.grammar.rounds_blockItem.shortens
  parameters := Grammar.shortens_nextParameter
  arguments := Grammar.shortens_nextArgument _
  growth := shortens_extend .standard _

end Operators

/-! ## Sources -/

/-- The tokens of a source that are left are those that do not stand for its end. -/
theorem Cursor.size_eq_of_ofSource {source : String} {c : Cursor}
    (h : (ofSource source).Reaches c) :
    c.size = (c.tokens.filter fun token => token.kind ≠ .endOfInput).length := by
  have hall : c.tokens.filter (fun token => token.kind ≠ .endOfInput) = c.tokens := by
    rw [List.filter_eq_self]
    intro token hmem
    have hkind := Token.kind_ne_endOfInput_of_mem_ofSource (h.tokens_subset hmem)
    exact decide_eq_true hkind
  rw [hall]
  rfl

/-- At the end of the input there are no statements. -/
theorem Grammar.run_statements_of_endOfInput (grammar : Grammar Routine) {reader : Reader}
    (h : reader.window.current.kind = .endOfInput) :
    grammar.statements.run reader = (some [], reader) := by
  have hitem : grammar.programItem.run reader = (some none, reader) := by
    have hcurrent : (Reading.current : Routine Token).run reader =
      (some reader.window.current, reader) := rfl
    unfold programItem
    rw [Routine.run_bind_of_some hcurrent, if_pos h]
    rfl
  have hitems : (Reading.many grammar.programItem).run reader = (some [], reader) := by
    show (Reading.manyWithin grammar.programItem (reader.window.left + 1)).run reader = _
    exact Routine.run_bind_of_some hitem
  exact Routine.run_bind_of_some hitems

/-- A session that has come to the end of its source finds nothing more and stays as it
is. -/
theorem Session.program_of_endOfInput {session : Session}
    (h : session.window.current.kind = .endOfInput) : session.program = (⟨[]⟩, session) := by
  have hrun := session.operators.grammar.run_statements_of_endOfInput h
  unfold Session.program Session.perform
  rw [hrun]
  rfl

/-- The statements of a program are read up to the end of the input. -/
theorem Grammar.exists_run_statements (grammar : Grammar) (c : Cursor) :
    ∃ trees, (grammar.statements.run c).value? = some trees ∧
      (grammar.statements.run c).rest.current.kind = .endOfInput := by
  obtain ⟨places, finish, hcalls⟩ := grammar.rounds_programItem.exists_calls c
  rw [grammar.run_statements_of_calls hcalls]
  exact ⟨_, rfl, hcalls.stops⟩

/-- Every source is read to its end, whatever is wrong with it. The tokens that are left
count down: every round of a loop passes one, so does every step of recovery, and what is
read inside an expression begins behind the expression's first token. So a bound of that
many levels and rounds is never felt. After a program there is nothing left to read, and
nothing to report. -/
theorem parse_terminates (source : String) (diagnostics? : Option Diagnostics) :
    let start := Cursor.ofSource source
    let reader := Operators.standard.grammar
    let read := (Session.start source diagnostics?).program
    (∀ c, start.Reaches c →
      c.size = (c.tokens.filter fun token => token.kind ≠ .endOfInput).length) ∧
    Operators.LoopsShorten ∧
    (∀ home (c : Cursor), ¬ c.IsEnd home →
      c.skip home = c.advance.skip home ∧ c.advance.size < c.size) ∧
    (∀ (c : Cursor) inner statement,
      (∀ weakest r, c.Before r → (inner weakest).run r = (reader.expression weakest).run r) →
      (∀ r, c.Before r → statement.run r = reader.statement.run r) →
      ∀ weakest,
        ((Operators.withStatements statement).expressionIn
            ⟨inner, Operators.standard.precedence⟩ weakest).run c =
          (reader.expression weakest).run c) ∧
    (∀ (c : Cursor) (inner : Precedence → Parser Expr),
      (∀ weakest r, c.Reaches r → (inner weakest).run r = (reader.expression weakest).run r) →
      (Grammar.mk inner Operators.standard.precedence).statement.run c =
        reader.statement.run c) ∧
    (∀ bound c, c.size < bound → Operators.Suffices bound c) ∧
    (reader.statements.run start).value? = some (parse source).1.statements ∧
    read.1 = (parse source).1 ∧
    read.2.window.current.kind = .endOfInput ∧
    read.2.program = (⟨[]⟩, read.2) := by
  intro start reader read
  obtain ⟨trees, hvalue, hkind⟩ := reader.exists_run_statements start
  obtain ⟨hprogram, hshows, _⟩ := Session.program_start source diagnostics?
  have hend : read.2.window.current.kind = .endOfInput := by
    rw [hshows.current]
    exact hkind
  refine ⟨fun c hc => size_eq_of_ofSource hc, Operators.loopsShorten, ?_, ?_, ?_, ?_, ?_, ?_,
    hend, Session.program_of_endOfInput hend⟩
  · intro home c hopen
    exact ⟨skip_of_not_isEnd hopen, size_advance_lt (tokens_ne_nil_of_not_isEnd hopen)⟩
  · intro c inner statement hinner hstatement weakest
    exact Operators.run_expressionIn_of_agree weakest hinner hstatement
  · intro c inner hinner
    exact Operators.run_statement_of_agree hinner
  · intro bound c hshort
    exact Operators.suffices_of_size_lt hshort
  · rw [hvalue, parse_statements, hvalue]
    rfl
  · rw [parse_eq]
    exact hprogram

end MonkeyFrontend
