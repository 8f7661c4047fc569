import MonkeyFrontend.Proofs.Simulation

/-!
# Expressions without a bound

An expression may hold expressions, so the reader of expressions calls
itself. It does so under a bound, the number of tokens that are left, and
this module shows that the bound is never felt: in every dialect the reader
of expressions satisfies the equation that one would write down without a
bound (`Operators.expression_eq`).

The argument is that constructs call the reader of expressions only at
places after their own first token. To run alike is a simulation of parsers
by parsers (`Simulation.same`), so two grammars that read expressions alike
on short inputs read them alike on inputs one token longer, and all bounds
that are large enough turn out to be equally good.

From this follows the induction by which properties of the reader are
proved. `Operators.unrolled` is the reader with its self-calls replaced, at
some depth of nesting, by any other parser; a reader that is unrolled deeply
enough cannot be told from the real one. So a property that one round of
`expressionIn` preserves, and that some parser has, is a property of the
reader, provided it speaks of places of bounded size only.

## Main results

* `Simulation.same` — parsers that run alike.
* `Operators.expression_eq` — the reader of expressions unfolds without a bound.
* `Operators.expression_induction` — the induction over its self-calls.
-/

namespace MonkeyFrontend

/-! ## Parsers that run alike -/

/-- Parsers that run alike from a place on. -/
def Simulation.same : Simulation Parser where
  Matches c p q := p.run c = q.run c
  value _ _ := rfl
  andThen hfirst hnext := by
    rw [← hfirst] at hnext
    exact Parser.run_bind_congr hfirst hnext
  current _ := rfl
  peek _ := rfl
  depth _ := rfl
  advance _ := rfl
  skip _ _ := rfl
  fail _ := rfl
  abort _ _ := rfl
  attempt h := by rw [Parser.run_attempt, Parser.run_attempt, h]
  bounded h _ := h _ (Nat.lt_succ_self _)

theorem Parser.run_many_alike {α : Type} {item other : Parser (Option α)} {c : Cursor}
    (h : ∀ r, c.Reaches r → item.run r = other.run r) :
    (many item).run c = (many other).run c := by
  show (manyWithin item (c.size + 1)).run c = (manyWithin other (c.size + 1)).run c
  exact Simulation.same.manyWithin h

/-- The tables of a dialect act like themselves. -/
theorem Operators.actsAlikeFrom_dialect (strengths : Strengths) (c : Cursor) :
    (dialect strengths).ActsAlikeFrom strengths c :=
  fun _ _ => ⟨rfl, rfl⟩

/-! ## The bound is never felt -/

namespace Operators

variable (strengths : Strengths)

/-- At the end of the input there is no expression, whatever the grammar. -/
theorem run_expressionIn_of_tokens_eq_nil (grammar : Grammar) (weakest : Precedence) {c : Cursor}
    (h : c.tokens = []) :
    ((dialect strengths).expressionIn grammar weakest).run c =
      ⟨none, [.noExpression .endOfInput], 0, c⟩ := by
  unfold expressionIn
  rw [Parser.run_current_bind, Cursor.current_of_tokens_eq_nil h]
  rfl

/-- One more round on top of two grammars that agree on short inputs makes
two that agree on inputs one token longer. -/
theorem run_expressionIn_eq {first second : Precedence → Parser Expr} (count : Nat)
    (h : ∀ weakest c, c.size < count → (first weakest).run c = (second weakest).run c)
    (weakest : Precedence) {c : Cursor} (hc : c.size ≤ count) :
    ((dialect strengths).expressionIn ⟨first, strengths.precedence⟩ weakest).run c =
      ((dialect strengths).expressionIn ⟨second, strengths.precedence⟩ weakest).run c := by
  by_cases hnil : c.tokens = []
  · rw [run_expressionIn_of_tokens_eq_nil _ _ _ hnil, run_expressionIn_of_tokens_eq_nil _ _ _ hnil]
  · have alike : Grammar.AlikeOn .same (fun r => r.size < count)
        ⟨first, strengths.precedence⟩ ⟨second, strengths.precedence⟩ :=
      { advance := fun {c} hr => by
          rw [Cursor.size_advance]
          omega
        expression := fun hr => h _ _ hr }
    have hsmall : c.advance.size < count := by
      have := Cursor.size_advance_lt hnil
      omega
    exact alike.expressionIn rfl rfl (actsAlikeFrom_dialect strengths c) hsmall weakest

/-- The reader with its self-calls replaced, `depth` expressions deep, by
another parser. -/
def unrolled (base : Precedence → Parser Expr) : Nat → Precedence → Parser Expr
  | 0 => base
  | depth + 1 => fun weakest =>
    (dialect strengths).expressionIn ⟨unrolled base depth, strengths.precedence⟩ weakest

/-- A bound is the reader unrolled so many times, down to a parser that fails. -/
theorem expressionWithin_eq_unrolled (bound : Nat) (weakest : Precedence) :
    (dialect strengths).expressionWithin bound weakest =
      unrolled strengths (fun _ => Parser.fail) bound weakest := by
  induction bound generalizing weakest with
  | zero => rfl
  | succ bound ih =>
      have inner : (dialect strengths).expressionWithin bound =
          unrolled strengths (fun _ => Parser.fail) bound := funext ih
      show (dialect strengths).expressionIn
        ⟨(dialect strengths).expressionWithin bound, strengths.precedence⟩ weakest = _
      rw [inner]
      rfl

/-- What the reader is unrolled down to cannot be seen on short inputs. -/
theorem run_unrolled_eq {base other : Precedence → Parser Expr} {depth : Nat} :
    ∀ {deeper : Nat} {weakest : Precedence} {c : Cursor}, c.size < depth → c.size < deeper →
      (unrolled strengths base depth weakest).run c =
        (unrolled strengths other deeper weakest).run c := by
  induction depth with
  | zero => intro _ _ _ h _; omega
  | succ depth ih =>
      intro deeper weakest c hdepth hdeeper
      cases deeper with
      | zero => omega
      | succ deeper =>
          apply run_expressionIn_eq strengths (min depth deeper)
          · intro weakest r hr
            exact ih (by omega) (by omega)
          · omega

/-- On short inputs the reader is any of its unrollings that is deep enough. -/
theorem run_expression_eq_unrolled (base : Precedence → Parser Expr) {depth : Nat}
    (weakest : Precedence) {c : Cursor} (h : c.size < depth) :
    ((dialect strengths).expression weakest).run c =
      (unrolled strengths base depth weakest).run c := by
  show ((dialect strengths).expressionWithin (c.size + 1) weakest).run c = _
  rw [expressionWithin_eq_unrolled]
  exact run_unrolled_eq strengths (Nat.lt_succ_self _) h

/-- All bounds that exceed the number of tokens left are equally good. -/
theorem run_expressionWithin_eq {bound other : Nat} (weakest : Precedence) {c : Cursor}
    (hbound : c.size < bound) (hother : c.size < other) :
    ((dialect strengths).expressionWithin bound weakest).run c =
      ((dialect strengths).expressionWithin other weakest).run c := by
  rw [expressionWithin_eq_unrolled, expressionWithin_eq_unrolled]
  exact run_unrolled_eq strengths hbound hother

/-- The equation by which the reader of expressions unfolds. -/
theorem expression_eq (weakest : Precedence) :
    (dialect strengths).expression weakest =
      (dialect strengths).expressionIn (dialect strengths).grammar weakest := by
  apply Parser.ext
  intro c
  rw [run_expression_eq_unrolled strengths (dialect strengths).expression weakest
    (show c.size < c.size + 2 by omega)]
  apply run_expressionIn_eq strengths (c.size + 1)
  · intro weakest r hr
    exact (run_expression_eq_unrolled strengths _ weakest hr).symm
  · omega

/-- Induction over the self-calls of the reader. A property of expression
parsers holds of the reader if one round on top of a parser preserves it,
some parser has it, and it is decided by what happens on short inputs. -/
theorem expression_induction {motive : (Precedence → Parser Expr) → Prop}
    (base : Precedence → Parser Expr) (hbase : motive base)
    (round : ∀ inner, motive inner →
      motive fun weakest =>
        (dialect strengths).expressionIn ⟨inner, strengths.precedence⟩ weakest)
    (limit : ∀ reader : Precedence → Parser Expr,
      (∀ count, ∃ shallow, motive shallow ∧ ∀ weakest c, c.size < count →
        (reader weakest).run c = (shallow weakest).run c) → motive reader) :
    motive (dialect strengths).expression := by
  have hall : ∀ depth, motive (unrolled strengths base depth) := by
    intro depth
    induction depth with
    | zero => exact hbase
    | succ depth ih => exact round _ ih
  apply limit
  intro count
  exact ⟨unrolled strengths base count, hall count,
    fun weakest _ h => run_expression_eq_unrolled strengths base weakest h⟩

end Operators

/-! ## Tables that act like those of a dialect -/

/-- Grammars of tables that act alike read expressions alike. -/
theorem Operators.grammar_alikeOn {m : Type → Type} [Monad m] [Reading m] (S : Simulation m)
    (ops : Operators m) (strengths : Strengths) :
    Grammar.AlikeOn S (ops.ActsAlikeFrom strengths) ops.grammar (dialect strengths).grammar where
  advance hops := hops.reaches (Cursor.reaches_advance _)
  expression hops :=
    S.bounded (fun bound _ => matches_expressionWithin S bound _ hops)
      fun _ hbound => run_expressionWithin_eq strengths _ hbound (Nat.lt_succ_self _)

end MonkeyFrontend
