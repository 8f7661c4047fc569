import MonkeyFrontend.Proofs.Progress

/-!
# Readers that do the same

The constructs of the language are put together from the few things that a reader can do. So if
readers of some kind and parsers do each of these things alike, in whatever sense of the word, they
read every construct alike. A `Simulation` is such a sense: a relation between readers and parsers,
from a place on, that the single steps satisfy and that sequences, repetitions and recovered
failures inherit.

Constructs turn to the reader of expressions only at places behind their own first token. So if two
grammars read expressions alike from the places of some set on, and the places behind a construct's
first token belong to that set, then the two grammars read the construct alike. `Grammar.AlikeOn`
is the hypothesis, and there is one lemma for each construct.

The operator tables are looked into in three places only. The table of beginnings is asked about
the token at which an expression starts. The strengths and the table of extensions are asked about
the token behind an expression, and together they say one thing: with which strength and by which
rule the token extends the expression, or that it does not (`Operators.extension?`). The rule for
binary operators asks for the strength of its operator again, but it is only run where the operator
was found to extend something. So tables that agree with those of a dialect, about each kind of
token that may be met, on the rule of the beginning and on the extension (`Operators.ActsAlike`)
read expressions like the dialect (`Operators.matches_expressionWithin`).

## Main results

* `Simulation.many`, `Simulation.grow` — repetitions.
* `Grammar.AlikeOn.statements`, `Grammar.AlikeOn.block` — the constructs.
* `Grammar.AlikeOn.expressionIn` — one expression, if those inside it are read alike.
* `Operators.matches_expressionWithin` — expressions in expressions.
-/

namespace MonkeyFrontend

/-- A sense in which readers of some kind do the same as parsers from a place on. -/
structure Simulation (m : Type → Type) [Monad m] [Reading m] where
  Matches : {α : Type} → Cursor → m α → Parser α → Prop
  value : ∀ {α : Type} (c : Cursor) (a : α), Matches c (pure a) (pure a)
  /-- The second parts need to match where the first part of the parser stops. -/
  andThen : ∀ {α β : Type} {c : Cursor} {p : m α} {q : Parser α} {f : α → m β} {g : α → Parser β},
    Matches c p q → (∀ a, (q.run c).value? = some a → Matches (q.run c).rest (f a) (g a)) →
      Matches c (p >>= f) (q >>= g)
  current : ∀ c, Matches c Reading.current Parser.current
  peek : ∀ c, Matches c Reading.peek Parser.peek
  depth : ∀ c, Matches c Reading.depth Parser.depth
  advance : ∀ c, Matches c Reading.advance Parser.advance
  skip : ∀ c (home : Nat), Matches c (Reading.skip home) (Parser.skip home)
  fail : ∀ {α : Type} c, Matches c (Reading.fail : m α) Parser.fail
  abort : ∀ {α : Type} c fault, Matches c (Reading.abort fault : m α) (Parser.abort fault)
  attempt : ∀ {α : Type} {c : Cursor} {p : m α} {q : Parser α},
    Matches c p q → Matches c (Reading.attempt p) (Parser.attempt q)
  /-- The readers may have another bound than the parsers, if all that are large enough are
  equally good. -/
  bounded : ∀ {α : Type} {c : Cursor} {within : Nat → m α} {other : Nat → Parser α},
    (∀ bound, c.size < bound → Matches c (within bound) (other bound)) →
    (∀ bound, c.size < bound → (other bound).run c = (other (c.size + 1)).run c) →
      Matches c (Reading.bounded within) (Parser.bounded other)

variable {m : Type → Type} [Monad m] [Reading m]

namespace Simulation

variable (S : Simulation m) {α β : Type} {c : Cursor}

/-! ## Sequences -/

section Sequences

variable {f : Token → m β} {g : Token → Parser β}

theorem bind_current (h : S.Matches c (f c.current) (g c.current)) :
    S.Matches c (Reading.current >>= f) (Parser.current >>= g) :=
  S.andThen (S.current c) fun _ hvalue => by
    cases hvalue
    exact h

theorem bind_peek (h : S.Matches c (f c.peek) (g c.peek)) :
    S.Matches c (Reading.peek >>= f) (Parser.peek >>= g) :=
  S.andThen (S.peek c) fun _ hvalue => by
    cases hvalue
    exact h

theorem bind_advance {f : Unit → m β} {g : Unit → Parser β}
    (h : S.Matches c.advance (f ()) (g ())) :
    S.Matches c (Reading.advance >>= f) (Parser.advance >>= g) :=
  S.andThen (S.advance c) fun _ _ => h

/-- Two sequences match if their first parts do, and their second parts do wherever the first parts
may stop. -/
theorem bind {p : m α} {q : Parser α} {f : α → m β} {g : α → Parser β} (hfirst : S.Matches c p q)
    (hnext : ∀ a r, c.Reaches r → S.Matches r (f a) (g a)) : S.Matches c (p >>= f) (q >>= g) :=
  S.andThen hfirst fun a _ => hnext a _ (q.reaches_rest c)

end Sequences

theorem expect (c : Cursor) (kind : Kind) :
    S.Matches c (Reading.expect kind) (Parser.expect kind) := by
  apply S.bind_peek
  split
  · exact S.advance c
  · exact S.abort c _

/-! ## Repetitions -/

theorem manyWithin {item : m (Option α)} {other : Parser (Option α)} {bound : Nat} :
    ∀ {c : Cursor}, (∀ r, c.Reaches r → S.Matches r item other) →
      S.Matches c (Reading.manyWithin item bound) (Parser.manyWithin other bound) := by
  induction bound with
  | zero => exact fun _ => S.fail _
  | succ bound ih =>
      intro c h
      apply S.bind (h c (.refl c))
      intro found r hr
      cases found with
      | none => exact S.value r _
      | some first =>
          apply S.bind (ih fun r' hr' => h r' (hr.trans hr'))
          exact fun _ r' _ => S.value r' _

theorem many {item : m (Option α)} {other : Parser (Option α)}
    (hprogress : Parser.Progresses other) (h : ∀ r, c.Reaches r → S.Matches r item other) :
    S.Matches c (Reading.many item) (Parser.many other) :=
  S.bounded (fun _ _ => S.manyWithin h) fun _ hbound =>
    Parser.run_manyWithin_eq hprogress hbound (Nat.lt_succ_self _)

theorem growWithin {step : α → m (Option α)} {other : α → Parser (Option α)} {bound : Nat} :
    ∀ {value : α} {c : Cursor}, (∀ a r, c.Reaches r → S.Matches r (step a) (other a)) →
      S.Matches c (Reading.growWithin step bound value) (Parser.growWithin other bound value) := by
  induction bound with
  | zero => exact fun _ => S.fail _
  | succ bound ih =>
      intro value c h
      apply S.bind (h value c (.refl c))
      intro found r hr
      cases found with
      | none => exact S.value r _
      | some grown => exact ih fun a r' hr' => h a r' (hr.trans hr')

theorem grow {step : α → m (Option α)} {other : α → Parser (Option α)} {value : α}
    (hprogress : ∀ a, Parser.Progresses (other a))
    (h : ∀ a r, c.Reaches r → S.Matches r (step a) (other a)) :
    S.Matches c (Reading.grow step value) (Parser.grow other value) :=
  S.bounded (fun _ _ => S.growWithin h) fun _ hbound =>
    Parser.run_growWithin_eq hprogress hbound (Nat.lt_succ_self _)

/-! ## Constructs without expressions -/

theorem optionalSemicolon (c : Cursor) :
    S.Matches c Grammar.optionalSemicolon Grammar.optionalSemicolon := by
  apply S.bind_peek
  split
  · exact S.advance c
  · exact S.value c _

theorem parameter (c : Cursor) : S.Matches c Grammar.parameter Grammar.parameter := by
  apply S.bind (S.expect c _)
  intro _ r _
  apply S.bind_current
  exact S.value r _

theorem nextParameter (c : Cursor) : S.Matches c Grammar.nextParameter Grammar.nextParameter := by
  apply S.bind_peek
  split
  · apply S.bind_advance
    apply S.bind (S.parameter _)
    exact fun _ r _ => S.value r _
  · exact S.value c _

theorem parameters (c : Cursor) (first : Grammar m) (second : Grammar) :
    S.Matches c first.parameters second.parameters := by
  apply S.bind_peek
  split
  · apply S.bind_advance
    exact S.value _ _
  · apply S.bind (S.parameter c)
    intro name r _
    apply S.bind (S.many Grammar.progresses_nextParameter fun r' _ => S.nextParameter r')
    intro names r _
    apply S.bind (S.expect r _)
    exact fun _ r _ => S.value r _

end Simulation

/-! ## Constructs of grammars that read expressions alike -/

/-- Two grammars read expressions alike from the places of a set on, and the
set holds with a place all later ones. -/
structure Grammar.AlikeOn (S : Simulation m) (place : Cursor → Prop) (first : Grammar m)
    (second : Grammar) : Prop where
  advance : ∀ {c}, place c → place c.advance
  expression : ∀ {weakest c}, place c →
    S.Matches c (first.expression weakest) (second.expression weakest)

namespace Grammar.AlikeOn

variable {S : Simulation m} {place : Cursor → Prop} {first : Grammar m} {second : Grammar}
  {c : Cursor}

theorem reaches (h : AlikeOn S place first second) {r : Cursor} (hc : place c)
    (hr : c.Reaches r) : place r := by
  obtain ⟨count, rfl⟩ := hr
  induction count generalizing c with
  | zero => exact hc
  | succ count ih => exact ih (h.advance hc)

/-- What lies beyond a place that is reached lies beyond the place that
reaches it. -/
theorem beyond (h : AlikeOn S place first second) {r : Cursor} (hc : place c.advance)
    (hr : c.Reaches r) : place r.advance :=
  h.reaches hc hr.advance

/-! ### Statements -/

theorem binding (h : AlikeOn S place first second) (hc : place c.advance) :
    S.Matches c first.binding second.binding := by
  apply S.bind_current
  apply S.bind (S.expect c _)
  intro _ r₁ h₁
  apply S.bind_current
  apply S.bind (S.expect r₁ _)
  intro _ r₂ h₂
  apply S.bind_advance
  apply S.bind (h.expression (h.beyond hc (h₁.trans h₂)))
  intro value r₃ _
  apply S.bind (S.optionalSemicolon r₃)
  exact fun _ r _ => S.value r _

theorem result (h : AlikeOn S place first second) (hc : place c.advance) :
    S.Matches c first.result second.result := by
  apply S.bind_current
  apply S.bind_advance
  apply S.bind (h.expression hc)
  intro value r _
  apply S.bind (S.optionalSemicolon r)
  exact fun _ r _ => S.value r _

theorem expressionStatement (h : AlikeOn S place first second) (hc : place c) :
    S.Matches c first.expressionStatement second.expressionStatement := by
  apply S.bind_current
  apply S.bind (h.expression hc)
  intro value r _
  apply S.bind (S.optionalSemicolon r)
  exact fun _ r _ => S.value r _

theorem statementFrom (h : AlikeOn S place first second) (hc : place c) (kind : Kind) :
    S.Matches c (first.statementFrom kind) (second.statementFrom kind) := by
  cases kind with
  | letWord => exact h.binding (h.advance hc)
  | returnWord => exact h.result (h.advance hc)
  | _ => exact h.expressionStatement hc

theorem statement (h : AlikeOn S place first second) (hc : place c) :
    S.Matches c first.statement second.statement := by
  apply S.andThen (S.depth c)
  rintro _ ⟨⟩
  apply S.bind_current
  apply S.bind (S.attempt (h.statementFrom hc c.current.kind))
  intro found r _
  cases found with
  | some statement => exact S.value r _
  | none =>
      apply S.bind (S.skip r c.depth)
      exact fun _ r _ => S.value r _

theorem blockItem (h : AlikeOn S place first second) (hc : place c) :
    S.Matches c first.blockItem second.blockItem := by
  apply S.bind_current
  split
  · exact S.value c _
  · apply S.bind (h.statement hc)
    intro statement r _
    apply S.bind_current
    split
    · exact S.value r _
    · exact S.bind_advance (S.value _ _)

theorem block (h : AlikeOn S place first second) (hc : place c.advance) :
    S.Matches c first.block second.block := by
  apply S.bind_current
  apply S.bind_advance
  apply S.bind (S.many (Grammar.progresses_blockItem second)
    fun r hr => h.blockItem (h.reaches hc hr))
  intro found r _
  apply S.bind_current
  split
  · exact S.abort r _
  · exact S.value r _

theorem programItem (h : AlikeOn S place first second) (hc : place c) :
    S.Matches c first.programItem second.programItem := by
  apply S.bind_current
  split
  · exact S.value c _
  · apply S.bind (h.statement hc)
    intro statement r _
    exact S.bind_advance (S.value _ _)

theorem statements (h : AlikeOn S place first second) (hc : place c) :
    S.Matches c first.statements second.statements := by
  apply S.bind (S.many (Grammar.progresses_programItem second)
    fun r hr => h.programItem (h.reaches hc hr))
  exact fun _ r _ => S.value r _

/-! ### Expressions -/

theorem unary (h : AlikeOn S place first second) (hc : place c.advance) :
    S.Matches c first.unary second.unary := by
  apply S.bind_current
  apply S.bind_advance
  apply S.bind (h.expression hc)
  exact fun _ r _ => S.value r _

theorem binary (h : AlikeOn S place first second) (hc : place c.advance)
    (hlevel : first.precedence c.current.kind = second.precedence c.current.kind) (left : Expr) :
    S.Matches c (first.binary left) (second.binary left) := by
  apply S.bind_current
  apply S.bind_advance
  rw [hlevel]
  apply S.bind (h.expression hc)
  exact fun _ r _ => S.value r _

theorem grouped (h : AlikeOn S place first second) (hc : place c.advance) :
    S.Matches c first.grouped second.grouped := by
  apply S.bind_advance
  apply S.bind (h.expression hc)
  intro inner r _
  apply S.bind (S.expect r _)
  exact fun _ r _ => S.value r _

theorem alternative (h : AlikeOn S place first second) (hc : place c.advance) :
    S.Matches c first.alternative second.alternative := by
  apply S.bind_peek
  split
  · apply S.bind_advance
    apply S.bind (S.expect _ _)
    intro _ r hr
    apply S.bind (h.block (h.advance (h.reaches hc hr)))
    exact fun _ r _ => S.value r _
  · exact S.value c _

theorem conditional (h : AlikeOn S place first second) (hc : place c.advance) :
    S.Matches c first.conditional second.conditional := by
  apply S.bind_current
  apply S.bind (S.expect c _)
  intro _ r₁ h₁
  apply S.bind_advance
  have hc₁ : place r₁.advance := h.beyond hc h₁
  apply S.bind (h.expression hc₁)
  intro condition r₂ h₂
  apply S.bind (S.expect r₂ _)
  intro _ r₃ h₃
  apply S.bind (S.expect r₃ _)
  intro _ r₄ h₄
  have hc₄ : place r₄.advance := h.advance (h.reaches hc₁ ((h₂.trans h₃).trans h₄))
  apply S.bind (h.block hc₄)
  intro consequence r₅ h₅
  apply S.bind (h.alternative (h.beyond hc₄ h₅))
  exact fun _ r _ => S.value r _

theorem function (h : AlikeOn S place first second) (hc : place c.advance) :
    S.Matches c first.function second.function := by
  apply S.bind_current
  apply S.bind (S.expect c _)
  intro _ r₁ h₁
  apply S.bind (S.parameters r₁ first second)
  intro parameters r₂ h₂
  apply S.bind (S.expect r₂ _)
  intro _ r₃ h₃
  apply S.bind (h.block (h.beyond hc ((h₁.trans h₂).trans h₃)))
  exact fun _ r _ => S.value r _

theorem nextArgument (h : AlikeOn S place first second) (hc : place c.advance) :
    S.Matches c first.nextArgument second.nextArgument := by
  apply S.bind_peek
  split
  · apply S.bind_advance
    apply S.bind_advance
    apply S.bind (h.expression (h.advance hc))
    exact fun _ r _ => S.value r _
  · exact S.value c _

theorem arguments (h : AlikeOn S place first second) (hc : place c.advance) :
    S.Matches c first.arguments second.arguments := by
  apply S.bind_peek
  split
  · exact S.bind_advance (S.value _ _)
  · apply S.bind_advance
    apply S.bind (h.expression hc)
    intro argument r₁ h₁
    apply S.bind (S.many (Grammar.progresses_nextArgument second)
      fun r hr => h.nextArgument (h.advance (h.reaches hc (h₁.trans hr))))
    intro others r₂ _
    apply S.bind (S.expect r₂ _)
    exact fun _ r _ => S.value r _

theorem call (h : AlikeOn S place first second) (hc : place c.advance) (callee : Expr) :
    S.Matches c (first.call callee) (second.call callee) := by
  apply S.bind_current
  apply S.bind (h.arguments hc)
  exact fun _ r _ => S.value r _

/-! ### Rules -/

theorem integer (c : Cursor) (first : Grammar m) (second : Grammar) :
    S.Matches c first.integer second.integer := by
  apply S.bind_current
  cases readInteger c.current.literal with
  | ok value => exact S.value c _
  | error fault => exact S.abort c fault

/-- The language's rules for the beginnings of expressions. -/
theorem prefixRule (h : AlikeOn S place first second) (hc : place c.advance) (kind : Kind) :
    Option.Rel (fun rule other => S.Matches c (rule first) (other second))
      (Operators.standardPrefixRule? kind) (Operators.standardPrefixRule? kind) := by
  cases kind with
  | name => exact .some (S.bind_current (S.value c _))
  | number => exact .some (integer c first second)
  | trueWord | falseWord => exact .some (S.bind_current (S.value c _))
  | bang | minus => exact .some (h.unary hc)
  | openParen => exact .some (h.grouped hc)
  | ifWord => exact .some (h.conditional hc)
  | fnWord => exact .some (h.function hc)
  | _ => exact .none

/-- The language's rules for the extensions of expressions, if the strengths of the operators are
the same in both grammars. -/
theorem infixRule (h : AlikeOn S place first second) (hc : place c.advance) {kind : Kind}
    (hlevel : (Operators.standardInfixRule? kind : Option (InfixRule m)).isSome = true →
      first.precedence c.current.kind = second.precedence c.current.kind) (left : Expr) :
    Option.Rel (fun rule other => S.Matches c (rule first left) (other second left))
      (Operators.standardInfixRule? kind) (Operators.standardInfixRule? kind) := by
  cases kind with
  | plus | minus | slash | asterisk | equal | notEqual | less | greater =>
      exact .some (h.binary hc (hlevel rfl) left)
  | openParen => exact .some (h.call hc left)
  | _ => exact .none

end Grammar.AlikeOn

/-! ## Tables that act alike -/

namespace Operators

/-- How a token of a kind extends an expression: with which strength and by which rule. It does
not if it has no rule, or no strength above the lowest. -/
def extension? (ops : Operators m) (kind : Kind) : Option (Precedence × InfixRule m) :=
  if .lowest < ops.precedence kind then
    (ops.infixRule? kind).map fun rule => (ops.precedence kind, rule)
  else
    none

omit [Monad m] [Reading m] in
theorem extension?_eq_some_iff {ops : Operators m} {kind : Kind} {level : Precedence}
    {rule : InfixRule m} :
    ops.extension? kind = some (level, rule) ↔
      .lowest < level ∧ ops.precedence kind = level ∧ ops.infixRule? kind = some rule := by
  unfold extension?
  split
  next hlevel =>
    simp only [Option.map_eq_some_iff, Prod.mk.injEq]
    constructor
    · rintro ⟨_, hrule, rfl, rfl⟩
      exact ⟨hlevel, rfl, hrule⟩
    · rintro ⟨_, rfl, hrule⟩
      exact ⟨rule, hrule, rfl, rfl⟩
  next hlevel =>
    constructor
    · intro hnone
      cases hnone
    · rintro ⟨hlow, rfl, _⟩
      exact absurd hlow hlevel

/-- A step of an expression's growth with the extension that the next token has. -/
def extendBy (grammar : Grammar m) (weakest : Precedence) (left : Expr) (kind : Kind) :
    Option (Precedence × InfixRule m) → m (Option Expr)
  | none => pure none
  | some (level, rule) =>
    if kind = .semicolon ∨ ¬ weakest < level then
      pure none
    else do
      Reading.advance
      let extended ← rule grammar left
      pure (some extended)

/-- The tables are asked for nothing but the extension of the next token. -/
theorem extend_eq {ops : Operators m} {grammar : Grammar m}
    (hlevel : grammar.precedence = ops.precedence) (weakest : Precedence) (left : Expr) :
    ops.extend grammar weakest left =
      (do
        let next ← Reading.peek
        extendBy grammar weakest left next.kind (ops.extension? next.kind)) := by
  unfold extend
  congr 1
  funext next
  rw [hlevel]
  cases hextension : ops.extension? next.kind with
  | some extension =>
      obtain ⟨level, rule⟩ := extension
      obtain ⟨_, rfl, hrule⟩ := extension?_eq_some_iff.mp hextension
      rw [hrule]
      rfl
  | none =>
      split
      · rfl
      next hactive =>
        -- The token is strong enough, so it can only lack a rule.
        cases hrule : ops.infixRule? next.kind with
        | none => rfl
        | some rule =>
            have hstrong : weakest < ops.precedence next.kind :=
              Classical.not_not.mp (not_or.mp hactive).2
            have hsome := extension?_eq_some_iff.mpr
              ⟨Precedence.lowest_lt_of_lt hstrong, rfl, hrule⟩
            rw [hextension] at hsome
            cases hsome

theorem extension?_withStrengths (strengths : Strengths) (kind : Kind) :
    (withStrengths strengths : Operators m).extension? kind =
      if .lowest < strengths.precedence kind then
        (standardInfixRule? kind).map fun rule => (strengths.precedence kind, rule)
      else none := rfl

/-- Tokens of the kind do the same by two sets of tables. -/
structure ActsAlike (first second : Operators m) (kind : Kind) : Prop where
  prefixRule? : first.prefixRule? kind = second.prefixRule? kind
  extension? : first.extension? kind = second.extension? kind

/-- The tables act like those of a dialect on all tokens that may be met from a place on. -/
def ActsAlikeFrom (ops : Operators m) (strengths : Strengths) (c : Cursor) : Prop :=
  ∀ r, c.Reaches r → ops.ActsAlike (withStrengths strengths) r.current.kind

end Operators

section Tables

open Operators

variable {S : Simulation m} {place : Cursor → Prop} {first : Grammar m} {second : Grammar}
  {ops : Operators m} {strengths : Strengths} {c : Cursor}

theorem Operators.ActsAlikeFrom.reaches (h : ops.ActsAlikeFrom strengths c) {r : Cursor}
    (hr : c.Reaches r) : ops.ActsAlikeFrom strengths r :=
  fun r' hr' => h r' (hr.trans hr')

/-- A step of an expression's growth. -/
theorem Grammar.AlikeOn.extend (h : AlikeOn S place first second)
    (hfirst : first.precedence = ops.precedence)
    (hsecond : second.precedence = strengths.precedence)
    (hops : ops.ActsAlikeFrom strengths c) (hc : place c.advance) (weakest : Precedence)
    (left : Expr) :
    S.Matches c (ops.extend first weakest left)
      ((dialect strengths).extend second weakest left) := by
  have hkind : ops.extension? c.peek.kind = (withStrengths strengths).extension? c.peek.kind :=
    (hops _ (Cursor.reaches_advance c)).extension?
  rw [extend_eq hfirst, extend_eq hsecond]
  apply S.bind_peek
  have hlevel : .lowest < strengths.precedence c.peek.kind →
      (standardInfixRule? c.peek.kind : Option (InfixRule m)).isSome = true →
        first.precedence c.peek.kind = second.precedence c.peek.kind := by
    intro hactive hsome
    obtain ⟨rule, hrule⟩ := Option.isSome_iff_exists.mp hsome
    have hext : (withStrengths strengths : Operators m).extension? c.peek.kind =
        some (strengths.precedence c.peek.kind, rule) :=
      extension?_eq_some_iff.mpr ⟨hactive, rfl, hrule⟩
    rw [hfirst, hsecond]
    exact (extension?_eq_some_iff.mp (hkind.trans hext)).2.1
  rw [hkind, extension?_withStrengths, extension?_withStrengths]
  split
  next hactive =>
    have hrules := h.infixRule (c := c.advance) (h.advance hc) (hlevel hactive) left
    revert hrules
    generalize (standardInfixRule? c.peek.kind : Option (InfixRule m)) = rule?
    generalize (standardInfixRule? c.peek.kind : Option InfixRule) = other?
    rintro (⟨hrule⟩ | _)
    · simp only [Option.map_some, Operators.extendBy]
      split
      · exact S.value c _
      · apply S.bind_advance
        apply S.bind hrule
        exact fun _ r _ => S.value r _
    · exact S.value c _
  · exact S.value c _

/-- One expression is read alike, if those inside it are. -/
theorem Grammar.AlikeOn.expressionIn (h : AlikeOn S place first second)
    (hfirst : first.precedence = ops.precedence)
    (hsecond : second.precedence = strengths.precedence)
    (hops : ops.ActsAlikeFrom strengths c) (hc : place c.advance) (weakest : Precedence) :
    S.Matches c (ops.expressionIn first weakest)
      ((dialect strengths).expressionIn second weakest) := by
  apply S.bind_current
  have hbegin : ops.prefixRule? c.current.kind = standardPrefixRule? c.current.kind :=
    (hops c (.refl c)).prefixRule?
  have hrules := h.prefixRule hc c.current.kind
  rw [← hbegin] at hrules
  revert hrules
  generalize ops.prefixRule? c.current.kind = rule?
  show Option.Rel _ _ ((dialect strengths).prefixRule? c.current.kind) → _
  generalize (dialect strengths).prefixRule? c.current.kind = other?
  rintro (⟨hrule⟩ | _)
  · apply S.bind hrule
    intro left r hr
    exact S.grow (progresses_extend strengths second weakest) fun a r' hr' =>
      h.extend hfirst hsecond (hops.reaches (hr.trans hr')) (h.beyond hc (hr.trans hr')) weakest a
  · exact S.abort c _

/-- Expressions in expressions are read alike, at any depth. -/
theorem Operators.matches_expressionWithin (S : Simulation m) (bound : Nat) (weakest : Precedence)
    {c : Cursor} (hops : ops.ActsAlikeFrom strengths c) :
    S.Matches c (ops.expressionWithin bound weakest)
      ((dialect strengths).expressionWithin bound weakest) := by
  induction bound generalizing weakest c with
  | zero => exact S.fail c
  | succ bound ih =>
      have halike : Grammar.AlikeOn S (ops.ActsAlikeFrom strengths)
          ⟨ops.expressionWithin bound, ops.precedence⟩
          ⟨(dialect strengths).expressionWithin bound, strengths.precedence⟩ :=
        { advance := fun {c} hc => hc.reaches (Cursor.reaches_advance c)
          expression := ih _ }
      exact halike.expressionIn rfl rfl hops (halike.advance hops) weakest

end Tables

end MonkeyFrontend
