import MonkeyFrontend.Proofs.CleanConstruct
import MonkeyFrontend.Proofs.SourceToken

/-!
# The stratified grammar

The language of a dialect as a textbook would write it down: one layer of
expressions for each level of strength. On the levels of the binary operators a
layer is left recursive, so operators of one level group to the left; the
layer of prefix operators is right recursive; the innermost layer holds
calls and the expressions that need no operator. Each production also says
which tree it makes.

Because semicolons are optional, statements need a rule for where they end
without one: the token that follows must not be one that would extend the
statement's last expression.

## Main results

* `Derives.weaken` — what a stronger layer derives every weaker one does.
* `Derives.head_of_expression`, `Derives.head_of_statement` — by which tokens
  expressions and statements begin.
-/

namespace MonkeyFrontend

/-- A tree together with the place in the grammar that it is derived for. -/
inductive Phrase where
  /-- An expression on a layer. -/
  | expression (level : Precedence) (tree : Expr)
  /-- What stands between the parentheses of a call. -/
  | arguments (trees : List Expr)
  /-- The arguments after the first one, each with its comma. -/
  | moreArguments (trees : List Expr)
  /-- A statement without a semicolon. -/
  | statement (tree : Statement)
  /-- A row of statements. -/
  | statements (trees : List Statement)
  /-- Statements in braces. -/
  | block (tree : Block)

/-- Parameters after the first one, each with its comma. -/
inductive DerivesMoreNames : List Name → List Token → Prop
  | nil : DerivesMoreNames [] []
  | cons {comma name : Token} {rest : List Name} {xs : List Token} :
    comma.kind = .comma → name.kind = .name → DerivesMoreNames rest xs →
      DerivesMoreNames (⟨name, name.literal⟩ :: rest) (comma :: name :: xs)

/-- What stands between the parentheses of a function. -/
inductive DerivesNames : List Name → List Token → Prop
  | nil : DerivesNames [] []
  | cons {name : Token} {rest : List Name} {xs : List Token} :
    name.kind = .name → DerivesMoreNames rest xs →
      DerivesNames (⟨name, name.literal⟩ :: rest) (name :: xs)

/-- The stratified grammar of a dialect: the tokens that a phrase is derived
to. -/
inductive Derives (strengths : Strengths) : Phrase → List Token → Prop
  /-- On its level an operator takes an operand of the same level on its left,
  and one of the next stronger level on its right. -/
  | binary {left right : Expr} {operator : Token} {xs ys : List Token} :
    operator.kind.isBinary = true →
      Derives strengths (.expression (strengths.precedence operator.kind) left) xs →
      Derives strengths (.expression (strengths.precedence operator.kind).next right) ys →
        Derives strengths
          (.expression (strengths.precedence operator.kind)
            (.binary operator left operator.literal right))
          (xs ++ operator :: ys)
  /-- Each layer includes the next stronger one. -/
  | stronger {level : Precedence} {tree : Expr} {xs : List Token} :
    Derives strengths (.expression level.next tree) xs →
      Derives strengths (.expression level tree) xs
  | unary {operand : Expr} {operator : Token} {xs : List Token} :
    operator.kind = .bang ∨ operator.kind = .minus →
      Derives strengths (.expression .prefixed operand) xs →
        Derives strengths (.expression .prefixed (.unary operator operator.literal operand))
          (operator :: xs)
  | call {callee : Expr} {trees : List Expr} {opening closing : Token} {xs ys : List Token} :
    opening.kind = .openParen → closing.kind = .closeParen →
      Derives strengths (.expression .call callee) xs →
      Derives strengths (.arguments trees) ys →
        Derives strengths (.expression .call (.call opening callee trees))
          (xs ++ opening :: (ys ++ [closing]))
  | name {token : Token} :
    token.kind = .name →
      Derives strengths (.expression .call (.name ⟨token, token.literal⟩)) [token]
  | integer {token : Token} {value : Nat} :
    token.kind = .number → NamesInteger token.literal value →
      Derives strengths (.expression .call (.integer token value)) [token]
  | boolean {token : Token} :
    token.kind = .trueWord ∨ token.kind = .falseWord →
      Derives strengths (.expression .call (.boolean token (token.kind == .trueWord))) [token]
  /-- Parentheses leave no trace in the tree. -/
  | grouped {tree : Expr} {opening closing : Token} {xs : List Token} :
    opening.kind = .openParen → closing.kind = .closeParen →
      Derives strengths (.expression .equals tree) xs →
        Derives strengths (.expression .call tree) (opening :: (xs ++ [closing]))
  | conditional {condition : Expr} {consequence : Block} {word opening closing : Token}
      {xs ys : List Token} :
    word.kind = .ifWord → opening.kind = .openParen → closing.kind = .closeParen →
      Derives strengths (.expression .equals condition) xs →
      Derives strengths (.block consequence) ys →
        Derives strengths
          (.expression .call (.conditional word condition consequence none))
          (word :: opening :: (xs ++ closing :: ys))
  | conditionalElse {condition : Expr} {consequence alternative : Block}
      {word opening closing other : Token} {xs ys zs : List Token} :
    word.kind = .ifWord → opening.kind = .openParen → closing.kind = .closeParen →
    other.kind = .elseWord →
      Derives strengths (.expression .equals condition) xs →
      Derives strengths (.block consequence) ys →
      Derives strengths (.block alternative) zs →
        Derives strengths
          (.expression .call (.conditional word condition consequence (some alternative)))
          (word :: opening :: (xs ++ closing :: (ys ++ other :: zs)))
  | function {names : List Name} {body : Block} {word opening closing : Token}
      {xs ys : List Token} :
    word.kind = .fnWord → opening.kind = .openParen → closing.kind = .closeParen →
      DerivesNames names xs → Derives strengths (.block body) ys →
        Derives strengths (.expression .call (.function word names body))
          (word :: opening :: (xs ++ closing :: ys))
  | noArguments : Derives strengths (.arguments []) []
  | arguments {tree : Expr} {trees : List Expr} {xs ys : List Token} :
    Derives strengths (.expression .equals tree) xs →
      Derives strengths (.moreArguments trees) ys →
        Derives strengths (.arguments (tree :: trees)) (xs ++ ys)
  | noMoreArguments : Derives strengths (.moreArguments []) []
  | moreArguments {tree : Expr} {trees : List Expr} {comma : Token} {xs ys : List Token} :
    comma.kind = .comma → Derives strengths (.expression .equals tree) xs →
      Derives strengths (.moreArguments trees) ys →
        Derives strengths (.moreArguments (tree :: trees)) (comma :: (xs ++ ys))
  | binding {tree : Expr} {word name assign : Token} {xs : List Token} :
    word.kind = .letWord → name.kind = .name → assign.kind = .assign →
      Derives strengths (.expression .equals tree) xs →
        Derives strengths (.statement (.binding word ⟨name, name.literal⟩ tree))
          (word :: name :: assign :: xs)
  | result {tree : Expr} {word : Token} {xs : List Token} :
    word.kind = .returnWord → Derives strengths (.expression .equals tree) xs →
      Derives strengths (.statement (.result word tree)) (word :: xs)
  | expression {tree : Expr} {first : Token} {xs : List Token} :
    xs.head? = some first → Derives strengths (.expression .equals tree) xs →
      Derives strengths (.statement (.expression first tree)) xs
  | noStatements : Derives strengths (.statements []) []
  | terminated {tree : Statement} {trees : List Statement} {semicolon : Token}
      {xs ys : List Token} :
    semicolon.kind = .semicolon → Derives strengths (.statement tree) xs →
      Derives strengths (.statements trees) ys →
        Derives strengths (.statements (tree :: trees)) (xs ++ semicolon :: ys)
  /-- A statement without a semicolon is not followed by a token that has a
  strength. -/
  | unterminated {tree : Statement} {trees : List Statement} {xs ys : List Token} :
    (∀ token, ys.head? = some token → ¬ .lowest < strengths.precedence token.kind) →
      Derives strengths (.statement tree) xs → Derives strengths (.statements trees) ys →
        Derives strengths (.statements (tree :: trees)) (xs ++ ys)
  | block {trees : List Statement} {opening closing : Token} {xs : List Token} :
    opening.kind = .openBrace → closing.kind = .closeBrace →
      Derives strengths (.statements trees) xs →
        Derives strengths (.block ⟨opening, trees⟩) (opening :: (xs ++ [closing]))

/-! ## Beginnings -/

/-- Whether tokens of a kind begin expressions. -/
def Kind.beginsExpression : Kind → Bool
  | .name | .number | .trueWord | .falseWord | .bang | .minus | .openParen | .ifWord
  | .fnWord => true
  | _ => false

/-- What the first token of a phrase is. -/
def Phrase.Begins : Phrase → List Token → Prop
  | .expression _ _, xs => ∃ first rest, xs = first :: rest ∧ first.kind.beginsExpression = true
  | .statement _, xs =>
    ∃ first rest, xs = first :: rest ∧
      (first.kind = .letWord ∨ first.kind = .returnWord ∨ first.kind.beginsExpression = true)
  | .statements _, xs =>
    ∀ first, xs.head? = some first →
      first.kind = .letWord ∨ first.kind = .returnWord ∨ first.kind.beginsExpression = true
  | .block tree, xs => ∃ rest, xs = tree.token :: rest ∧ tree.token.kind = .openBrace
  | _, _ => True

namespace Derives

variable {strengths : Strengths}

theorem begins {phrase : Phrase} {xs : List Token} (h : Derives strengths phrase xs) :
    phrase.Begins xs := by
  induction h with
  | binary _ _ _ ihleft _ =>
      obtain ⟨first, rest, rfl, hfirst⟩ := ihleft
      exact ⟨first, _, List.cons_append, hfirst⟩
  | call _ _ _ _ ihcallee _ =>
      obtain ⟨first, rest, rfl, hfirst⟩ := ihcallee
      exact ⟨first, _, List.cons_append, hfirst⟩
  | stronger _ ih => exact ih
  | unary hop _ _ => exact ⟨_, _, rfl, by rcases hop with hop | hop <;> rw [hop] <;> rfl⟩
  | boolean hword => exact ⟨_, _, rfl, by rcases hword with hword | hword <;> rw [hword] <;> rfl⟩
  | name hkind => exact ⟨_, _, rfl, by rw [hkind]; rfl⟩
  | integer hkind _ => exact ⟨_, _, rfl, by rw [hkind]; rfl⟩
  | grouped hkind _ _ _ => exact ⟨_, _, rfl, by rw [hkind]; rfl⟩
  | conditional hkind _ _ _ _ _ _ => exact ⟨_, _, rfl, by rw [hkind]; rfl⟩
  | conditionalElse hkind _ _ _ _ _ _ _ _ _ => exact ⟨_, _, rfl, by rw [hkind]; rfl⟩
  | function hkind _ _ _ _ _ => exact ⟨_, _, rfl, by rw [hkind]; rfl⟩
  | binding hkind _ _ _ _ => exact ⟨_, _, rfl, .inl hkind⟩
  | result hkind _ _ => exact ⟨_, _, rfl, .inr (.inl hkind)⟩
  | expression _ _ ih =>
      obtain ⟨first, rest, rfl, hfirst⟩ := ih
      exact ⟨first, rest, rfl, .inr (.inr hfirst)⟩
  | block hopen _ _ _ => exact ⟨_, rfl, hopen⟩
  | noStatements =>
      intro first hfirst
      cases hfirst
  | terminated _ _ _ ih _ | unterminated _ _ _ ih _ =>
      obtain ⟨first, rest, rfl, hfirst⟩ := ih
      intro other hother
      rw [← Option.some.inj hother]
      exact hfirst
  | noArguments | arguments _ _ _ _ | noMoreArguments | moreArguments _ _ _ _ _ => trivial

theorem head_of_expression {level : Precedence} {tree : Expr} {xs : List Token}
    (h : Derives strengths (.expression level tree) xs) :
    ∃ first rest, xs = first :: rest ∧ first.kind.beginsExpression = true :=
  h.begins

theorem head_of_statement {tree : Statement} {xs : List Token}
    (h : Derives strengths (.statement tree) xs) :
    ∃ first rest, xs = first :: rest ∧
      (first.kind = .letWord ∨ first.kind = .returnWord ∨ first.kind.beginsExpression = true) :=
  h.begins

theorem expression_ne_nil {level : Precedence} {tree : Expr} {xs : List Token}
    (h : Derives strengths (.expression level tree) xs) : xs ≠ [] := by
  obtain ⟨first, rest, rfl, _⟩ := h.head_of_expression
  exact List.cons_ne_nil first rest

theorem statement_ne_nil {tree : Statement} {xs : List Token}
    (h : Derives strengths (.statement tree) xs) : xs ≠ [] := by
  obtain ⟨first, rest, rfl, _⟩ := h.head_of_statement
  exact List.cons_ne_nil first rest

theorem block_ne_nil {tree : Block} {xs : List Token} (h : Derives strengths (.block tree) xs) :
    xs ≠ [] := by
  obtain ⟨rest, rfl, _⟩ := h.begins
  exact List.cons_ne_nil _ rest

/-! ## Layers -/

/-- What a stronger layer derives every weaker one does. -/
theorem weaken {weak strong : Precedence} {tree : Expr} {xs : List Token} (hle : weak ≤ strong)
    (h : Derives strengths (.expression strong tree) xs) :
    Derives strengths (.expression weak tree) xs := by
  induction hgap : strong.level - weak.level generalizing weak with
  | zero =>
      have hlevel : weak.level = strong.level :=
        Nat.le_antisymm hle (Nat.sub_eq_zero_iff_le.mp hgap)
      rw [Precedence.eq_of_level_eq hlevel]
      exact h
  | succ gap ih =>
      have hlt : weak < strong := by
        show weak.level < strong.level
        omega
      have hnext := Precedence.level_next_of_lt hlt
      exact .stronger (ih (Precedence.next_le_of_lt hlt) (by omega))

end Derives

/-! ## The dangling else -/

/-- Whether the rightmost node of a tree is a conditional without an
alternative. -/
def Expr.endsBare : Expr → Bool
  | .unary _ _ operand => operand.endsBare
  | .binary _ _ _ right => right.endsBare
  | .conditional _ _ _ none => true
  | _ => false

/-- Whether the last token of an expression is the brace that ends a conditional
without an alternative, so that an `else` after it would belong to that. -/
def DanglingElse (tree : Expr) (xs : List Token) : Prop :=
  tree.endsBare = true ∧ ∃ last, xs.getLast? = some last ∧ last.kind = .closeBrace

theorem danglingElse_unary_iff {operator : Token} {text : String} {operand : Expr}
    {xs : List Token} (hne : xs ≠ []) :
    DanglingElse (.unary operator text operand) (operator :: xs) ↔ DanglingElse operand xs := by
  have hlast : (operator :: xs).getLast? = xs.getLast? := by
    rw [List.getLast?_cons, List.getLast?_eq_some_getLast hne]
    rfl
  unfold DanglingElse
  rw [hlast]
  rfl

theorem danglingElse_binary_iff {operator : Token} {text : String} {left right : Expr}
    {xs ys : List Token} (hne : ys ≠ []) :
    DanglingElse (.binary operator left text right) (xs ++ operator :: ys) ↔
      DanglingElse right ys := by
  have hlast : (xs ++ operator :: ys).getLast? = ys.getLast? := by
    rw [List.getLast?_append, List.getLast?_cons, List.getLast?_eq_some_getLast hne]
    rfl
  unfold DanglingElse
  rw [hlast]
  rfl

/-- What ends with another token than a closing brace ends with no conditional. -/
theorem not_danglingElse_of_getLast? {tree : Expr} {xs : List Token} {last : Token}
    (hlast : xs.getLast? = some last) (hkind : last.kind ≠ .closeBrace) :
    ¬ DanglingElse tree xs := by
  rintro ⟨_, other, hother, hbrace⟩
  rw [hlast] at hother
  rw [Option.some.inj hother] at hkind
  exact hkind hbrace

/-- A conditional without an alternative leaves an `else` dangling. -/
theorem danglingElse_conditional {strengths : Strengths} {word : Token} {condition : Expr}
    {consequence : Block} {xs ys : List Token} (h : Derives strengths (.block consequence) ys) :
    DanglingElse (.conditional word condition consequence none) (xs ++ ys) := by
  cases h with
  | @block _ opening closing zs _ hclose _ =>
      refine ⟨rfl, closing, ?_, hclose⟩
      rw [show xs ++ opening :: (zs ++ [closing]) = (xs ++ opening :: zs) ++ [closing] by simp,
        List.getLast?_concat]

end MonkeyFrontend
