import MonkeyFrontend.Proofs.Stratified

/-!
# Regrouping

Which lists of tokens the stratified grammar derives does not depend on the
strengths. Forgetting the trees and the layers, an expression is a row of operands
with binary operators between them (`Operands`), and an operand is an
expression of the innermost layer behind some prefix operators (`Operand`). Every
such row can be grouped by layers, whatever the operators in it are.

From the flat view it is plain how expressions grow: by an operator and another
expression on the right, by a prefix operator on the left, by the parentheses of
a call on the right. One kind of growth takes a thought. If two expressions
stand next to each other, and the second one begins with a token that can also
follow an expression, a minus or an opening parenthesis, then the two make one
expression: the minus becomes a binary operator, and what is in the parentheses
becomes the argument of a call. Therefore a statement without a semicolon can
always be followed by other statements; at worst the next one becomes a part of it.

## Main results

* `Operands.glue` — two expressions in a row are one, if the second one could go
  on with the first one.
* `Derives.prepend_statement` — a statement in front of statements, without a
  semicolon between them, makes statements.
-/

namespace MonkeyFrontend

variable {strengths : Strengths}

/-! ## Induction over operators -/

/-- Induction over an expression as far as it is made of operators and calls. The
two kinds of tokens that can either begin an expression or follow one, the minus and
the opening parenthesis, begin no other form. -/
theorem Derives.operator_induction {motive : Precedence → List Token → Prop}
    (binary : ∀ {left right operator xs ys}, operator.kind.isBinary = true →
      Derives strengths (.expression (strengths.precedence operator.kind) left) xs →
      Derives strengths (.expression (strengths.precedence operator.kind).next right) ys →
      motive (strengths.precedence operator.kind) xs →
      motive (strengths.precedence operator.kind).next ys →
        motive (strengths.precedence operator.kind) (xs ++ operator :: ys))
    (stronger : ∀ {level tree xs}, Derives strengths (.expression level.next tree) xs →
      motive level.next xs → motive level xs)
    (unary : ∀ {operator operand xs}, operator.kind = .bang ∨ operator.kind = .minus →
      Derives strengths (.expression .prefixed operand) xs → motive .prefixed xs →
        motive .prefixed (operator :: xs))
    (call : ∀ {callee trees opening closing xs ys}, opening.kind = .openParen →
      closing.kind = .closeParen → Derives strengths (.expression .call callee) xs →
      Derives strengths (.arguments trees) ys → motive .call xs →
        motive .call (xs ++ opening :: (ys ++ [closing])))
    (grouped : ∀ {tree opening closing xs}, opening.kind = .openParen →
      closing.kind = .closeParen → Derives strengths (.expression .equals tree) xs →
        motive .call (opening :: (xs ++ [closing])))
    (atom : ∀ {tree first xs}, Derives strengths (.expression .call tree) (first :: xs) →
      first.kind ≠ .minus → first.kind ≠ .openParen → motive .call (first :: xs))
    {level : Precedence} {tree : Expr} {xs : List Token}
    (h : Derives strengths (.expression level tree) xs) : motive level xs := by
  generalize hphrase : Phrase.expression level tree = phrase at h
  induction h generalizing level tree with
  | binary hbinary hleft hright ihleft ihright =>
      cases hphrase
      exact binary hbinary hleft hright (ihleft rfl) (ihright rfl)
  | stronger hinner ih =>
      cases hphrase
      exact stronger hinner (ih rfl)
  | unary hkind hinner ih =>
      cases hphrase
      exact unary hkind hinner (ih rfl)
  | call hopen hclose hcallee htrees ih _ =>
      cases hphrase
      exact call hopen hclose hcallee htrees (ih rfl)
  | grouped hopen hclose hinner _ =>
      cases hphrase
      exact grouped hopen hclose hinner
  | name hkind =>
      cases hphrase
      exact atom (.name hkind) (by rw [hkind]; decide) (by rw [hkind]; decide)
  | integer hkind hvalue =>
      cases hphrase
      exact atom (.integer hkind hvalue) (by rw [hkind]; decide) (by rw [hkind]; decide)
  | boolean hkind =>
      cases hphrase
      refine atom (.boolean hkind) ?_ ?_ <;> rcases hkind with hkind | hkind <;> rw [hkind] <;>
        decide
  | conditional hword hopen hclose hcondition hthen _ _ =>
      cases hphrase
      exact atom (.conditional hword hopen hclose hcondition hthen) (by rw [hword]; decide)
        (by rw [hword]; decide)
  | conditionalElse hword hopen hclose hother hcondition hthen helse _ _ _ =>
      cases hphrase
      exact atom (.conditionalElse hword hopen hclose hother hcondition hthen helse)
        (by rw [hword]; decide) (by rw [hword]; decide)
  | function hword hopen hclose hnames hbody _ =>
      cases hphrase
      exact atom (.function hword hopen hclose hnames hbody) (by rw [hword]; decide)
        (by rw [hword]; decide)
  | _ => cases hphrase

/-! ## Expressions as rows of operands -/

/-- An expression of the innermost layer behind prefix operators. -/
inductive Operand (strengths : Strengths) : List Token → Prop
  | core {tree : Expr} {xs : List Token} :
    Derives strengths (.expression .call tree) xs → Operand strengths xs
  | signed {operator : Token} {xs : List Token} :
    operator.kind = .bang ∨ operator.kind = .minus → Operand strengths xs →
      Operand strengths (operator :: xs)

/-- Operands with binary operators between them. -/
inductive Operands (strengths : Strengths) : List Token → Prop
  | single {xs : List Token} : Operand strengths xs → Operands strengths xs
  | more {operator : Token} {xs ys : List Token} :
    Operands strengths xs → operator.kind.isBinary = true → Operand strengths ys →
      Operands strengths (xs ++ operator :: ys)

theorem Operand.derives {xs : List Token} (h : Operand strengths xs) :
    ∃ tree, Derives strengths (.expression .prefixed tree) xs := by
  induction h with
  | core hcore => exact ⟨_, .stronger hcore⟩
  | signed hkind _ ih =>
      obtain ⟨tree, hder⟩ := ih
      exact ⟨_, .unary hkind hder⟩

/-- An operator with an operand after it goes into an expression of any layer that
is not above it: as far down the right side as the operator's level allows. -/
theorem Derives.append_operand {level : Precedence} {tree operand : Expr} {operator : Token}
    {xs ys : List Token} (h : Derives strengths (.expression level tree) xs)
    (hbinary : operator.kind.isBinary = true) (hle : level ≤ strengths.precedence operator.kind)
    (hoperand : Derives strengths (.expression .prefixed operand) ys) :
    ∃ grown, Derives strengths (.expression level grown) (xs ++ operator :: ys) := by
  have hproduct := (strengths.precedence_of_isBinary hbinary).2
  have habove : ∀ {level : Precedence}, .prefixed ≤ level →
      ¬ level ≤ strengths.precedence operator.kind := by
    intro level hprefixed hle
    exact absurd (Precedence.le_trans hprefixed (Precedence.le_trans hle hproduct)) (by decide)
  have hright : Derives strengths
      (.expression (strengths.precedence operator.kind).next operand) ys :=
    hoperand.weaken (Precedence.next_le_prefixed hproduct)
  -- On the operator's own level the whole expression becomes its left operand.
  have hsame : ∀ {level tree xs}, level = strengths.precedence operator.kind →
      Derives strengths (.expression level tree) xs →
        ∃ grown, Derives strengths (.expression level grown) (xs ++ operator :: ys) := by
    rintro _ tree xs rfl hleft
    exact ⟨_, .binary hbinary hleft hright⟩
  revert hle
  refine Derives.operator_induction (motive := fun level xs =>
    level ≤ strengths.precedence operator.kind →
      ∃ grown, Derives strengths (.expression level grown) (xs ++ operator :: ys))
    ?_ ?_ ?_ ?_ ?_ ?_ h
  · intro left right inner xs zs hinner hleft hinnerRight _ ih hle
    rcases Precedence.eq_or_next_le hle with heq | hnext
    · exact hsame heq (.binary hinner hleft hinnerRight)
    · obtain ⟨grown, hgrown⟩ := ih hnext
      rw [List.append_assoc, List.cons_append]
      exact ⟨_, .binary hinner hleft hgrown⟩
  · intro level tree xs hinner ih hle
    rcases Precedence.eq_or_next_le hle with heq | hnext
    · exact hsame heq (.stronger hinner)
    · obtain ⟨grown, hgrown⟩ := ih hnext
      exact ⟨grown, .stronger hgrown⟩
  · exact fun _ _ _ hle => absurd hle (habove (by decide))
  · exact fun _ _ _ _ _ hle => absurd hle (habove (by decide))
  · exact fun _ _ _ hle => absurd hle (habove (by decide))
  · exact fun _ _ _ hle => absurd hle (habove (by decide))

namespace Operands

theorem derives {xs : List Token} (h : Operands strengths xs) :
    ∃ tree, Derives strengths (.expression .equals tree) xs := by
  induction h with
  | single hoperand =>
      obtain ⟨tree, hder⟩ := hoperand.derives
      exact ⟨tree, hder.weaken (by decide)⟩
  | more _ hbinary hoperand ih =>
      obtain ⟨tree, hder⟩ := ih
      obtain ⟨operand, hright⟩ := hoperand.derives
      exact hder.append_operand hbinary (strengths.precedence_of_isBinary hbinary).1 hright

/-! ### How rows grow -/

theorem append {operator : Token} {xs ys : List Token} (hleft : Operands strengths xs)
    (hbinary : operator.kind.isBinary = true) (hright : Operands strengths ys) :
    Operands strengths (xs ++ operator :: ys) := by
  induction hright with
  | single hoperand => exact .more hleft hbinary hoperand
  | more _ hnext hoperand ih =>
      have hgrown := Operands.more ih hnext hoperand
      rwa [List.append_assoc, List.cons_append] at hgrown

theorem signed {operator : Token} {xs : List Token}
    (hkind : operator.kind = .bang ∨ operator.kind = .minus) (h : Operands strengths xs) :
    Operands strengths (operator :: xs) := by
  induction h with
  | single hoperand => exact .single (.signed hkind hoperand)
  | more _ hbinary hoperand ih => exact .more ih hbinary hoperand

end Operands

theorem Operand.called {trees : List Expr} {opening closing : Token} {xs ys : List Token}
    (h : Operand strengths xs) (hopen : opening.kind = .openParen)
    (hclose : closing.kind = .closeParen) (htrees : Derives strengths (.arguments trees) ys) :
    Operand strengths (xs ++ opening :: (ys ++ [closing])) := by
  induction h with
  | core hcore => exact .core (.call hopen hclose hcore htrees)
  | signed hkind _ ih => exact .signed hkind ih

/-- A call applies to the last operand of a row. -/
theorem Operands.called {trees : List Expr} {opening closing : Token} {xs ys : List Token}
    (h : Operands strengths xs) (hopen : opening.kind = .openParen)
    (hclose : closing.kind = .closeParen) (htrees : Derives strengths (.arguments trees) ys) :
    Operands strengths (xs ++ opening :: (ys ++ [closing])) := by
  cases h with
  | single hoperand => exact .single (hoperand.called hopen hclose htrees)
  | more hrow hbinary hoperand =>
      have hgrown := Operands.more hrow hbinary (hoperand.called hopen hclose htrees)
      rwa [List.append_assoc, List.cons_append]

/-! ### Every expression is a row -/

/-- Outside of the innermost layer an expression is a row, and from the layer of
prefix operators on it is an operand. -/
theorem Derives.operand_and_operands {level : Precedence} {tree : Expr} {xs : List Token}
    (h : Derives strengths (.expression level tree) xs) (hne : level ≠ .call) :
    (.prefixed ≤ level → Operand strengths xs) ∧ Operands strengths xs := by
  revert hne
  refine Derives.operator_induction (motive := fun level xs => level ≠ .call →
    (.prefixed ≤ level → Operand strengths xs) ∧ Operands strengths xs) ?_ ?_ ?_ ?_ ?_ ?_ h
  · intro left right operator xs ys hbinary _ _ ihleft ihright hne
    have hproduct := (strengths.precedence_of_isBinary hbinary).2
    have hnext : (strengths.precedence operator.kind).next ≠ .call := by
      intro heq
      have hle := Precedence.next_le_prefixed hproduct
      rw [heq] at hle
      exact absurd hle (by decide)
    refine ⟨fun hle => ?_, (ihleft hne).2.append hbinary (ihright hnext).2⟩
    exact absurd (Precedence.le_trans hle hproduct) (by decide)
  · intro level tree xs hinner ih _
    by_cases hcall : level.next = .call
    · rw [hcall] at hinner
      exact ⟨fun _ => .core hinner, .single (.core hinner)⟩
    · obtain ⟨hoperand, hrow⟩ := ih hcall
      exact ⟨fun hle => hoperand (Precedence.le_trans hle (Precedence.le_next level)), hrow⟩
  · intro operator operand xs hkind _ ih _
    obtain ⟨hoperand, hrow⟩ := ih (by decide)
    exact ⟨fun hle => .signed hkind (hoperand hle), hrow.signed hkind⟩
  · exact fun _ _ _ _ _ hne => absurd rfl hne
  · exact fun _ _ _ hne => absurd rfl hne
  · exact fun _ _ _ hne => absurd rfl hne

theorem Derives.operands {level : Precedence} {tree : Expr} {xs : List Token}
    (h : Derives strengths (.expression level tree) xs) : Operands strengths xs := by
  by_cases hcall : level = .call
  · rw [hcall] at h
    exact .single (.core h)
  · exact (h.operand_and_operands hcall).2

/-- An expression that begins with a minus or an opening parenthesis can go on with
another one. -/
theorem Operands.glue {level : Precedence} {tree : Expr} {first : Token} {xs ys : List Token}
    (hleft : Operands strengths xs) (hright : Derives strengths (.expression level tree) ys)
    (hhead : ys.head? = some first) (hfirst : first.kind = .minus ∨ first.kind = .openParen) :
    Operands strengths (xs ++ ys) := by
  revert hhead
  refine Derives.operator_induction (motive := fun _ ys => ys.head? = some first →
    Operands strengths (xs ++ ys)) ?_ ?_ ?_ ?_ ?_ ?_ hright
  · intro left right operator ys zs hbinary hinner hinnerRight ih _ hhead
    obtain ⟨token, rest, rfl, _⟩ := hinner.head_of_expression
    have hgrown := (ih hhead).append hbinary hinnerRight.operands
    rwa [List.append_assoc] at hgrown
  · exact fun _ ih hhead => ih hhead
  · intro operator operand ys hkind hinner _ hhead
    obtain rfl := Option.some.inj hhead
    have hminus : operator.kind.isBinary = true := by
      rcases hfirst with hminus | hopen
      · rw [hminus]
        rfl
      · rcases hkind with hkind | hkind <;> rw [hopen] at hkind <;> cases hkind
    exact hleft.append hminus hinner.operands
  · intro callee trees opening closing ys zs hopen hclose hcallee htrees ih hhead
    obtain ⟨token, rest, rfl, _⟩ := hcallee.head_of_expression
    have hgrown := (ih hhead).called hopen hclose htrees
    rwa [List.append_assoc] at hgrown
  · intro tree opening closing ys hopen hclose hinner _
    have hgrown := hleft.called hopen hclose (.arguments hinner .noMoreArguments)
    rwa [List.append_nil] at hgrown
  · intro tree token ys _ hminus hopen hhead
    obtain rfl := Option.some.inj hhead
    rcases hfirst with hkind | hkind
    · exact absurd hkind hminus
    · exact absurd hkind hopen

/-! ## Statements -/

/-- The expression at the end of a statement grows with another one. -/
theorem Derives.glue_statement {tree : Statement} {value : Expr} {first : Token}
    {xs ys : List Token} (h : Derives strengths (.statement tree) xs)
    (hvalue : Derives strengths (.expression .equals value) ys) (hhead : ys.head? = some first)
    (hfirst : first.kind = .minus ∨ first.kind = .openParen) :
    ∃ grown, Derives strengths (.statement grown) (xs ++ ys) := by
  cases h with
  | binding hword hname hassign hinner =>
      obtain ⟨_, hgrown⟩ := (hinner.operands.glue hvalue hhead hfirst).derives
      exact ⟨_, .binding hword hname hassign hgrown⟩
  | result hword hinner =>
      obtain ⟨_, hgrown⟩ := (hinner.operands.glue hvalue hhead hfirst).derives
      exact ⟨_, .result hword hgrown⟩
  | expression hstart hinner =>
      obtain ⟨_, hgrown⟩ := (hinner.operands.glue hvalue hhead hfirst).derives
      obtain ⟨token, rest, rfl, _⟩ := hinner.head_of_expression
      exact ⟨_, .expression hstart hgrown⟩

/-- The tokens that begin a statement and can also go on with an expression are the
minus and the opening parenthesis, and then the statement is an expression. -/
theorem Derives.expression_of_strength {tree : Statement} {first : Token} {xs : List Token}
    (h : Derives strengths (.statement tree) xs) (hhead : xs.head? = some first)
    (hstrength : .lowest < strengths.precedence first.kind) :
    (first.kind = .minus ∨ first.kind = .openParen) ∧
      ∃ value, Derives strengths (.expression .equals value) xs := by
  rw [strengths.lowest_lt_precedence_iff] at hstrength
  cases h with
  | binding hword _ _ _ =>
      obtain rfl := Option.some.inj hhead
      rw [hword] at hstrength
      exact absurd hstrength (by decide)
  | result hword _ =>
      obtain rfl := Option.some.inj hhead
      rw [hword] at hstrength
      exact absurd hstrength (by decide)
  | expression _ hvalue =>
      refine ⟨?_, _, hvalue⟩
      obtain ⟨token, rest, rfl, hbegins⟩ := hvalue.head_of_expression
      obtain rfl := Option.some.inj hhead
      revert hbegins hstrength
      cases token.kind <;> decide

/-- A statement takes in the next one, if that begins with a token that can go on with
it. -/
theorem Derives.absorb_statement {tree next : Statement} {first : Token} {xs ys : List Token}
    (h : Derives strengths (.statement tree) xs) (hnext : Derives strengths (.statement next) ys)
    (hhead : ys.head? = some first) (hstrength : .lowest < strengths.precedence first.kind) :
    ∃ grown, Derives strengths (.statement grown) (xs ++ ys) := by
  obtain ⟨hfirst, value, hvalue⟩ := hnext.expression_of_strength hhead hstrength
  exact h.glue_statement hvalue hhead hfirst

/-- A statement can stand in front of statements without a semicolon between them. -/
theorem Derives.prepend_statement {tree : Statement} {trees : List Statement}
    {xs ys : List Token} (h : Derives strengths (.statement tree) xs)
    (hrest : Derives strengths (.statements trees) ys) :
    ∃ grown, Derives strengths (.statements grown) (xs ++ ys) := by
  by_cases hstop : ∀ token, ys.head? = some token → ¬ .lowest < strengths.precedence token.kind
  · exact ⟨_, .unterminated hstop h hrest⟩
  -- Otherwise the next statement is an expression that becomes a part of this one.
  · simp only [Classical.not_forall, Classical.not_not] at hstop
    obtain ⟨first, hhead, hstrength⟩ := hstop
    cases hrest with
    | noStatements => cases hhead
    | terminated hsemi hnext hmore =>
        obtain ⟨token, rest, rfl, _⟩ := hnext.head_of_statement
        obtain ⟨grown, hgrown⟩ := h.absorb_statement hnext hhead hstrength
        rw [← List.append_assoc]
        exact ⟨_, .terminated hsemi hgrown hmore⟩
    | unterminated hlast hnext hmore =>
        obtain ⟨token, rest, rfl, _⟩ := hnext.head_of_statement
        obtain ⟨grown, hgrown⟩ := h.absorb_statement hnext hhead hstrength
        rw [← List.append_assoc]
        exact ⟨_, .unterminated hlast hgrown hmore⟩

end MonkeyFrontend
