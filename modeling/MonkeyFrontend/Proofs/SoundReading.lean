import MonkeyFrontend.Proofs.Stratified

/-!
# What is read is derived

The reader of expressions is one loop with a threshold; the grammar has a layer
for each level. This module shows that what a dialect's reader reads cleanly its
grammar derives: an expression that is asked for with some strength is derived
on the layer of operands of that strength, and the token after it does not go on
with it.

The loop keeps, with the tree that it has built, a layer on which the grammar
derives it (`BuiltUpTo`). That layer is at least the one of operands, and the
next token is not above it. It is what the last operator has left: the
operator's own level after a binary operation, and the innermost layer after a
call.

## Main results

* `Grammar.SoundFor.expressionIn` — one round of the reader derives what it
  reads, if the expressions inside are derived.
* `Operators.soundFor` — the reader derives what it reads.
-/

namespace MonkeyFrontend

/-- Numbers among the tokens that are left are made of ASCII digits and points. -/
def Cursor.Numeric (c : Cursor) : Prop :=
  ∀ token ∈ c.tokens, token.kind = .number → IsNumeric token.literal

namespace Cursor

theorem Numeric.advance {c : Cursor} (h : c.Numeric) : c.advance.Numeric :=
  fun token hmem => h token (List.mem_of_mem_tail hmem)

theorem Numeric.reaches {c r : Cursor} (h : c.Numeric) (hr : c.Reaches r) : r.Numeric :=
  fun token hmem => h token (hr.tokens_subset hmem)

theorem Numeric.yields {α : Type} {p : Parser α} {c r : Cursor} {a : α} (h : c.Numeric)
    (hp : p.Yields c a r) : r.Numeric := by
  obtain ⟨_, _, rfl⟩ := hp
  exact h.reaches (p.reaches_rest c)

end Cursor

/-! ## From clean runs to derivations -/

/-- The tree is derived, as an operand of a given strength, to the tokens from one
place to another, and the token after those does not go on with it. -/
def DerivedUpTo (strengths : Strengths) (weakest : Precedence) (c : Cursor) (tree : Expr)
    (r : Cursor) : Prop :=
  ∃ xs, c.Spans xs r ∧ Derives strengths (.expression weakest.operand tree) xs ∧
    ¬ weakest < strengths.precedence r.peek.kind ∧
      (r.peek.kind = .elseWord → ¬ DanglingElse tree xs)

/-- What the loop keeps of the tree that it has built: a layer on which the tree
is derived, which the next token is not above. -/
def BuiltUpTo (strengths : Strengths) (weakest : Precedence) (c : Cursor) (tree : Expr)
    (r : Cursor) : Prop :=
  ∃ xs level, c.Spans xs r ∧ Derives strengths (.expression level tree) xs ∧
    weakest.operand ≤ level ∧ strengths.precedence r.peek.kind ≤ level ∧
      (r.peek.kind = .elseWord → ¬ DanglingElse tree xs)

theorem builtUpTo_of_call {strengths : Strengths} {weakest : Precedence} {c r : Cursor}
    {tree : Expr} {xs : List Token} (hspan : c.Spans xs r)
    (hder : Derives strengths (.expression .call tree) xs)
    (helse : r.peek.kind = .elseWord → ¬ DanglingElse tree xs) :
    BuiltUpTo strengths weakest c tree r :=
  ⟨xs, .call, hspan, hder, Precedence.le_call _, Precedence.le_call _, helse⟩

/-- A grammar whose clean expressions are derived by the stratified grammar. -/
structure Grammar.SoundFor (strengths : Strengths) (grammar : Grammar) : Prop where
  level : grammar.precedence = strengths.precedence
  accounted : ∀ weakest, Parser.Accounted (grammar.expression weakest)
  expression : ∀ {weakest c tree r}, weakest ≤ .prefixed → c.Numeric →
    (grammar.expression weakest).Yields c tree r → DerivedUpTo strengths weakest c tree r

namespace Grammar.SoundFor

open MonkeyFrontend.Parser Cursor

variable {strengths : Strengths} {grammar : Grammar} (h : grammar.SoundFor strengths)
  {c r : Cursor}
include h

/-- An expression of any strength, up to a token that has none. -/
theorem value {tree : Expr} (hc : c.Numeric) (hrun : (grammar.expression .lowest).Yields c tree r) :
    ∃ xs, c.Spans xs r ∧ Derives strengths (.expression .equals tree) xs ∧
      ¬ .lowest < strengths.precedence r.peek.kind := by
  obtain ⟨xs, hspan, hder, hstop, _⟩ := h.expression (by decide) hc hrun
  exact ⟨xs, hspan, hder, hstop⟩

/-! ### Statements and blocks -/

theorem statement {tree : Statement} (hc : c.Numeric)
    (hrun : grammar.statement.Yields c (some tree) r) :
    ∃ xs last, c.Spans xs last ∧ Derives strengths (.statement tree) xs ∧
      ¬ .lowest < strengths.precedence last.peek.kind ∧ r = last.pastSemicolon := by
  rw [yields_statement_some] at hrun
  generalize hkind : c.current.kind = kind at hrun
  unfold statementFrom at hrun
  split at hrun
  · obtain ⟨hname, hassign, value, last, hvalue, rfl, rfl⟩ := yields_binding.mp hrun
    obtain ⟨xs, hspan, hder, hstop⟩ := h.value hc.advance.advance.advance hvalue
    refine ⟨_, last, ?_, .binding hkind hname hassign hder, hstop, rfl⟩
    refine .cons_kind hkind (by decide) (.cons_kind (c := c.advance) hname (by decide) ?_)
    exact .cons_kind (c := c.advance.advance) hassign (by decide) hspan
  · obtain ⟨value, last, hvalue, rfl, rfl⟩ := yields_result.mp hrun
    obtain ⟨xs, hspan, hder, hstop⟩ := h.value hc.advance hvalue
    refine ⟨_, last, ?_, .result hkind hder, hstop, rfl⟩
    exact .cons_kind hkind (by decide) hspan
  · obtain ⟨value, last, hvalue, rfl, rfl⟩ := yields_expressionStatement.mp hrun
    obtain ⟨xs, hspan, hder, hstop⟩ := h.value hc hvalue
    exact ⟨xs, last, hspan, .expression hspan.head? hder, hstop, rfl⟩

theorem chain {trees : List Statement} (hrun : Chain grammar c trees r) (hc : c.Numeric) :
    ∃ xs, c.Passes xs r ∧ Derives strengths (.statements trees) xs := by
  induction hrun with
  | nil => exact ⟨[], .nil, .noStatements⟩
  | cons hfirst _ ih =>
      obtain ⟨ys, hpass, hrest⟩ := ih (hc.yields hfirst).advance
      obtain ⟨xs, last, hspan, hder, hstop, rfl⟩ := h.statement hc hfirst
      unfold pastSemicolon at hpass
      split at hpass
      next hsemi =>
        refine ⟨_, hspan.passes.append ?_, .terminated hsemi hder hrest⟩
        exact .cons_kind (c := last.advance) hsemi (by decide) hpass
      next =>
        refine ⟨_, hspan.passes.append hpass, .unterminated ?_ hder hrest⟩
        intro token hhead
        cases hpass with
        | nil => cases hhead
        | cons hfirst _ =>
            have heq : token = last.peek := by
              rw [← Option.some.inj hhead]
              exact (current_of_head? hfirst).symm
            rw [heq]
            exact hstop

theorem block {tree : Block} (hc : c.Numeric) (hopen : c.current.kind = .openBrace)
    (hrun : grammar.block.Yields c tree r) :
    ∃ xs, c.Spans xs r ∧ Derives strengths (.block tree) xs := by
  obtain ⟨trees, rfl, hchain, hclose⟩ := chain_of_yields_block h.accounted hrun
  obtain ⟨xs, hpass, hder⟩ := h.chain hchain hc.advance
  exact ⟨_, .cons_kind hopen (by decide) (hpass.spans_kind hclose (by decide)),
    .block hopen hclose hder⟩

/-! ### Names and arguments -/

omit h in
theorem moreNames {names : List Name} (hrun : Rounds nextParameter c names r) :
    ∃ xs, c.advance.Passes xs r.advance ∧ DerivesMoreNames names xs := by
  induction hrun with
  | stop hnone =>
      obtain ⟨_, rfl⟩ := yields_nextParameter_none.mp hnone
      exact ⟨[], .nil, .nil⟩
  | @more c _ _ _ _ hsome _ ih =>
      obtain ⟨hcomma, hname, rfl, rfl⟩ := yields_nextParameter_some.mp hsome
      obtain ⟨xs, hpass, hder⟩ := ih
      refine ⟨_, ?_, .cons hcomma hname hder⟩
      refine .cons_kind (c := c.advance) hcomma (by decide) ?_
      exact .cons_kind (c := c.advance.advance) hname (by decide) hpass

omit h in
theorem names {names : List Name} (hrun : grammar.parameters.Yields c names r) :
    ∃ xs, c.advance.Passes xs r ∧ r.current.kind = .closeParen ∧ DerivesNames names xs := by
  rcases yields_parameters.mp hrun with
    ⟨hclose, rfl, rfl⟩ | ⟨hname, rest, m, hrest, hclose, rfl, rfl⟩
  · exact ⟨[], .nil, hclose, .nil⟩
  · obtain ⟨xs, hpass, hder⟩ := moreNames hrest
    exact ⟨_, .cons_kind (c := c.advance) hname (by decide) hpass, hclose, .cons hname hder⟩

theorem moreArguments {trees : List Expr} (hrun : Rounds grammar.nextArgument c trees r)
    (hc : c.Numeric) :
    ∃ xs, c.advance.Passes xs r.advance ∧ Derives strengths (.moreArguments trees) xs := by
  induction hrun with
  | stop hnone =>
      obtain ⟨_, rfl⟩ := yields_nextArgument_none.mp hnone
      exact ⟨[], .nil, .noMoreArguments⟩
  | @more c _ _ _ _ hsome _ ih =>
      obtain ⟨ys, hpass, hrest⟩ := ih (hc.yields hsome)
      obtain ⟨hcomma, hvalue⟩ := yields_nextArgument_some.mp hsome
      obtain ⟨xs, hspan, hder, _⟩ := h.value hc.advance.advance hvalue
      refine ⟨_, ?_, .moreArguments hcomma hder hrest⟩
      exact .cons_kind (c := c.advance) hcomma (by decide) (hspan.passes.append hpass)

theorem arguments {trees : List Expr} (hc : c.Numeric)
    (hrun : grammar.arguments.Yields c trees r) :
    ∃ xs, c.advance.Passes xs r ∧ r.current.kind = .closeParen ∧
      Derives strengths (.arguments trees) xs := by
  rcases yields_arguments.mp hrun with
    ⟨hclose, rfl, rfl⟩ | ⟨_, first, k, hfirst, rest, m, hrest, hclose, rfl, rfl⟩
  · exact ⟨[], .nil, hclose, .noArguments⟩
  · obtain ⟨xs, hspan, hder, _⟩ := h.value hc.advance hfirst
    obtain ⟨ys, hpass, hmore⟩ := h.moreArguments hrest (hc.advance.yields hfirst)
    exact ⟨_, hspan.passes.append hpass, hclose, .arguments hder hmore⟩

/-! ### Expressions -/

omit h in
theorem name {weakest : Precedence} {tree : Expr} (hkind : c.current.kind = .name)
    (hrun : grammar.name.Yields c tree r) : BuiltUpTo strengths weakest c tree r := by
  obtain ⟨rfl, rfl⟩ := yields_name.mp hrun
  have hhead := head?_of_kind_eq hkind (by decide)
  refine builtUpTo_of_call (.single hhead) (.name hkind) fun _ hdangling => ?_
  cases hdangling.1

omit h in
theorem integer {weakest : Precedence} {tree : Expr} (hc : c.Numeric)
    (hkind : c.current.kind = .number) (hrun : grammar.integer.Yields c tree r) :
    BuiltUpTo strengths weakest c tree r := by
  obtain ⟨value, hread, rfl, rfl⟩ := yields_integer.mp hrun
  have hhead := head?_of_kind_eq hkind (by decide)
  have hnumeric := hc _ (List.mem_of_mem_head? hhead) hkind
  obtain ⟨n, rfl, hnames⟩ := (readInteger_eq_ok_iff hnumeric).mp hread
  refine builtUpTo_of_call (.single hhead) (.integer hkind hnames) fun _ hdangling => ?_
  cases hdangling.1

omit h in
theorem boolean {weakest : Precedence} {tree : Expr}
    (hkind : c.current.kind = .trueWord ∨ c.current.kind = .falseWord)
    (hrun : grammar.boolean.Yields c tree r) : BuiltUpTo strengths weakest c tree r := by
  obtain ⟨rfl, rfl⟩ := yields_boolean.mp hrun
  have hhead : r.tokens.head? = some r.current := by
    rcases hkind with hkind | hkind <;> exact head?_of_kind_eq hkind (by decide)
  refine builtUpTo_of_call (.single hhead) (.boolean hkind) fun _ hdangling => ?_
  cases hdangling.1

/-- The operand of a prefix operator stops in front of everything but a call, and
takes that in itself. -/
theorem unary {weakest : Precedence} {tree : Expr} (hc : c.Numeric)
    (hweak : weakest ≤ .prefixed) (hkind : c.current.kind = .bang ∨ c.current.kind = .minus)
    (hrun : grammar.unary.Yields c tree r) : BuiltUpTo strengths weakest c tree r := by
  obtain ⟨operand, hoperand, rfl⟩ := yields_unary.mp hrun
  obtain ⟨xs, hspan, hder, hstop, helse⟩ := h.expression (by decide) hc.advance hoperand
  have hhead : c.tokens.head? = some c.current := by
    rcases hkind with hkind | hkind <;> exact head?_of_kind_eq hkind (by decide)
  refine ⟨_, .prefixed, .cons hhead hspan, .unary hkind hder,
    Precedence.operand_le_prefixed hweak, Precedence.not_lt.mp hstop, fun hword hdangling => ?_⟩
  exact helse hword ((danglingElse_unary_iff hder.expression_ne_nil).mp hdangling)

theorem grouped {weakest : Precedence} {tree : Expr} (hc : c.Numeric)
    (hkind : c.current.kind = .openParen) (hrun : grammar.grouped.Yields c tree r) :
    BuiltUpTo strengths weakest c tree r := by
  obtain ⟨m, hinner, hclose, rfl⟩ := yields_grouped.mp hrun
  obtain ⟨xs, hspan, hder, _⟩ := h.value hc.advance hinner
  have hlast : (c.current :: (xs ++ [m.peek])).getLast? = some m.peek := by
    rw [List.getLast?_cons, List.getLast?_concat]
    rfl
  have hnone : ¬ DanglingElse tree (c.current :: (xs ++ [m.peek])) :=
    not_danglingElse_of_getLast? hlast (by rw [hclose]; decide)
  refine builtUpTo_of_call (.cons_kind hkind (by decide) ?_) (.grouped hkind hclose hder)
    fun _ => hnone
  exact hspan.passes.spans_kind (r := m.advance) hclose (by decide)

theorem conditional {weakest : Precedence} {tree : Expr} (hc : c.Numeric)
    (hkind : c.current.kind = .ifWord) (hrun : grammar.conditional.Yields c tree r) :
    BuiltUpTo strengths weakest c tree r := by
  obtain ⟨hopen, condition, m, hcondition, hclose, hbrace, consequence, k, hconsequence,
    alternative, halternative, rfl⟩ := yields_conditional.mp hrun
  obtain ⟨xs, hxs, hcond, _⟩ := h.value hc.advance.advance hcondition
  have hm := (hc.advance.advance.yields hcondition).advance.advance
  obtain ⟨ys, hys, hthen⟩ := h.block hm hbrace hconsequence
  have hspan : ∀ {zs}, m.advance.advance.Spans zs r →
      c.Spans (c.current :: c.peek :: (xs ++ m.peek :: zs)) r := by
    intro zs hzs
    refine .cons_kind hkind (by decide) (.cons_kind (c := c.advance) hopen (by decide) ?_)
    exact hxs.append (.cons_kind (c := m.advance) hclose (by decide) hzs)
  cases alternative with
  | none =>
      obtain ⟨hword, rfl⟩ := yields_alternative_none.mp halternative
      exact builtUpTo_of_call (hspan hys) (.conditional hkind hopen hclose hcond hthen)
        fun helse => absurd helse hword
  | some other =>
      obtain ⟨hword, hbrace', hother⟩ := yields_alternative_some.mp halternative
      obtain ⟨zs, hzs, helse⟩ := h.block (hm.yields hconsequence).advance.advance hbrace' hother
      have hwhole := hys.append (.cons_kind (c := k.advance) hword (by decide) hzs)
      refine builtUpTo_of_call (hspan hwhole)
        (.conditionalElse hkind hopen hclose hword hcond hthen helse) fun _ hdangling => ?_
      cases hdangling.1

theorem function {weakest : Precedence} {tree : Expr} (hc : c.Numeric)
    (hkind : c.current.kind = .fnWord) (hrun : grammar.function.Yields c tree r) :
    BuiltUpTo strengths weakest c tree r := by
  obtain ⟨hopen, parameters, m, hparameters, hbrace, body, hbody, rfl⟩ := yields_function.mp hrun
  obtain ⟨xs, hpass, hclose, hnames⟩ := names hparameters
  obtain ⟨ys, hys, hder⟩ := h.block (hc.advance.yields hparameters).advance hbrace hbody
  refine builtUpTo_of_call ?_ (.function hkind hopen hclose hnames hder) fun _ hdangling => ?_
  · refine .cons_kind hkind (by decide) (.cons_kind (c := c.advance) hopen (by decide) ?_)
    exact hpass.spans (.cons_kind hclose (by decide) hys)
  · cases hdangling.1

theorem prefixRule {weakest : Precedence} {tree : Expr} {rule : PrefixRule} (hc : c.Numeric)
    (hweak : weakest ≤ .prefixed)
    (hrule : Operators.standardPrefixRule? c.current.kind = some rule)
    (hrun : (rule grammar).Yields c tree r) : BuiltUpTo strengths weakest c tree r := by
  generalize hkind : c.current.kind = kind at hrule
  unfold Operators.standardPrefixRule? at hrule
  split at hrule <;> cases hrule
  · exact name hkind hrun
  · exact integer hc hkind hrun
  · exact boolean (.inl hkind) hrun
  · exact boolean (.inr hkind) hrun
  · exact h.unary hc hweak (.inl hkind) hrun
  · exact h.unary hc hweak (.inr hkind) hrun
  · exact h.grouped hc hkind hrun
  · exact h.conditional hc hkind hrun
  · exact h.function hc hkind hrun

/-! ### The loop -/

/-- After a binary operation the loop keeps the operator's level. -/
theorem binary {weakest : Precedence} {left tree : Expr} {m : Cursor} (hm : m.Numeric)
    (hleft : BuiltUpTo strengths weakest c left m) (hbinary : m.peek.kind.isBinary = true)
    (hlt : weakest < strengths.precedence m.peek.kind)
    (hrun : (grammar.binary left).Yields m.advance tree r) :
    BuiltUpTo strengths weakest c tree r := by
  obtain ⟨xs, level, hxs, hder, _, hlevel, _⟩ := hleft
  obtain ⟨right, hright, rfl⟩ := yields_binary.mp hrun
  rw [h.level] at hright
  have hproduct := (strengths.precedence_of_isBinary hbinary).2
  have hprefixed := Precedence.le_trans hproduct (show Precedence.product ≤ .prefixed by decide)
  obtain ⟨ys, hys, hoperand, hstop, helse⟩ := h.expression hprefixed hm.advance.advance hright
  have hoperator : m.advance.tokens.head? = some m.peek := by
    refine head?_of_kind (c := m.advance) fun hend => ?_
    rw [show m.peek.kind = .endOfInput from hend] at hbinary
    cases hbinary
  have hne := hoperand.expression_ne_nil
  rw [Precedence.operand_of_le_product hproduct] at hoperand
  refine ⟨_, _, hxs.append (.cons hoperator hys),
    .binary hbinary (hder.weaken hlevel) hoperand, Precedence.operand_le_of_lt hlt,
    Precedence.not_lt.mp hstop, fun hword hdangling => ?_⟩
  exact helse hword ((danglingElse_binary_iff hne).mp hdangling)

/-- After a call the loop keeps the innermost layer. -/
theorem call {weakest : Precedence} {callee tree : Expr} {m : Cursor} (hm : m.Numeric)
    (hcallee : BuiltUpTo strengths weakest c callee m) (hkind : m.peek.kind = .openParen)
    (hrun : (grammar.call callee).Yields m.advance tree r) :
    BuiltUpTo strengths weakest c tree r := by
  obtain ⟨xs, level, hxs, hder, _, hlevel, _⟩ := hcallee
  obtain ⟨trees, harguments, rfl⟩ := yields_call.mp hrun
  obtain ⟨ys, hpass, hclose, hys⟩ := h.arguments hm.advance harguments
  rw [hkind, strengths.precedence_openParen] at hlevel
  refine builtUpTo_of_call (hxs.append ?_) (.call hkind hclose (hder.weaken hlevel) hys)
    fun _ hdangling => ?_
  · exact .cons_kind (c := m.advance) hkind (by decide) (hpass.spans_kind hclose (by decide))
  · cases hdangling.1

theorem extend {weakest : Precedence} {left tree : Expr} {m : Cursor} (hm : m.Numeric)
    (hleft : BuiltUpTo strengths weakest c left m)
    (hrun : ((Operators.dialect strengths).extend grammar weakest left).Yields m (some tree) r) :
    BuiltUpTo strengths weakest c tree r := by
  obtain ⟨hlt, rule, hrule, hrule_run⟩ :=
    (Operators.yields_extend_some strengths h.level).mp hrun
  rw [h.level] at hlt
  rcases strengths.lowest_lt_precedence_iff.mp (Precedence.lowest_lt_of_lt hlt) with hbinary | hopen
  · rw [Operators.standardInfixRule?_of_isBinary hbinary] at hrule
    cases hrule
    exact h.binary hm hleft hbinary hlt hrule_run
  · rw [hopen] at hrule
    cases hrule
    exact h.call hm hleft hopen hrule_run

/-- One round of the reader derives what it reads, if its parts do. -/
theorem expressionIn {weakest : Precedence} {tree : Expr} (hc : c.Numeric)
    (hweak : weakest ≤ .prefixed)
    (hrun : ((Operators.dialect strengths).expressionIn grammar weakest).Yields c tree r) :
    DerivedUpTo strengths weakest c tree r := by
  obtain ⟨rule, hrule, left, m, hleft, hgrow⟩ := (Operators.yields_expressionIn strengths).mp hrun
  have hkeeps : ∀ {left tree : Expr} {m k : Cursor},
      m.Numeric ∧ BuiltUpTo strengths weakest c left m →
        ((Operators.dialect strengths).extend grammar weakest left).Yields m (some tree) k →
          k.Numeric ∧ BuiltUpTo strengths weakest c tree k :=
    fun hbuilt hstep => ⟨hbuilt.1.yields hstep, h.extend hbuilt.1 hbuilt.2 hstep⟩
  obtain ⟨last, ⟨_, xs, level, hspan, hder, hoperand, _, helse⟩, hend⟩ :=
    hgrow.grow_invariant hkeeps ⟨hc.yields hleft, h.prefixRule hc hweak hrule hleft⟩
  obtain ⟨hstop, rfl⟩ := (Operators.yields_extend_none strengths h.level).mp hend
  rw [h.level] at hstop
  exact ⟨xs, hspan, hder.weaken hoperand, hstop, helse⟩

end Grammar.SoundFor

namespace Operators

variable (strengths : Strengths)

/-- What the reader of a dialect reads cleanly the dialect's grammar derives. -/
theorem soundFor : (dialect strengths).grammar.SoundFor strengths := by
  have hsound : Grammar.SoundFor strengths
      ⟨(dialect strengths).expression, strengths.precedence⟩ := by
    apply expression_induction strengths
      (motive := fun reader => Grammar.SoundFor strengths ⟨reader, strengths.precedence⟩)
      (fun weakest => Parser.abort (.noExpression .endOfInput))
    · exact
        { level := rfl
          accounted := fun _ => Parser.accounted_abort _
          expression := fun _ _ hrun => (Parser.yields_abort.mp hrun).elim }
    · intro inner hinner
      exact
        { level := rfl
          accounted := accounted_expressionIn hinner.accounted strengths
          expression := fun hweak hc hrun => hinner.expressionIn hc hweak hrun }
    · intro reader hshallow
      refine ⟨rfl, ?_, ?_⟩
      · intro weakest c
        obtain ⟨shallow, hfine, hsame⟩ := hshallow (c.size + 1)
        show ((reader weakest).run c).Accounted
        rw [hsame weakest c (Nat.lt_succ_self _)]
        exact hfine.accounted weakest c
      · intro weakest c tree r hweak hc hrun
        obtain ⟨shallow, hfine, hsame⟩ := hshallow (c.size + 1)
        apply hfine.expression hweak hc
        exact (Parser.yields_congr (hsame weakest c (Nat.lt_succ_self _))).mp hrun
  exact hsound

end Operators

end MonkeyFrontend
