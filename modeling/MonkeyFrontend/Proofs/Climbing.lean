import MonkeyFrontend.Proofs.SoundReading

/-!
# Precedence climbing

The reader of expressions is one loop with a threshold; the grammar has a layer
for each level. In every dialect the two agree: an expression that is asked for
with some strength is read cleanly exactly if the grammar derives it on the layer
of operands of that strength and the token after it does not go on with it
(`Operators.yields_expression_iff`).

One direction is `Operators.soundFor`. The other one is by induction on the
derivation. An expression on some layer may stand to the left of an operator of
that layer, and then the loop goes on after it. So what is proved of it is about
a loop that goes on: whatever the loop makes of the tree from where its tokens
end, the reader makes from where they begin (`Operators.Reads`).

## Main results

* `Operators.reads_of_derives` — what is derived is read cleanly.
* `Operators.yields_expression_iff` — the reader of expressions and the grammar
  agree.
* `Operators.derivedUpTo_unique` — so the grammar derives at most one tree.
* `Operators.climbing_iff_derives` — the agreement at every place in the tokens of a
  source.
-/

namespace MonkeyFrontend

namespace Cursor

theorem Spans.uncons {c r : Cursor} {t : Token} {ts : List Token} (h : c.Spans (t :: ts) r)
    (hne : ts ≠ []) : t = c.current ∧ c.advance.Spans ts r := by
  obtain ⟨hhead, hrest⟩ := (spans_cons_iff hne).mp h
  exact ⟨(current_of_head? hhead).symm, hrest⟩

theorem Spans.unconcat {c r : Cursor} {t : Token} {ts : List Token} (h : c.Spans (ts ++ [t]) r) :
    c.Passes ts r ∧ t = r.current := by
  obtain ⟨m, hpass, hlast⟩ := h.split (List.cons_ne_nil t [])
  obtain ⟨hhead, rfl⟩ := spans_single_iff.mp hlast
  exact ⟨hpass, (current_of_head? hhead).symm⟩

theorem Passes.uncons {c r : Cursor} {t : Token} {ts : List Token} (h : c.Passes (t :: ts) r) :
    t = c.current ∧ c.advance.Passes ts r := by
  cases h with
  | cons hhead hrest => exact ⟨(current_of_head? hhead).symm, hrest⟩

/-- Tokens in a row are passed one part after the other, the first of which has a
last token if it is not empty. -/
theorem Passes.split_spans {c r : Cursor} {ts us : List Token} (h : c.Passes (ts ++ us) r)
    (hne : ts ≠ []) : ∃ m, c.Spans ts m ∧ m.advance.Passes us r := by
  obtain ⟨k, hfirst, hsecond⟩ := h.split
  obtain ⟨m, hspan, rfl⟩ := hfirst.exists_spans hne
  exact ⟨m, hspan, hsecond⟩

end Cursor

namespace Operators

open MonkeyFrontend.Parser Cursor Grammar

variable (strengths : Strengths)

/-! ## What the reader makes of a phrase -/

/-- The reader makes of the tokens of a phrase what the phrase says. For an
expression that is so whenever the next token is not above its layer, whether or
not the loop goes on there. -/
def Reads : Phrase → List Token → Prop
  | .expression level tree, xs => ∀ {weakest c m result r}, weakest ≤ .prefixed →
    weakest.operand ≤ level → c.Spans xs m → strengths.precedence m.peek.kind ≤ level →
    (m.peek.kind = .elseWord → ¬ DanglingElse tree xs) →
    (grow ((dialect strengths).extend (dialect strengths).grammar weakest) tree).Yields m result r →
      ((dialect strengths).expression weakest).Yields c result r
  | .arguments trees, xs => ∀ {c r}, c.advance.Passes xs r → r.current.kind = .closeParen →
    (dialect strengths).grammar.arguments.Yields c trees r
  | .moreArguments trees, xs => ∀ {c r}, c.advance.Passes xs r → r.current.kind = .closeParen →
    ∃ m, Rounds (dialect strengths).grammar.nextArgument c trees m ∧ r = m.advance
  | .statement tree, xs => ∀ {c m}, c.Spans xs m → strengths.precedence m.peek.kind ≤ .lowest →
    m.peek.kind ≠ .elseWord →
      (dialect strengths).grammar.statement.Yields c (some tree) m.pastSemicolon
  | .statements trees, xs => ∀ {c r}, c.Passes xs r →
    r.current.kind = .closeBrace ∨ r.current.kind = .endOfInput →
      Chain (dialect strengths).grammar c trees r
  | .block tree, xs => ∀ {c r}, c.Spans xs r → (dialect strengths).grammar.block.Yields c tree r

variable {strengths}

/-- The loop stops at a token that does not bind strongly enough. -/
theorem yields_grow_self {weakest : Precedence} {tree : Expr} {c : Cursor}
    (h : ¬ weakest < strengths.precedence c.peek.kind) :
    (grow ((dialect strengths).extend (dialect strengths).grammar weakest) tree).Yields c tree c :=
  yields_grow_of_none (progresses_extend strengths _ weakest)
    ((yields_extend_none strengths rfl).mpr ⟨h, rfl⟩)

/-- The loop goes on at a token that binds strongly enough. -/
theorem yields_grow_more {weakest : Precedence} {left tree result : Expr} {c m r : Cursor}
    {rule : InfixRule} (hlt : weakest < strengths.precedence c.peek.kind)
    (hrule : standardInfixRule? c.peek.kind = some rule)
    (hstep : (rule (dialect strengths).grammar left).Yields c.advance tree m)
    (hrest : (grow ((dialect strengths).extend (dialect strengths).grammar weakest) tree).Yields
      m result r) :
    (grow ((dialect strengths).extend (dialect strengths).grammar weakest) left).Yields
      c result r :=
  yields_grow_of_some (progresses_extend strengths _ weakest)
    ((yields_extend_some strengths rfl).mpr ⟨hlt, rule, hrule, hstep⟩) hrest

/-- The reader begins with the rule of the first token and goes on in the loop. -/
theorem yields_expression_of_prefixRule {weakest : Precedence} {left result : Expr}
    {c m r : Cursor} {rule : PrefixRule} (hrule : standardPrefixRule? c.current.kind = some rule)
    (hleft : (rule (dialect strengths).grammar).Yields c left m)
    (hrest : (grow ((dialect strengths).extend (dialect strengths).grammar weakest) left).Yields
      m result r) :
    ((dialect strengths).expression weakest).Yields c result r := by
  rw [expression_eq]
  exact (yields_expressionIn strengths).mpr ⟨rule, hrule, left, m, hleft, hrest⟩

/-- Neither a closing brace nor the end of the input begins a statement. -/
theorem beginsInside : BeginsInside (dialect strengths).grammar := by
  intro c tree m hrun
  rw [yields_statement_some] at hrun
  generalize hkind : c.current.kind = kind at hrun
  unfold statementFrom at hrun
  split at hrun
  · exact ⟨by decide, by decide⟩
  · exact ⟨by decide, by decide⟩
  · obtain ⟨value, last, hvalue, _⟩ := yields_expressionStatement.mp hrun
    have hvalue : ((dialect strengths).expression .lowest).Yields c value last := hvalue
    rw [expression_eq] at hvalue
    obtain ⟨rule, hrule, _⟩ := (yields_expressionIn strengths).mp hvalue
    rw [hkind] at hrule
    constructor
    · rintro rfl
      cases hrule
    · rintro rfl
      cases hrule

namespace Reads

/-- An expression that stands alone is read up to a token without a strength. -/
theorem value {tree : Expr} {xs : List Token} (h : Reads strengths (.expression .equals tree) xs)
    {c m : Cursor} (hspan : c.Spans xs m) (hstop : strengths.precedence m.peek.kind ≤ .lowest)
    (helse : m.peek.kind ≠ .elseWord) :
    ((dialect strengths).expression .lowest).Yields c tree m := by
  refine h (by decide) (by decide) hspan (Precedence.le_trans hstop (by decide))
    (fun hword => absurd hword helse) (yields_grow_self ?_)
  exact Precedence.not_lt.mpr hstop

/-- The same, up to a token of a given kind. -/
theorem value_of_kind {tree : Expr} {xs : List Token} {kind : Kind}
    (h : Reads strengths (.expression .equals tree) xs) {c m : Cursor} (hspan : c.Spans xs m)
    (hkind : m.peek.kind = kind) (hbinary : kind.isBinary = false) (hopen : kind ≠ .openParen)
    (helse : kind ≠ .elseWord) : ((dialect strengths).expression .lowest).Yields c tree m := by
  refine h.value hspan ?_ (by rw [hkind]; exact helse)
  rw [hkind]
  exact strengths.precedence_le_lowest_iff.mpr ⟨hbinary, hopen⟩

/-! ### Operations -/

theorem stronger {level : Precedence} {tree : Expr} {xs : List Token}
    (h : Reads strengths (.expression level.next tree) xs) :
    Reads strengths (.expression level tree) xs := by
  intro weakest c m result r hweak hoperand hspan hlevel helse hrest
  have hnext := Precedence.le_next level
  exact h hweak (Precedence.le_trans hoperand hnext) hspan (Precedence.le_trans hlevel hnext)
    helse hrest

/-- The loop reads the left operand, goes on at the operator, and reads the right
operand on the next stronger layer. -/
theorem binary {left right : Expr} {operator : Token} {xs ys : List Token}
    (hbinary : operator.kind.isBinary = true) (hxs : xs ≠ []) (hys : ys ≠ [])
    (hleft : Reads strengths (.expression (strengths.precedence operator.kind) left) xs)
    (hright : Reads strengths (.expression (strengths.precedence operator.kind).next right) ys) :
    Reads strengths
      (.expression (strengths.precedence operator.kind)
        (.binary operator left operator.literal right))
      (xs ++ operator :: ys) := by
  intro weakest c r result finish hweak hoperand hspan hlevel helse hrest
  have hproduct := (strengths.precedence_of_isBinary hbinary).2
  obtain ⟨m, hfirst, hsecond⟩ := hspan.split_spans hxs (List.cons_ne_nil operator ys)
  obtain ⟨rfl, hlast⟩ := hsecond.uncons hys
  have hstop : ¬ strengths.precedence m.peek.kind < strengths.precedence r.peek.kind :=
    Precedence.not_lt.mpr hlevel
  have hvalue : ((dialect strengths).expression (strengths.precedence m.peek.kind)).Yields
      m.advance.advance right r := by
    refine hright (Precedence.le_trans hproduct (by decide)) ?_ hlast
      (Precedence.le_trans hlevel (Precedence.le_next _)) (fun hword => ?_) (yields_grow_self hstop)
    · exact Precedence.le_of_eq (Precedence.operand_of_le_product hproduct)
    · exact fun hdangling => helse hword ((danglingElse_binary_iff hys).mpr hdangling)
  refine hleft hweak hoperand hfirst (Precedence.le_refl _) (fun hword => ?_)
    (yields_grow_more (Precedence.lt_of_operand_le hoperand hproduct)
      (standardInfixRule?_of_isBinary hbinary) (yields_binary.mpr ⟨right, hvalue, rfl⟩) hrest)
  rw [show m.advance.current.kind = .elseWord from hword] at hbinary
  cases hbinary

theorem unary {operand : Expr} {operator : Token} {xs : List Token}
    (hkind : operator.kind = .bang ∨ operator.kind = .minus) (hxs : xs ≠ [])
    (h : Reads strengths (.expression .prefixed operand) xs) :
    Reads strengths (.expression .prefixed (.unary operator operator.literal operand))
      (operator :: xs) := by
  intro weakest c r result finish hweak hoperand hspan hlevel helse hrest
  obtain ⟨rfl, hlast⟩ := hspan.uncons hxs
  have hrule : standardPrefixRule? c.current.kind = some (Grammar.unary : PrefixRule) := by
    rcases hkind with hkind | hkind <;> rw [hkind] <;> rfl
  have hvalue : ((dialect strengths).expression .prefixed).Yields c.advance operand r := by
    refine h (by decide) (by decide) hlast hlevel (fun hword hdangling => ?_) (yields_grow_self ?_)
    · exact helse hword ((danglingElse_unary_iff hxs).mpr hdangling)
    · exact Precedence.not_lt.mpr hlevel
  exact yields_expression_of_prefixRule hrule (yields_unary.mpr ⟨operand, hvalue, rfl⟩) hrest

theorem call {callee : Expr} {trees : List Expr} {opening closing : Token} {xs ys : List Token}
    (hopen : opening.kind = .openParen) (hclose : closing.kind = .closeParen) (hxs : xs ≠ [])
    (hcallee : Reads strengths (.expression .call callee) xs)
    (htrees : Reads strengths (.arguments trees) ys) :
    Reads strengths (.expression .call (.call opening callee trees))
      (xs ++ opening :: (ys ++ [closing])) := by
  intro weakest c r result finish hweak hoperand hspan hlevel helse hrest
  obtain ⟨m, hfirst, hsecond⟩ := hspan.split_spans hxs (List.cons_ne_nil opening _)
  obtain ⟨rfl, hlast⟩ := hsecond.uncons (by simp)
  obtain ⟨hpass, rfl⟩ := hlast.unconcat
  have hcall : weakest < strengths.precedence m.peek.kind := by
    rw [show m.peek.kind = .openParen from hopen, strengths.precedence_openParen]
    exact Nat.lt_of_le_of_lt hweak (by decide)
  have hrule : standardInfixRule? m.peek.kind = some (Grammar.call : InfixRule) := by
    rw [show m.peek.kind = .openParen from hopen]
    rfl
  refine hcallee hweak (Precedence.le_call _) hfirst (Precedence.le_call _) (fun hword => ?_)
    (yields_grow_more hcall hrule (yields_call.mpr ⟨trees, htrees hpass hclose, rfl⟩) hrest)
  exact absurd (hopen.symm.trans hword) (by decide)

/-! ### Atoms -/

/-- The rule of the first token reads an atom, and the loop goes on after it. -/
theorem of_prefixRule {tree : Expr} {xs : List Token}
    (h : ∀ {c m}, c.Spans xs m → (m.peek.kind = .elseWord → ¬ DanglingElse tree xs) →
      ∃ rule, standardPrefixRule? c.current.kind = some rule ∧
        (rule (dialect strengths).grammar).Yields c tree m) :
    Reads strengths (.expression .call tree) xs := by
  intro weakest c m result r _ _ hspan _ helse hrest
  obtain ⟨rule, hrule, hrun⟩ := h hspan helse
  exact yields_expression_of_prefixRule hrule hrun hrest

theorem name {token : Token} (hkind : token.kind = .name) :
    Reads strengths (.expression .call (.name ⟨token, token.literal⟩)) [token] := by
  apply of_prefixRule
  intro c m hspan _
  obtain ⟨hhead, rfl⟩ := spans_single_iff.mp hspan
  obtain rfl := current_of_head? hhead
  exact ⟨Grammar.name, by rw [hkind]; rfl, yields_name.mpr ⟨rfl, rfl⟩⟩

theorem integer {token : Token} {value : Nat} (hkind : token.kind = .number)
    (hvalue : NamesInteger token.literal value) :
    Reads strengths (.expression .call (.integer token value)) [token] := by
  apply of_prefixRule
  intro c m hspan _
  obtain ⟨hhead, rfl⟩ := spans_single_iff.mp hspan
  obtain rfl := current_of_head? hhead
  have hread : readInteger m.current.literal = .ok (value : Int) :=
    (readInteger_eq_ok_iff fun d hd => .inl (hvalue.digits d hd)).mpr ⟨value, rfl, hvalue⟩
  exact ⟨Grammar.integer, by rw [hkind]; rfl, yields_integer.mpr ⟨value, hread, rfl, rfl⟩⟩

theorem boolean {token : Token} (hkind : token.kind = .trueWord ∨ token.kind = .falseWord) :
    Reads strengths (.expression .call (.boolean token (token.kind == .trueWord))) [token] := by
  apply of_prefixRule
  intro c m hspan _
  obtain ⟨hhead, rfl⟩ := spans_single_iff.mp hspan
  obtain rfl := current_of_head? hhead
  refine ⟨Grammar.boolean, ?_, yields_boolean.mpr ⟨rfl, rfl⟩⟩
  rcases hkind with hkind | hkind <;> rw [hkind] <;> rfl

theorem grouped {tree : Expr} {opening closing : Token} {xs : List Token}
    (hopen : opening.kind = .openParen) (hclose : closing.kind = .closeParen) (hxs : xs ≠ [])
    (h : Reads strengths (.expression .equals tree) xs) :
    Reads strengths (.expression .call tree) (opening :: (xs ++ [closing])) := by
  apply of_prefixRule
  intro c m hspan _
  obtain ⟨rfl, hrest⟩ := hspan.uncons (by simp)
  obtain ⟨k, hinner, hlast⟩ := hrest.split_spans hxs (List.cons_ne_nil closing [])
  obtain ⟨hhead, rfl⟩ := spans_single_iff.mp hlast
  obtain rfl := current_of_head? hhead
  have hvalue := h.value_of_kind hinner hclose rfl (by decide) (by decide)
  exact ⟨Grammar.grouped, by rw [hopen]; rfl, yields_grouped.mpr ⟨k, hvalue, hclose, rfl⟩⟩

/-! ### Conditionals and functions -/

/-- A block begins with its opening brace. -/
theorem kind_of_spans_block {tree : Block} {xs : List Token} {c m : Cursor}
    (hder : Derives strengths (.block tree) xs) (hspan : c.Spans xs m) :
    c.current.kind = .openBrace := by
  obtain ⟨rest, rfl, hopen⟩ := hder.begins
  have hhead := hspan.head?
  rw [List.head?_cons] at hhead
  rw [← Option.some.inj hhead]
  exact hopen

/-- The common part of conditionals: up to the end of their first block. -/
theorem condition {tree : Expr} {word opening closing : Token} {xs ys : List Token} {c m : Cursor}
    (hopen : opening.kind = .openParen) (hclose : closing.kind = .closeParen) (hxs : xs ≠ [])
    (hys : ys ≠ []) (h : Reads strengths (.expression .equals tree) xs)
    (hspan : c.Spans (word :: opening :: (xs ++ closing :: ys)) m) :
    word = c.current ∧ c.peek.kind = .openParen ∧
      ∃ k, ((dialect strengths).expression .lowest).Yields c.advance.advance tree k ∧
        k.peek.kind = .closeParen ∧ k.advance.advance.Spans ys m := by
  obtain ⟨rfl, htail⟩ := hspan.uncons (List.cons_ne_nil opening _)
  obtain ⟨rfl, hbody⟩ := htail.uncons (by simp)
  obtain ⟨k, hinner, hend⟩ := hbody.split_spans hxs (List.cons_ne_nil closing ys)
  obtain ⟨rfl, hblock⟩ := hend.uncons hys
  have hvalue := h.value_of_kind hinner hclose rfl (by decide) (by decide)
  exact ⟨rfl, hopen, k, hvalue, hclose, hblock⟩

theorem conditional {tree : Expr} {consequence : Block} {word opening closing : Token}
    {xs ys : List Token} (hword : word.kind = .ifWord) (hopen : opening.kind = .openParen)
    (hclose : closing.kind = .closeParen) (hxs : xs ≠ [])
    (hder : Derives strengths (.block consequence) ys)
    (hcondition : Reads strengths (.expression .equals tree) xs)
    (hthen : Reads strengths (.block consequence) ys) :
    Reads strengths (.expression .call (.conditional word tree consequence none))
      (word :: opening :: (xs ++ closing :: ys)) := by
  apply of_prefixRule
  intro c m hspan helse
  obtain ⟨rfl, hparen, k, hvalue, hk, hrest⟩ :=
    hcondition.condition hopen hclose hxs hder.block_ne_nil hspan
  refine ⟨Grammar.conditional, by rw [hword]; rfl, yields_conditional.mpr ⟨hparen, tree, k, hvalue,
    hk, kind_of_spans_block hder hrest, consequence, m, hthen hrest, none, ?_, rfl⟩⟩
  refine yields_alternative_none.mpr ⟨fun hnext => helse hnext ?_, rfl⟩
  have hdangling : DanglingElse (.conditional c.current tree consequence none)
      ((c.current :: opening :: (xs ++ [closing])) ++ ys) := danglingElse_conditional hder
  simpa using hdangling

theorem conditionalElse {tree : Expr} {consequence alternative : Block}
    {word opening closing other : Token} {xs ys zs : List Token} (hword : word.kind = .ifWord)
    (hopen : opening.kind = .openParen) (hclose : closing.kind = .closeParen)
    (hother : other.kind = .elseWord) (hxs : xs ≠ [])
    (hder : Derives strengths (.block consequence) ys)
    (hder' : Derives strengths (.block alternative) zs)
    (hcondition : Reads strengths (.expression .equals tree) xs)
    (hthen : Reads strengths (.block consequence) ys)
    (helse : Reads strengths (.block alternative) zs) :
    Reads strengths (.expression .call (.conditional word tree consequence (some alternative)))
      (word :: opening :: (xs ++ closing :: (ys ++ other :: zs))) := by
  apply of_prefixRule
  intro c m hspan _
  obtain ⟨rfl, hparen, k, hvalue, hk, hrest⟩ :=
    hcondition.condition hopen hclose hxs (by simp) hspan
  obtain ⟨l, hfirst, hsecond⟩ := hrest.split_spans hder.block_ne_nil (List.cons_ne_nil other zs)
  obtain ⟨rfl, hlast⟩ := hsecond.uncons hder'.block_ne_nil
  refine ⟨Grammar.conditional, by rw [hword]; rfl, yields_conditional.mpr ⟨hparen, tree, k, hvalue,
    hk, kind_of_spans_block hder hfirst, consequence, l, hthen hfirst, some alternative, ?_, rfl⟩⟩
  exact yields_alternative_some.mpr ⟨hother, kind_of_spans_block hder' hlast, helse hlast⟩

/-- Rounds over the parameters after the first one, up to the closing parenthesis. -/
theorem rounds_nextParameter {names : List Name} {xs : List Token}
    (hder : DerivesMoreNames names xs) :
    ∀ {c r : Cursor}, c.advance.Passes xs r → r.current.kind = .closeParen →
      ∃ m, Rounds nextParameter c names m ∧ r = m.advance := by
  induction hder with
  | nil =>
      intro c r hpass hclose
      cases hpass
      refine ⟨c, .stop (yields_nextParameter_none.mpr ⟨fun hcomma => ?_, rfl⟩), rfl⟩
      exact absurd (hclose.symm.trans hcomma) (by decide)
  | cons hcomma hname _ ih =>
      intro c r hpass hclose
      obtain ⟨rfl, htail⟩ := hpass.uncons
      obtain ⟨rfl, hmore⟩ := htail.uncons
      obtain ⟨m, hrest, rfl⟩ := ih hmore hclose
      exact ⟨m, .more (yields_nextParameter_some.mpr ⟨hcomma, hname, rfl, rfl⟩) hrest, rfl⟩

theorem parameters {names : List Name} {xs : List Token} (hder : DerivesNames names xs)
    {c r : Cursor} (hpass : c.advance.Passes xs r) (hclose : r.current.kind = .closeParen) :
    (dialect strengths).grammar.parameters.Yields c names r := by
  cases hder with
  | nil =>
      cases hpass
      exact yields_parameters.mpr (.inl ⟨hclose, rfl, rfl⟩)
  | cons hname hmore =>
      obtain ⟨rfl, htail⟩ := hpass.uncons
      obtain ⟨m, hrest, rfl⟩ := rounds_nextParameter hmore htail hclose
      exact yields_parameters.mpr (.inr ⟨hname, _, m, hrest, hclose, rfl, rfl⟩)

theorem function {names : List Name} {body : Block} {word opening closing : Token}
    {xs ys : List Token} (hword : word.kind = .fnWord) (hopen : opening.kind = .openParen)
    (hclose : closing.kind = .closeParen) (hnames : DerivesNames names xs)
    (hder : Derives strengths (.block body) ys) (hbody : Reads strengths (.block body) ys) :
    Reads strengths (.expression .call (.function word names body))
      (word :: opening :: (xs ++ closing :: ys)) := by
  apply of_prefixRule
  intro c m hspan _
  obtain ⟨rfl, htail⟩ := hspan.uncons (List.cons_ne_nil opening _)
  obtain ⟨rfl, hbody'⟩ := htail.uncons (by simp)
  obtain ⟨k, hpass, hend⟩ := hbody'.split (List.cons_ne_nil closing ys)
  obtain ⟨rfl, hlast⟩ := hend.uncons hder.block_ne_nil
  exact ⟨Grammar.function, by rw [hword]; rfl, yields_function.mpr ⟨hopen, names, k,
    parameters hnames hpass hclose, kind_of_spans_block hder hlast, body, hbody hlast, rfl⟩⟩

/-! ### Arguments -/

theorem noMoreArguments : Reads strengths (.moreArguments []) [] := by
  intro c r hpass hclose
  cases hpass
  refine ⟨c, .stop (yields_nextArgument_none.mpr ⟨fun hcomma => ?_, rfl⟩), rfl⟩
  exact absurd (hclose.symm.trans hcomma) (by decide)

/-- An argument ends at a comma or at the closing parenthesis. -/
theorem value_of_rounds {tree : Expr} {trees : List Expr} {xs : List Token}
    (h : Reads strengths (.expression .equals tree) xs) {c k m : Cursor} (hspan : c.Spans xs k)
    (hrounds : Rounds (dialect strengths).grammar.nextArgument k trees m)
    (hclose : m.peek.kind = .closeParen) :
    ((dialect strengths).expression .lowest).Yields c tree k := by
  cases hrounds with
  | stop hnone =>
      obtain ⟨_, rfl⟩ := yields_nextArgument_none.mp hnone
      exact h.value_of_kind hspan hclose rfl (by decide) (by decide)
  | more hsome _ =>
      have hcomma := (yields_nextArgument_some.mp hsome).1
      exact h.value_of_kind hspan hcomma rfl (by decide) (by decide)

theorem moreArguments {tree : Expr} {trees : List Expr} {comma : Token} {xs ys : List Token}
    (hcomma : comma.kind = .comma) (hxs : xs ≠ [])
    (htree : Reads strengths (.expression .equals tree) xs)
    (htrees : Reads strengths (.moreArguments trees) ys) :
    Reads strengths (.moreArguments (tree :: trees)) (comma :: (xs ++ ys)) := by
  intro c r hpass hclose
  obtain ⟨rfl, htail⟩ := hpass.uncons
  obtain ⟨k, hspan, hmore⟩ := htail.split_spans hxs
  obtain ⟨m, hrounds, rfl⟩ := htrees hmore hclose
  have hvalue := htree.value_of_rounds hspan hrounds hclose
  exact ⟨m, .more (yields_nextArgument_some.mpr ⟨hcomma, hvalue⟩) hrounds, rfl⟩

theorem noArguments : Reads strengths (.arguments []) [] := by
  intro c r hpass hclose
  cases hpass
  exact yields_arguments.mpr (.inl ⟨hclose, rfl, rfl⟩)

theorem arguments {tree : Expr} {trees : List Expr} {xs ys : List Token}
    (hder : Derives strengths (.expression .equals tree) xs)
    (htree : Reads strengths (.expression .equals tree) xs)
    (htrees : Reads strengths (.moreArguments trees) ys) :
    Reads strengths (.arguments (tree :: trees)) (xs ++ ys) := by
  intro c r hpass hclose
  obtain ⟨k, hspan, hpass⟩ := hpass.split_spans hder.expression_ne_nil
  obtain ⟨m, hrounds, rfl⟩ := htrees hpass hclose
  have hvalue := htree.value_of_rounds hspan hrounds hclose
  refine yields_arguments.mpr (.inr ⟨?_, tree, k, hvalue, trees, m, hrounds, hclose, rfl, rfl⟩)
  -- A closing parenthesis begins no expression, so the list is not taken for empty.
  obtain ⟨first, rest, rfl, hfirst⟩ := hder.head_of_expression
  have hhead := hspan.head?
  rw [List.head?_cons] at hhead
  intro hparen
  rw [Option.some.inj hhead, show c.advance.current.kind = .closeParen from hparen] at hfirst
  cases hfirst

/-! ### Statements -/

theorem binding {tree : Expr} {word name assign : Token} {xs : List Token}
    (hword : word.kind = .letWord) (hname : name.kind = .name) (hassign : assign.kind = .assign)
    (hxs : xs ≠ []) (h : Reads strengths (.expression .equals tree) xs) :
    Reads strengths (.statement (.binding word ⟨name, name.literal⟩ tree))
      (word :: name :: assign :: xs) := by
  intro c m hspan hstop helse
  obtain ⟨rfl, htail⟩ := hspan.uncons (List.cons_ne_nil name _)
  obtain ⟨rfl, htail'⟩ := htail.uncons (List.cons_ne_nil assign _)
  obtain ⟨rfl, hvalue⟩ := htail'.uncons hxs
  rw [yields_statement_some, hword]
  exact yields_binding.mpr ⟨hname, hassign, tree, m, h.value hvalue hstop helse, rfl, rfl⟩

theorem result {tree : Expr} {word : Token} {xs : List Token} (hword : word.kind = .returnWord)
    (hxs : xs ≠ []) (h : Reads strengths (.expression .equals tree) xs) :
    Reads strengths (.statement (.result word tree)) (word :: xs) := by
  intro c m hspan hstop helse
  obtain ⟨rfl, hvalue⟩ := hspan.uncons hxs
  rw [yields_statement_some, hword]
  exact yields_result.mpr ⟨tree, m, h.value hvalue hstop helse, rfl, rfl⟩

theorem expression {tree : Expr} {first : Token} {xs : List Token} (hhead : xs.head? = some first)
    (hfirst : first.kind.beginsExpression = true)
    (h : Reads strengths (.expression .equals tree) xs) :
    Reads strengths (.statement (.expression first tree)) xs := by
  intro c m hspan hstop helse
  rw [hspan.head?] at hhead
  obtain rfl := Option.some.inj hhead
  have hform : (dialect strengths).grammar.statementFrom c.current.kind =
      (dialect strengths).grammar.expressionStatement := by
    unfold statementFrom
    split
    next hkind => rw [hkind] at hfirst; cases hfirst
    next hkind => rw [hkind] at hfirst; cases hfirst
    next => rfl
  rw [yields_statement_some, hform]
  exact yields_expressionStatement.mpr ⟨tree, m, h.value hspan hstop helse, rfl, rfl⟩

theorem noStatements : Reads strengths (.statements []) [] := by
  intro c r hpass _
  cases hpass
  exact .nil

theorem terminated {tree : Statement} {trees : List Statement} {semicolon : Token}
    {xs ys : List Token} (hsemi : semicolon.kind = .semicolon) (hxs : xs ≠ [])
    (htree : Reads strengths (.statement tree) xs)
    (htrees : Reads strengths (.statements trees) ys) :
    Reads strengths (.statements (tree :: trees)) (xs ++ semicolon :: ys) := by
  intro c r hpass hclose
  obtain ⟨m, hspan, hend⟩ := hpass.split_spans hxs
  obtain ⟨rfl, hmore⟩ := hend.uncons
  have hpeek : m.peek.kind = .semicolon := hsemi
  have hstatement := htree hspan
    (by rw [hpeek]; exact strengths.precedence_le_lowest_iff.mpr ⟨rfl, by decide⟩)
    (by rw [hpeek]; decide)
  rw [pastSemicolon, if_pos hpeek] at hstatement
  exact .cons hstatement (htrees hmore hclose)

/-- Neither a semicolon nor an `else` begins the next statement or ends the row. -/
theorem unterminated {tree : Statement} {trees : List Statement} {xs ys : List Token}
    (hnext : ∀ token, ys.head? = some token → ¬ .lowest < strengths.precedence token.kind)
    (hder : Derives strengths (.statements trees) ys) (hxs : xs ≠ [])
    (htree : Reads strengths (.statement tree) xs)
    (htrees : Reads strengths (.statements trees) ys) :
    Reads strengths (.statements (tree :: trees)) (xs ++ ys) := by
  intro c r hpass hclose
  obtain ⟨m, hspan, hpass⟩ := hpass.split_spans hxs
  have hpeek : strengths.precedence m.peek.kind ≤ .lowest ∧ m.peek.kind ≠ .elseWord ∧
      m.peek.kind ≠ .semicolon := by
    cases hys : ys with
    | nil =>
        rw [hys] at hpass
        cases hpass
        have hclose : m.peek.kind = .closeBrace ∨ m.peek.kind = .endOfInput := hclose
        rw [strengths.precedence_le_lowest_iff]
        rcases hclose with hkind | hkind <;> rw [hkind] <;> decide
    | cons token rest =>
        rw [hys] at hpass
        obtain ⟨rfl, _⟩ := hpass.uncons
        have hbegins := hder.begins m.peek (by rw [hys]; rfl)
        refine ⟨Precedence.not_lt.mp (hnext m.peek (by rw [hys]; rfl)), ?_, ?_⟩
        · intro hkind
          rw [hkind] at hbegins
          revert hbegins
          decide
        · intro hkind
          rw [hkind] at hbegins
          revert hbegins
          decide
  have hstatement := htree hspan hpeek.1 hpeek.2.1
  rw [pastSemicolon, if_neg hpeek.2.2] at hstatement
  exact .cons hstatement (htrees hpass hclose)

theorem block {trees : List Statement} {opening closing : Token} {xs : List Token}
    (hclose : closing.kind = .closeBrace) (h : Reads strengths (.statements trees) xs) :
    Reads strengths (.block ⟨opening, trees⟩) (opening :: (xs ++ [closing])) := by
  intro c r hspan
  obtain ⟨rfl, htail⟩ := hspan.uncons (by simp)
  obtain ⟨hpass, rfl⟩ := htail.unconcat
  exact yields_block_of_chain beginsInside (h hpass (.inl hclose)) hclose

end Reads

/-- What the grammar of a dialect derives its reader reads cleanly. -/
theorem reads_of_derives {phrase : Phrase} {xs : List Token} (h : Derives strengths phrase xs) :
    Reads strengths phrase xs := by
  induction h with
  | binary hbinary hleft hright ihleft ihright =>
      exact Reads.binary hbinary hleft.expression_ne_nil hright.expression_ne_nil ihleft ihright
  | stronger _ ih => exact Reads.stronger ih
  | unary hkind hoperand ih => exact Reads.unary hkind hoperand.expression_ne_nil ih
  | call hopen hclose hcallee _ ihcallee ihtrees =>
      exact Reads.call hopen hclose hcallee.expression_ne_nil ihcallee ihtrees
  | name hkind => exact Reads.name hkind
  | integer hkind hvalue => exact Reads.integer hkind hvalue
  | boolean hkind => exact Reads.boolean hkind
  | grouped hopen hclose hinner ih => exact Reads.grouped hopen hclose hinner.expression_ne_nil ih
  | conditional hword hopen hclose hcondition hthen ihcondition ihthen =>
      exact Reads.conditional hword hopen hclose hcondition.expression_ne_nil hthen ihcondition
        ihthen
  | conditionalElse hword hopen hclose hother hcondition hthen helse ihcondition ihthen ihelse =>
      exact Reads.conditionalElse hword hopen hclose hother hcondition.expression_ne_nil hthen helse
        ihcondition ihthen ihelse
  | function hword hopen hclose hnames hbody ihbody =>
      exact Reads.function hword hopen hclose hnames hbody ihbody
  | noArguments => exact Reads.noArguments
  | arguments htree _ ihtree ihtrees => exact Reads.arguments htree ihtree ihtrees
  | noMoreArguments => exact Reads.noMoreArguments
  | moreArguments hcomma htree _ ihtree ihtrees =>
      exact Reads.moreArguments hcomma htree.expression_ne_nil ihtree ihtrees
  | binding hword hname hassign htree ih =>
      exact Reads.binding hword hname hassign htree.expression_ne_nil ih
  | result hword htree ih => exact Reads.result hword htree.expression_ne_nil ih
  | expression hhead htree ih =>
      obtain ⟨first, rest, rfl, hfirst⟩ := htree.head_of_expression
      obtain rfl := Option.some.inj hhead
      exact Reads.expression rfl hfirst ih
  | noStatements => exact Reads.noStatements
  | terminated hsemi htree _ ihtree ihtrees =>
      exact Reads.terminated hsemi htree.statement_ne_nil ihtree ihtrees
  | unterminated hnext htree htrees ihtree ihtrees =>
      exact Reads.unterminated hnext htrees htree.statement_ne_nil ihtree ihtrees
  | block _ hclose _ ih => exact Reads.block hclose ih

/-! ## The two together -/

/-- Where numbers are made of ASCII digits and points, the reader of expressions
reads cleanly what the stratified grammar derives. -/
theorem yields_expression_iff {weakest : Precedence} (hweak : weakest ≤ .prefixed) {c r : Cursor}
    (hc : c.Numeric) {tree : Expr} :
    ((dialect strengths).expression weakest).Yields c tree r ↔
      DerivedUpTo strengths weakest c tree r := by
  constructor
  · exact (soundFor strengths).expression hweak hc
  · rintro ⟨xs, hspan, hder, hstop, helse⟩
    have hlevel := Precedence.not_lt.mp hstop
    have hoperand := Precedence.le_trans hlevel (Precedence.le_operand weakest)
    exact reads_of_derives hder hweak (Precedence.le_refl _) hspan hoperand helse
      (yields_grow_self hstop)

/-- The grammar leaves no choice: at one place it derives at most one tree, to at
most one list of tokens, that the next token does not go on with. -/
theorem derivedUpTo_unique {weakest : Precedence} (hweak : weakest ≤ .prefixed) {c r r' : Cursor}
    (hc : c.Numeric) {tree tree' : Expr} (h : DerivedUpTo strengths weakest c tree r)
    (h' : DerivedUpTo strengths weakest c tree' r') : tree = tree' ∧ r = r' := by
  obtain ⟨hvalue, _, hrest⟩ := (yields_expression_iff hweak hc).mpr h
  obtain ⟨hvalue', _, hrest'⟩ := (yields_expression_iff hweak hc).mpr h'
  rw [hvalue] at hvalue'
  exact ⟨Option.some.inj hvalue', hrest.symm.trans hrest'⟩

theorem numeric_of_ofSource (source : String) (count depth : Nat) :
    (Cursor.mk ((Token.ofSource source).drop count) depth).Numeric :=
  fun _ hmem => Token.isNumeric_of_mem_ofSource (List.mem_of_mem_drop hmem)

variable (strengths)

/-- Precedence climbing is the stratified grammar. In every dialect, at every place
in the tokens of a source, and for every strength up to that of prefix operators,
the reader gives a tree without a fault and stops at some token exactly if the
grammar derives the tree, on the layer of operands of that strength, to the
tokens up to that one, and the next token does not go on with it: it does not bind
more strongly than asked for, and it is no `else` that the last conditional is
still waiting for. -/
theorem climbing_iff_derives (source : String) (count depth : Nat) {weakest : Precedence}
    (hweak : weakest ≤ .prefixed) (tree : Expr) (finish : Cursor) :
    ((dialect strengths).expression weakest).Yields ⟨(Token.ofSource source).drop count, depth⟩
        tree finish ↔
      ∃ xs, Cursor.Spans ⟨(Token.ofSource source).drop count, depth⟩ xs finish ∧
        Derives strengths (.expression weakest.operand tree) xs ∧
          ¬ weakest < strengths.precedence finish.peek.kind ∧
            (finish.peek.kind = .elseWord → ¬ DanglingElse tree xs) :=
  yields_expression_iff hweak (numeric_of_ofSource source count depth)

/-- Of two operators of one level the first one groups first. -/
theorem climbing_groups_to_the_left :
    Precedence.lowest ≤ .prefixed ∧
      (standard.expression .lowest).Yields ⟨(Token.ofSource "a - b - c").drop 0, 0⟩
        (.binary ⟨.minus, "-"⟩
          (.binary ⟨.minus, "-"⟩ (.name ⟨⟨.name, "a"⟩, "a"⟩) "-" (.name ⟨⟨.name, "b"⟩, "b"⟩))
          "-" (.name ⟨⟨.name, "c"⟩, "c"⟩))
        ⟨[⟨.name, "c"⟩], 0⟩ := by
  refine ⟨by decide, (climbing_iff_derives .standard "a - b - c" 0 0 (by decide) _ _).mpr ?_⟩
  have htokens : Token.ofSource "a - b - c" =
      [⟨.name, "a"⟩, ⟨.minus, "-"⟩, ⟨.name, "b"⟩, ⟨.minus, "-"⟩, ⟨.name, "c"⟩] := by
    decide +kernel
  have hname : ∀ text, Derives .standard (.expression .call (.name ⟨⟨.name, text⟩, text⟩))
      [⟨.name, text⟩] := fun text => .name rfl
  have hab := @Derives.binary .standard _ _ ⟨.minus, "-"⟩ _ _ rfl
    ((hname "a").weaken (by decide)) ((hname "b").weaken (by decide))
  have habc := @Derives.binary .standard _ _ ⟨.minus, "-"⟩ _ _ rfl hab
    ((hname "c").weaken (by decide))
  refine ⟨_, ?_, habc.weaken (by decide), by decide, fun hword => by cases hword⟩
  rw [htokens]
  exact spans_iff.mpr ⟨by simp, by simp, rfl⟩

end Operators

end MonkeyFrontend
