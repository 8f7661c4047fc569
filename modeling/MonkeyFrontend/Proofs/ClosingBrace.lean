import MonkeyFrontend.Proofs.CleanConstruct
import MonkeyFrontend.Proofs.StatementEnd

/-!
# Clean runs in front of a closing brace

A list of tokens that is read to its end may be the whole input, or a closing brace may
stand behind it. What is read without a fault is read the same in both cases, because
the reader asks about the token behind the last one only whether it goes on, and neither
the end of the input nor a closing brace does (`Parser.Carries`).

The braces of the list have to be balanced, so that passing a closing brace of the list
is the same inside more braces.

## Main results

* `Cursor.Balanced.reaches` — what is left of a balanced list is balanced.
* `Parser.Carries.bind`, `Parser.carries_peek_bind` — sequences of parsers that carry over
  carry over, and so does a look ahead that takes both ends for the same.
* `Grammar.CarriesOver.statement` — statements carry over if expressions do.
* `Operators.carriesOver` — expressions carry over.
-/

namespace MonkeyFrontend

/-! ## Balanced braces -/

namespace Token

/-- The number of opening braces in a list. -/
def opened (tokens : List Token) : Nat :=
  tokens.countP fun token => token.kind == .openBrace

/-- The number of closing braces in a list. -/
def closed (tokens : List Token) : Nat :=
  tokens.countP fun token => token.kind == .closeBrace

end Token

namespace Cursor

/-- The tokens that are left close the braces that are open here, and those that they open
themselves, and none of them closes more than are open. -/
structure Balanced (c : Cursor) : Prop where
  covered : ∀ before, before <+: c.tokens → Token.closed before ≤ c.depth + Token.opened before
  settled : Token.closed c.tokens = c.depth + Token.opened c.tokens

instance (c : Cursor) : Decidable c.Balanced :=
  decidable_of_iff
    ((∀ count ≤ c.size,
        Token.closed (c.tokens.take count) ≤ c.depth + Token.opened (c.tokens.take count)) ∧
      Token.closed c.tokens = c.depth + Token.opened c.tokens)
    ⟨fun h => ⟨fun _ hfront => List.prefix_iff_eq_take.mp hfront ▸ h.1 _ hfront.length_le, h.2⟩,
      fun h => ⟨fun _ _ => h.covered _ (List.take_prefix _ _), h.settled⟩⟩

variable {c r : Cursor}

/-- Counting a token and passing it come to the same, if it closes only what is open. -/
theorem closed_cons_add {depth : Nat} {token : Token}
    (hpos : token.kind = .closeBrace → 0 < depth) (tokens : List Token) :
    Token.closed (token :: tokens) + depthAfter depth token + Token.opened tokens =
      Token.closed tokens + depth + Token.opened (token :: tokens) := by
  unfold depthAfter
  split
  next hkind =>
    simp [Token.closed, Token.opened, hkind]
    omega
  next hkind =>
    have hdepth := hpos hkind
    simp [Token.closed, Token.opened, hkind]
    omega
  next hopen hclose =>
    have hcloses : Token.closed (token :: tokens) = Token.closed tokens :=
      List.countP_cons_of_neg (by simpa using hclose)
    have hopens : Token.opened (token :: tokens) = Token.opened tokens :=
      List.countP_cons_of_neg (by simpa using hopen)
    omega

/-- A closing brace of balanced tokens has something to close. -/
theorem Balanced.depth_pos (h : c.Balanced) (hkind : c.current.kind = .closeBrace) :
    0 < c.depth := by
  have hne : c.tokens ≠ [] := tokens_ne_nil_of_kind (by rw [hkind]; decide)
  obtain ⟨tokens, depth⟩ := c
  obtain ⟨token, rest, rfl⟩ := List.exists_cons_of_ne_nil hne
  have hkind : token.kind = .closeBrace := hkind
  have hfirst : Token.closed [token] ≤ depth + Token.opened [token] :=
    h.covered [token] ⟨rest, rfl⟩
  simpa [Token.closed, Token.opened, hkind, Nat.one_le_iff_ne_zero, Nat.pos_iff_ne_zero]
    using hfirst

/-- Behind a token of balanced tokens the others are balanced. -/
theorem Balanced.advance (h : c.Balanced) : c.advance.Balanced := by
  by_cases hnil : c.tokens = []
  · rwa [advance_of_tokens_eq_nil hnil]
  · have hpos := h.depth_pos
    obtain ⟨tokens, depth⟩ := c
    obtain ⟨token, rest, rfl⟩ := List.exists_cons_of_ne_nil hnil
    have hpass := closed_cons_add (show token.kind = .closeBrace → 0 < depth from hpos)
    constructor
    · intro before hfront
      have hcovered : Token.closed (token :: before) ≤ depth + Token.opened (token :: before) :=
        h.covered (token :: before) (List.cons_prefix_cons.mpr ⟨rfl, hfront⟩)
      have hbefore := hpass before
      show Token.closed before ≤ depthAfter depth token + Token.opened before
      omega
    · have hsettled : Token.closed (token :: rest) = depth + Token.opened (token :: rest) :=
        h.settled
      have hrest := hpass rest
      show Token.closed rest = depthAfter depth token + Token.opened rest
      omega

theorem Balanced.reaches (h : c.Balanced) (hr : c.Reaches r) : r.Balanced := by
  obtain ⟨count, rfl⟩ := hr
  induction count generalizing c with
  | zero => exact h
  | succ count ih => exact ih h.advance

/-- Passing a token of balanced tokens is the same inside more braces. -/
theorem Balanced.advance_embed (h : c.Balanced) (hne : c.tokens ≠ []) {lift : Nat}
    {more : List Token} : (c.embed lift more).advance = c.advance.embed lift more := by
  apply Cursor.advance_embed hne
  by_cases hkind : c.current.kind = .closeBrace
  · exact .inr (.inl (h.depth_pos hkind))
  · exact .inr (.inr hkind)

/-- Where tokens are left now, tokens were left before. -/
theorem Reaches.tokens_ne_nil (h : c.Reaches r) (hne : r.tokens ≠ []) : c.tokens ≠ [] := by
  intro hnil
  have hsubset := h.tokens_subset
  rw [hnil] at hsubset
  exact hne (List.subset_nil.mp hsubset)

end Cursor

open Cursor

/-! ## Runs that carry over -/

namespace Parser

variable {α β : Type} {lift : Nat} {more : List Token}

/-- A clean run over balanced tokens that stops on one of them is the same with `lift` more
braces around and with `more` behind. -/
def Carries (lift : Nat) (more : List Token) (p : Parser α) : Prop :=
  ∀ c a r, c.Balanced → p.Yields c a r → r.tokens ≠ [] →
    p.Yields (c.embed lift more) a (r.embed lift more)

theorem Yields.reaches {p : Parser α} {c r : Cursor} {a : α} (h : p.Yields c a r) :
    c.Reaches r := by
  have hreaches := p.reaches_rest c
  rwa [h.2.2] at hreaches

theorem carries_pure {a : α} : Carries lift more (pure a : Parser α) := by
  intro c b r _ hyields _
  obtain ⟨rfl, rfl⟩ := yields_pure.mp hyields
  exact yields_pure.mpr ⟨rfl, rfl⟩

theorem carries_abort {fault : Fault} : Carries lift more (abort fault : Parser α) :=
  fun _ _ _ _ hyields _ => (yields_abort.mp hyields).elim

theorem Carries.bind {p : Parser α} {f : α → Parser β} (hp : Carries lift more p)
    (hf : ∀ a, Carries lift more (f a)) : Carries lift more (p >>= f) := by
  intro c b r hc hyields hne
  obtain ⟨a, m, hfirst, hsecond⟩ := yields_bind.mp hyields
  have hm : m.tokens ≠ [] := hsecond.reaches.tokens_ne_nil hne
  have hrest := hc.reaches hfirst.reaches
  exact yields_bind.mpr ⟨a, _, hp _ _ _ hc hfirst hm, hf a _ _ _ hrest hsecond hne⟩

theorem carries_current : Carries lift more current := by
  rintro c a r _ ⟨hvalue, _, rfl⟩ hne
  have hcurrent : (c.embed lift more).current = c.current := current_embed hne
  have hvalue : some c.current = some a := hvalue
  refine ⟨?_, rfl, rfl⟩
  show some (c.embed lift more).current = some a
  rw [hcurrent, hvalue]

theorem carries_advance : Carries lift more advance := by
  rintro c a r hc ⟨_, _, rfl⟩ hne
  refine ⟨rfl, rfl, ?_⟩
  exact hc.advance_embed ((reaches_advance c).tokens_ne_nil hne)

/-- What a look ahead is used for carries over, if the end of the input and a closing
brace ahead are the same for it. -/
theorem carries_peek_bind {f : Token → Parser β}
    (hmore : ∃ closing rest, more = closing :: rest ∧ closing.kind = .closeBrace)
    (hblind : ∀ closing : Token, closing.kind = .closeBrace → f closing = f .endOfInput)
    (hf : ∀ next, Carries lift more (f next)) : Carries lift more (peek >>= f) := by
  intro c b r hc hyields hne
  rw [yields_peek_bind] at hyields ⊢
  have hnil : c.tokens ≠ [] := hyields.reaches.tokens_ne_nil hne
  have hsame : f (c.embed lift more).peek = f c.peek := by
    have hpeek : (c.embed lift more).peek = (c.advance.embed lift more).current :=
      congrArg Cursor.current (hc.advance_embed hnil)
    -- Only from the last token is something else seen ahead.
    by_cases hlast : c.advance.tokens = []
    · obtain ⟨closing, rest, rfl, hclosing⟩ := hmore
      have hend : c.peek = .endOfInput := current_of_tokens_eq_nil hlast
      have hbrace : (c.advance.embed lift (closing :: rest)).current = closing := by
        rw [embed, hlast]
        rfl
      rw [hpeek, hbrace, hend, hblind closing hclosing]
    · have hpeek' : (c.advance.embed lift more).current = c.peek := current_embed hlast
      rw [hpeek, hpeek']
  rw [hsame]
  exact hf _ _ _ _ hc hyields hne

/-- A look ahead for one kind of token that does not end lists of statements. -/
theorem carries_peek_if {kind : Kind} {p q : Parser β}
    (hmore : ∃ closing rest, more = closing :: rest ∧ closing.kind = .closeBrace)
    (hkind : kind ≠ .endOfInput ∧ kind ≠ .closeBrace) (hp : Carries lift more p)
    (hq : Carries lift more q) :
    Carries lift more (peek >>= fun next => if next.kind = kind then p else q) := by
  apply carries_peek_bind hmore
  · intro closing hclosing
    have hend : Token.endOfInput.kind ≠ kind := hkind.1.symm
    rw [if_neg (by rw [hclosing]; exact hkind.2.symm), if_neg hend]
  · intro next
    split
    · exact hp
    · exact hq

theorem carries_expect {kind : Kind} : Carries lift more (expect kind) := by
  intro c a r hc hyields hne
  rw [← bind_pure (expect kind), yields_expect_bind] at hyields ⊢
  obtain ⟨hkind, hpure⟩ := hyields
  obtain ⟨rfl, rfl⟩ := yields_pure.mp hpure
  have hpass : (c.embed lift more).advance = c.advance.embed lift more :=
    hc.advance_embed ((reaches_advance c).tokens_ne_nil hne)
  have hpeek : (c.embed lift more).peek = c.peek :=
    (congrArg Cursor.current hpass).trans (current_embed hne)
  rw [hpeek, hpass]
  exact ⟨hkind, yields_pure.mpr ⟨rfl, rfl⟩⟩

theorem carries_many {item : Parser (Option α)} (hround : Progresses item)
    (h : Carries lift more item) : Carries lift more (many item) := by
  intro c found r hc hyields hne
  rw [yields_many hround] at hyields ⊢
  induction hyields with
  | stop hnone => exact .stop (h _ _ _ hc hnone hne)
  | more hsome hrest ih =>
      have hm := ((yields_many hround).mpr hrest).reaches.tokens_ne_nil hne
      exact .more (h _ _ _ hc hsome hm) (ih (hc.reaches hsome.reaches) hne)

theorem carries_grow {step : α → Parser (Option α)} (hround : ∀ a, Progresses (step a))
    (h : ∀ a, Carries lift more (step a)) (value : α) : Carries lift more (grow step value) := by
  intro c result r hc hyields hne
  induction hsize : c.size using Nat.strongRecOn generalizing c value with
  | ind size ih =>
      rw [grow_eq hround] at hyields
      obtain ⟨found, m, hfirst, hnext⟩ := yields_bind.mp hyields
      have hm : m.tokens ≠ [] := hnext.reaches.tokens_ne_nil hne
      have hfirst' := h value _ _ _ hc hfirst hm
      cases found with
      | none =>
          obtain ⟨rfl, rfl⟩ := yields_pure.mp hnext
          exact yields_grow_of_none hround hfirst'
      | some grown =>
          have hshort : m.size < c.size := by
            have hprogress := hround value c grown hfirst.1
            rwa [hfirst.2.2] at hprogress
          exact yields_grow_of_some hround hfirst'
            (ih _ (hsize ▸ hshort) grown _ (hc.reaches hfirst.reaches) hnext rfl)

end Parser

/-! ## Constructs -/

/-- A grammar whose expressions carry over into braces, in front of a closing one, and are
reported if they fail. -/
structure Grammar.CarriesOver (lift : Nat) (more : List Token) (grammar : Grammar) : Prop where
  closing : ∃ closing rest, more = closing :: rest ∧ closing.kind = .closeBrace
  accounted : ∀ weakest, Parser.Accounted (grammar.expression weakest)
  expression : ∀ weakest, Parser.Carries lift more (grammar.expression weakest)

namespace Grammar.CarriesOver

open MonkeyFrontend.Parser

variable {lift : Nat} {more : List Token} {grammar : Grammar} (h : grammar.CarriesOver lift more)
include h

/-! ### Statements and blocks -/

theorem optionalSemicolon : Carries lift more optionalSemicolon :=
  carries_peek_if h.closing (by decide) carries_advance carries_pure

theorem statementFrom (kind : Kind) : Carries lift more (grammar.statementFrom kind) := by
  unfold Grammar.statementFrom
  split
  · refine carries_current.bind fun token => ?_
    refine carries_expect.bind fun _ => ?_
    refine carries_current.bind fun bound => ?_
    refine carries_expect.bind fun _ => ?_
    refine carries_advance.bind fun _ => ?_
    refine (h.expression _).bind fun value => ?_
    exact h.optionalSemicolon.bind fun _ => carries_pure
  · refine carries_current.bind fun token => ?_
    refine carries_advance.bind fun _ => ?_
    refine (h.expression _).bind fun value => ?_
    exact h.optionalSemicolon.bind fun _ => carries_pure
  · refine carries_current.bind fun token => ?_
    refine (h.expression _).bind fun value => ?_
    exact h.optionalSemicolon.bind fun _ => carries_pure

/-- A statement that is dropped is reported, so every clean one was read. -/
theorem statement : Carries lift more grammar.statement := by
  intro c o r hc hyields hne
  cases o with
  | none => exact (not_yields_statement_none h.accounted hyields).elim
  | some s =>
      rw [yields_statement_some] at hyields ⊢
      rw [current_embed (hyields.reaches.tokens_ne_nil hne)]
      exact h.statementFrom _ _ _ _ hc hyields hne

theorem blockItem : Carries lift more grammar.blockItem := by
  refine carries_current.bind fun token => ?_
  split
  · exact carries_pure
  · refine h.statement.bind fun statement => ?_
    refine carries_current.bind fun last => ?_
    split
    · exact carries_pure
    · exact carries_advance.bind fun _ => carries_pure

theorem block : Carries lift more grammar.block := by
  refine carries_current.bind fun token => ?_
  refine carries_advance.bind fun _ => ?_
  refine (carries_many (progresses_blockItem grammar) h.blockItem).bind fun found => ?_
  refine carries_current.bind fun last => ?_
  split
  · exact carries_abort
  · exact carries_pure

/-! ### Expressions -/

theorem unary : Carries lift more grammar.unary := by
  refine carries_current.bind fun token => ?_
  refine carries_advance.bind fun _ => ?_
  exact (h.expression _).bind fun _ => carries_pure

theorem binary (left : Expr) : Carries lift more (grammar.binary left) := by
  refine carries_current.bind fun token => ?_
  refine carries_advance.bind fun _ => ?_
  exact (h.expression _).bind fun _ => carries_pure

theorem grouped : Carries lift more grammar.grouped := by
  refine carries_advance.bind fun _ => ?_
  refine (h.expression _).bind fun inner => ?_
  exact carries_expect.bind fun _ => carries_pure

theorem alternative : Carries lift more grammar.alternative := by
  refine carries_peek_if h.closing (by decide) ?_ carries_pure
  refine carries_advance.bind fun _ => ?_
  refine carries_expect.bind fun _ => ?_
  exact h.block.bind fun _ => carries_pure

theorem conditional : Carries lift more grammar.conditional := by
  refine carries_current.bind fun token => ?_
  refine carries_expect.bind fun _ => ?_
  refine carries_advance.bind fun _ => ?_
  refine (h.expression _).bind fun condition => ?_
  refine carries_expect.bind fun _ => ?_
  refine carries_expect.bind fun _ => ?_
  refine h.block.bind fun consequence => ?_
  exact h.alternative.bind fun _ => carries_pure

omit h in
theorem parameter : Carries lift more parameter :=
  carries_expect.bind fun _ => carries_current.bind fun _ => carries_pure

theorem nextParameter : Carries lift more nextParameter := by
  refine carries_peek_if h.closing (by decide) ?_ carries_pure
  refine carries_advance.bind fun _ => ?_
  exact parameter.bind fun _ => carries_pure

theorem parameters : Carries lift more grammar.parameters := by
  refine carries_peek_if h.closing (by decide) ?_ ?_
  · exact carries_advance.bind fun _ => carries_pure
  · refine parameter.bind fun first => ?_
    refine (carries_many progresses_nextParameter h.nextParameter).bind fun rest => ?_
    exact carries_expect.bind fun _ => carries_pure

theorem function : Carries lift more grammar.function := by
  refine carries_current.bind fun token => ?_
  refine carries_expect.bind fun _ => ?_
  refine h.parameters.bind fun parameters => ?_
  refine carries_expect.bind fun _ => ?_
  exact h.block.bind fun _ => carries_pure

theorem nextArgument : Carries lift more grammar.nextArgument := by
  refine carries_peek_if h.closing (by decide) ?_ carries_pure
  refine carries_advance.bind fun _ => ?_
  refine carries_advance.bind fun _ => ?_
  exact (h.expression _).bind fun _ => carries_pure

theorem arguments : Carries lift more grammar.arguments := by
  refine carries_peek_if h.closing (by decide) ?_ ?_
  · exact carries_advance.bind fun _ => carries_pure
  · refine carries_advance.bind fun _ => ?_
    refine (h.expression _).bind fun first => ?_
    refine (carries_many (progresses_nextArgument grammar) h.nextArgument).bind fun rest => ?_
    exact carries_expect.bind fun _ => carries_pure

theorem call (callee : Expr) : Carries lift more (grammar.call callee) := by
  refine carries_current.bind fun token => ?_
  exact h.arguments.bind fun _ => carries_pure

theorem prefixRule {kind : Kind} {rule : PrefixRule}
    (hrule : Operators.standardPrefixRule? kind = some rule) : Carries lift more (rule grammar) := by
  unfold Operators.standardPrefixRule? at hrule
  split at hrule <;> cases hrule
  · exact carries_current.bind fun _ => carries_pure
  · refine carries_current.bind fun token => ?_
    split
    · exact carries_pure
    · exact carries_abort
  · exact carries_current.bind fun _ => carries_pure
  · exact carries_current.bind fun _ => carries_pure
  · exact h.unary
  · exact h.unary
  · exact h.grouped
  · exact h.conditional
  · exact h.function

theorem infixRule {kind : Kind} {rule : InfixRule}
    (hrule : Operators.standardInfixRule? kind = some rule) (left : Expr) :
    Carries lift more (rule grammar left) := by
  unfold Operators.standardInfixRule? at hrule
  split at hrule <;> cases hrule
  case h_9 => exact h.call left
  all_goals exact h.binary left

variable (strengths : Strengths)

/-- Neither the end of the input nor a closing brace extends an expression. -/
theorem extend (weakest : Precedence) (left : Expr) :
    Carries lift more ((Operators.dialect strengths).extend grammar weakest left) := by
  apply carries_peek_bind h.closing
  · intro closing hclosing
    rw [hclosing]
    show (if _ then pure none else pure none : Parser (Option Expr)) =
      if _ then pure none else pure none
    rw [ite_self, ite_self]
  · intro next
    split
    · exact carries_pure
    · split
      · exact carries_pure
      next rule hrule =>
        refine carries_advance.bind fun _ => ?_
        exact (h.infixRule hrule left).bind fun _ => carries_pure

theorem expressionIn (weakest : Precedence) :
    Carries lift more ((Operators.dialect strengths).expressionIn grammar weakest) := by
  refine carries_current.bind fun first => ?_
  split
  · exact carries_abort
  next rule hrule =>
    refine (h.prefixRule hrule).bind fun left => ?_
    exact carries_grow (Operators.progresses_extend strengths grammar weakest)
      (h.extend strengths weakest) left

end Grammar.CarriesOver

/-- In every dialect what is read without a fault is read the same inside more braces and in
front of a closing one. -/
theorem Operators.carriesOver (strengths : Strengths) {lift : Nat} {more : List Token}
    (hmore : ∃ closing rest, more = closing :: rest ∧ closing.kind = .closeBrace) :
    (dialect strengths).grammar.CarriesOver lift more := by
  have hcarries : Grammar.CarriesOver lift more
      ⟨(dialect strengths).expression, strengths.precedence⟩ := by
    apply expression_induction strengths
      (motive := fun reader => Grammar.CarriesOver lift more ⟨reader, strengths.precedence⟩)
      (fun weakest => Parser.abort (.noExpression .endOfInput))
    · exact ⟨hmore, fun _ => Parser.accounted_abort _, fun _ => Parser.carries_abort⟩
    · exact fun inner hinner =>
        ⟨hmore, accounted_expressionIn hinner.accounted strengths, hinner.expressionIn strengths⟩
    · intro reader hshallow
      refine ⟨hmore, ?_, ?_⟩
      · intro weakest c
        obtain ⟨shallow, hfine, hsame⟩ := hshallow (c.size + 1)
        show ((reader weakest).run c).Accounted
        rw [hsame weakest c (Nat.lt_succ_self _)]
        exact hfine.accounted weakest c
      · intro weakest c a r hc hyields hne
        -- Deep enough for both places: what follows the tokens here can be seen there.
        obtain ⟨shallow, hfine, hsame⟩ := hshallow (c.size + more.length + 1)
        have hembed : (c.embed lift more).size < c.size + more.length + 1 := by
          simp [Cursor.embed, Cursor.size]
        have hshallow := (Parser.yields_congr (hsame weakest c (by omega))).mp hyields
        exact (Parser.yields_congr (hsame weakest _ hembed)).mpr
          (hfine.expression weakest c a r hc hshallow hne)
  exact hcarries

end MonkeyFrontend
