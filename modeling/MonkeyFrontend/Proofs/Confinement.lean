import MonkeyFrontend.Proofs.StatementEnd

/-!
# Runs inside a statement

Wherever a construct is read, it belongs to some statement, and reading it does not
pass the end of that statement, whether it can be read or not. What is more, it
cannot tell what lies behind the end. A run with these two properties is `Confined`
to the statement.

Confinement is kept by every sequence whose steps pass only tokens that are known
not to end the statement. So each lemma about a construct says where the construct
stops if it can be read: on a token that can be passed, after which the reader
is at the statement's brace depth again (`Cursor.Closes`). A block is where the
depth changes. The statements inside it have ends of their own, which lie before
the end of the statement around the block, because they come no later than the
closing brace.

## Main results

* `Parser.Confined.bind`, `Parser.confined_many`, `Parser.confined_grow` — sequences and
  loops of confined runs are confined.
* `Grammar.Confines.statement` — a statement is confined to itself, and if it is
  dropped the reader stands at its end.
* `Grammar.Confines.block` — blocks are confined to the statement around them.
* `Operators.confines` — so are expressions.
-/

namespace MonkeyFrontend

open Cursor

/-- The outcome of a run with `lift` more braces around it and other tokens
behind. -/
def Outcome.embed {α : Type} (lift : Nat) (more : List Token) (outcome : Outcome α) : Outcome α :=
  { outcome with rest := outcome.rest.embed lift more }

namespace Parser

variable {α β : Type} {home : Nat} {c : Cursor}

/-- From a place in a statement that began at depth `home` the parser does not pass
the end of the statement, and it cannot tell what lies behind it. The value and the
place of a run that succeeds are as `found` says. -/
structure Confined (home : Nat) (p : Parser α) (c : Cursor) (found : α → Cursor → Prop) :
    Prop where
  within : c.Within home (p.run c).rest
  found : ∀ a, (p.run c).value? = some a → found a (p.run c).rest
  echoes : ∀ {lift : Nat} {more : List Token}, c.Fenced lift home →
    p.run (c.embed lift more) = (p.run c).embed lift more

/-! ## Sequences -/

theorem Confined.pure {a : α} {found : α → Cursor → Prop} (h : found a c) :
    Confined home (pure a : Parser α) c found where
  within := .refl
  found := by
    rintro _ ⟨⟩
    exact h
  echoes _ := rfl

theorem confined_abort {fault : Fault} {found : α → Cursor → Prop} :
    Confined home (abort fault : Parser α) c found where
  within := .refl
  found := by
    intro _ hvalue
    cases hvalue
  echoes _ := rfl

/-- A sequence is confined if its second part is, from where the first one stops. -/
theorem Confined.bind {p : Parser α} {f : α → Parser β} {found : α → Cursor → Prop}
    {done : β → Cursor → Prop} (hp : Confined home p c found)
    (hf : ∀ a, (p.run c).value? = some a → found a (p.run c).rest →
      Confined home (f a) (p.run c).rest done) :
    Confined home (p >>= f) c done := by
  cases hvalue : (p.run c).value? with
  | none =>
      have hrun := run_bind_of_value?_eq_none (f := f) hvalue
      refine ⟨?_, ?_, fun hfence => ?_⟩
      · rw [hrun]
        exact hp.within
      · intro b hb
        rw [hrun] at hb
        cases hb
      · rw [run_bind, hp.echoes hfence, hrun]
        simp only [Outcome.andThen, Outcome.embed, hvalue]
  | some a =>
      have hnext := hf a hvalue (hp.found a hvalue)
      have hrun := run_bind_of_value?_eq_some (f := f) hvalue
      refine ⟨?_, ?_, fun hfence => ?_⟩
      · rw [hrun]
        exact hp.within.trans hnext.within
      · rw [hrun]
        exact hnext.found
      · rw [run_bind, hp.echoes hfence, hrun]
        simp only [Outcome.andThen, Outcome.embed, hvalue]
        rw [hnext.echoes (hfence.within hp.within)]
        rfl

/-- Parsers that run alike, whatever lies behind, are confined alike. -/
theorem Confined.of_run_eq {p q : Parser α} {found : α → Cursor → Prop}
    (h : Confined home q c found) (hrun : p.run c = q.run c)
    (hembed : ∀ {lift more}, c.Fenced lift home →
      p.run (c.embed lift more) = q.run (c.embed lift more)) : Confined home p c found where
  within := hrun ▸ h.within
  found := hrun ▸ h.found
  echoes hfence := by rw [hembed hfence, hrun, h.echoes hfence]

/-- What is confined to a statement of a block is confined to the statement around
the block, and stays in the block. -/
theorem Confined.outer {p : Parser α} {found : α → Cursor → Prop}
    (h : Confined (home + 1) p c found) (hinside : home < c.depth) :
    Confined home p c fun a r => found a r ∧ home < r.depth where
  within := (h.within.outer hinside).1
  found a hvalue := ⟨h.found a hvalue, (h.within.outer hinside).2⟩
  echoes hfence := h.echoes (hfence.inner hinside)

variable {found : β → Cursor → Prop}

theorem confined_current_bind {f : Token → Parser β} (h : Confined home (f c.current) c found) :
    Confined home (current >>= f) c found := by
  apply h.of_run_eq (run_current_bind f c)
  intro lift more hfence
  rw [run_current_bind, current_embed hfence.tokens_ne_nil]

theorem confined_peek_bind {f : Token → Parser β} (hopen : ¬ c.IsEnd home)
    (h : Confined home (f c.peek) c found) : Confined home (peek >>= f) c found := by
  apply h.of_run_eq (run_peek_bind f c)
  intro lift more hfence
  rw [run_peek_bind, hfence.peek_embed hopen]

/-- Passing a token that does not end the statement stays inside the statement. -/
theorem confined_advance_bind {f : Unit → Parser β} (hopen : ¬ c.IsEnd home)
    (h : Confined home (f ()) c.advance found) : Confined home (advance >>= f) c found where
  within := by
    rw [run_advance_bind]
    exact .step hopen h.within
  found := by
    rw [run_advance_bind]
    exact h.found
  echoes hfence := by
    rw [run_advance_bind, run_advance_bind, hfence.advance_embed hopen,
      h.echoes (hfence.advance hopen).1]

/-- At the end of the input there is nothing to pass. -/
theorem confined_advance_bind_of_nil {f : Unit → Parser β} (hnil : c.tokens = [])
    (h : Confined home (f ()) c found) : Confined home (advance >>= f) c found := by
  have hrun : (advance >>= f).run c = (f ()).run c := by
    rw [run_advance_bind, advance_of_tokens_eq_nil hnil]
  exact h.of_run_eq hrun fun hfence => absurd hnil hfence.tokens_ne_nil

theorem confined_abort_bind {fault : Fault} {f : α → Parser β} :
    Confined home (abort fault >>= f) c found := by
  have habort : Confined home (abort fault : Parser α) c fun _ _ => True := confined_abort
  exact habort.bind fun _ hvalue => by cases hvalue

theorem confined_expect_bind {kind : Kind} {f : Unit → Parser β} (hopen : ¬ c.IsEnd home)
    (h : c.peek.kind = kind → Confined home (f ()) c.advance found) :
    Confined home (expect kind >>= f) c found := by
  unfold expect Reading.expect
  rw [bind_assoc]
  apply confined_peek_bind hopen
  split
  next hkind => exact confined_advance_bind hopen (h hkind)
  next => exact confined_abort_bind

/-! ## Loops -/

theorem confined_many {item : Parser (Option α)} {keeps stops : Cursor → Prop}
    (hround : Progresses item)
    (hitem : ∀ c, keeps c → Confined home item c fun o r => if o.isSome then keeps r else stops r)
    (hc : keeps c) : Confined home (many item) c fun _ r => stops r := by
  induction hsize : c.size using Nat.strongRecOn generalizing c with
  | ind size ih =>
      rw [many_eq hround]
      apply (hitem c hc).bind
      intro o hvalue hfound
      cases o with
      | none => exact .pure hfound
      | some first =>
          have hshort := hround c first hvalue
          exact (ih _ (hsize ▸ hshort) hfound rfl).bind fun _ _ hstop => .pure hstop

theorem confined_many_of_keeps {item : Parser (Option α)} {keeps : Cursor → Prop}
    (hround : Progresses item) (hitem : ∀ c, keeps c → Confined home item c fun _ r => keeps r)
    (hc : keeps c) : Confined home (many item) c fun _ r => keeps r := by
  refine confined_many hround (fun c hc => ?_) hc
  simpa using hitem c hc

theorem confined_grow {step : α → Parser (Option α)} {keeps : Cursor → Prop}
    (hround : ∀ a, Progresses (step a))
    (hstep : ∀ a c, keeps c → Confined home (step a) c fun _ r => keeps r) {value : α}
    (hc : keeps c) : Confined home (grow step value) c fun _ r => keeps r := by
  induction hsize : c.size using Nat.strongRecOn generalizing c value with
  | ind size ih =>
      rw [grow_eq hround]
      apply (hstep value c hc).bind
      intro o hvalue hfound
      cases o with
      | none => exact .pure hfound
      | some grown =>
          have hshort := hround value c grown hvalue
          exact ih _ (hsize ▸ hshort) hfound rfl

end Parser

/-! ## Places that can be passed -/

/-- The kinds that neither end a statement nor change the brace depth. -/
def Kind.isPlain : Kind → Bool
  | .semicolon | .openBrace | .closeBrace | .endOfInput => false
  | _ => true

namespace Cursor

/-- The token here can be passed, and after it the reader is at brace depth `home`. -/
def Closes (home : Nat) (c : Cursor) : Prop :=
  ¬ c.IsEnd home ∧ c.advance.depth = home

/-- A statement that began at brace depth `home` has been read up to this place: the
place is at the statement's semicolon, or there is none. -/
def Finishes (home : Nat) (c : Cursor) : Prop :=
  c.Closes home ∧ c.peek.kind ≠ .semicolon ∨ c.depth = home ∧ c.current.kind = .semicolon

variable {home : Nat} {c : Cursor}

theorem tokens_ne_nil_of_isPlain (h : c.current.kind.isPlain = true) : c.tokens ≠ [] := by
  apply tokens_ne_nil_of_kind
  intro hend
  rw [hend] at h
  cases h

theorem closes_of_isPlain (hdepth : c.depth = home) (h : c.current.kind.isPlain = true) :
    c.Closes home := by
  constructor
  · rintro (hnil | ⟨_, hsemi | ⟨hclose, _⟩⟩)
    · exact tokens_ne_nil_of_isPlain h hnil
    · rw [hsemi] at h
      cases h
    · rw [hclose] at h
      cases h
  · rw [← hdepth]
    show depthAfter c.depth c.current = c.depth
    unfold depthAfter
    split
    next hkind => rw [hkind] at h; cases h
    next hkind => rw [hkind] at h; cases h
    next => rfl

/-- The brace that closes a block closes it for the statement around the block. -/
theorem closes_of_closeBrace (hdepth : c.depth = home + 1) (h : c.current.kind = .closeBrace) :
    c.Closes home := by
  constructor
  · apply not_isEnd_of_lt_depth
    · exact tokens_ne_nil_of_kind (by rw [h]; decide)
    · omega
  · show depthAfter c.depth c.current = home
    rw [depthAfter, h, hdepth]
    rfl

/-- An end that is neither the end of the input nor the brace around the statement is
the statement's semicolon. -/
theorem finishes_of_isEnd (hend : c.IsEnd home) (hne : c.tokens ≠ [])
    (hbrace : ¬ (c.current.kind = .closeBrace ∧ 0 < home)) : c.Finishes home := by
  obtain ⟨hdepth, hkind⟩ := hend.resolve_left hne
  exact .inr ⟨hdepth, hkind.resolve_right hbrace⟩

/-- After a statement the reader is at the statement's brace depth. -/
theorem Finishes.depth_advance (h : c.Finishes home) : c.advance.depth = home := by
  rcases h with ⟨⟨_, hnext⟩, _⟩ | ⟨hdepth, hsemi⟩
  · exact hnext
  · show depthAfter c.depth c.current = home
    rw [depthAfter, hsemi, hdepth]

/-- After a statement of a block its last token can be passed. -/
theorem Finishes.outer (h : c.Finishes (home + 1)) (hinside : home < c.depth) :
    ¬ c.IsEnd home ∧ c.advance.depth = home + 1 := by
  refine ⟨not_isEnd_of_lt_depth ?_ hinside, h.depth_advance⟩
  rcases h with ⟨⟨hopen, _⟩, _⟩ | ⟨_, hsemi⟩
  · exact tokens_ne_nil_of_not_isEnd hopen
  · exact tokens_ne_nil_of_kind (by rw [hsemi]; decide)

/-- After a place that can be passed, a plain token can be passed too. -/
theorem Closes.advance {kind : Kind} (hc : c.Closes home) (hkind : c.peek.kind = kind)
    (hplain : kind.isPlain = true) : c.advance.Closes home :=
  closes_of_isPlain hc.2 (hkind ▸ hplain)

end Cursor

/-! ## Constructs -/

/-- A grammar that reads expressions inside the statement that they belong to. -/
def Grammar.Confines (grammar : Grammar) : Prop :=
  ∀ weakest {home : Nat} {c : Cursor}, c.depth = home →
    Parser.Confined home (grammar.expression weakest) c fun _ r => r.Closes home

namespace Grammar.Confines

open MonkeyFrontend.Parser

variable {grammar : Grammar} (h : grammar.Confines) {home : Nat} {c : Cursor}
include h

/-! ### Statements -/

omit h in
theorem optionalSemicolon_bind {f : Unit → Parser Statement} (hc : c.Closes home)
    (hf : ∀ r : Cursor, r.Finishes home → Confined home (f ()) r fun _ r => r.Finishes home) :
    Confined home (optionalSemicolon >>= f) c fun _ r => r.Finishes home := by
  unfold optionalSemicolon
  rw [bind_assoc]
  apply confined_peek_bind hc.1
  split
  next hsemi => exact confined_advance_bind hc.1 (hf _ (.inr ⟨hc.2, hsemi⟩))
  next hsemi =>
    rw [pure_bind]
    exact hf _ (.inl ⟨hc, hsemi⟩)

theorem binding (hc : c.Closes home) :
    Confined home grammar.binding c fun _ r => r.Finishes home := by
  apply confined_current_bind
  refine confined_expect_bind hc.1 fun hname => ?_
  have hc₁ := hc.advance hname rfl
  apply confined_current_bind
  refine confined_expect_bind hc₁.1 fun hassign => ?_
  have hc₂ := hc₁.advance hassign rfl
  apply confined_advance_bind hc₂.1
  exact (h .lowest hc₂.2).bind fun _ _ hr => optionalSemicolon_bind hr fun _ hr' => .pure hr'

theorem result (hc : c.Closes home) :
    Confined home grammar.result c fun _ r => r.Finishes home := by
  apply confined_current_bind
  apply confined_advance_bind hc.1
  exact (h .lowest hc.2).bind fun _ _ hr => optionalSemicolon_bind hr fun _ hr' => .pure hr'

theorem expressionStatement (hc : c.depth = home) :
    Confined home grammar.expressionStatement c fun _ r => r.Finishes home := by
  apply confined_current_bind
  exact (h .lowest hc).bind fun _ _ hr => optionalSemicolon_bind hr fun _ hr' => .pure hr'

theorem statementFrom (hc : c.depth = home) :
    Confined home (grammar.statementFrom c.current.kind) c fun _ r => r.Finishes home := by
  generalize hkind : c.current.kind = kind
  unfold Grammar.statementFrom
  split
  · exact h.binding (closes_of_isPlain hc (by rw [hkind]; rfl))
  · exact h.result (closes_of_isPlain hc (by rw [hkind]; rfl))
  · exact h.expressionStatement hc

/-- Tokens behind its end change neither which form a statement has nor how it is read. -/
theorem statementFrom_embed {lift : Nat} (more : List Token) (hfence : c.Fenced lift c.depth) :
    (grammar.statementFrom (c.embed lift more).current.kind).run (c.embed lift more) =
      ((grammar.statementFrom c.current.kind).run c).embed lift more := by
  rw [current_embed hfence.tokens_ne_nil]
  exact (h.statementFrom rfl).echoes hfence

/-- A statement is confined to itself. If it is dropped, the reader stands at its end. -/
theorem statement (hc : c.depth = home) :
    Confined home grammar.statement c fun o r =>
      if o.isSome then r.Finishes home else r = c.skip home := by
  have hfrom := h.statementFrom hc
  subst hc
  cases hvalue : ((grammar.statementFrom c.current.kind).run c).value? with
  | none =>
      have hrun := run_statement_of_none hvalue
      refine ⟨?_, ?_, fun {lift more} hfence => ?_⟩
      · rw [hrun]
        exact hfrom.within.trans (within_skip _ _)
      · rw [hrun]
        rintro _ ⟨⟩
        exact hfrom.within.skip_eq
      · have hecho := h.statementFrom_embed more hfence
        rw [hrun, run_statement_of_none (by rw [hecho]; exact hvalue), hecho]
        exact congrArg (Outcome.mk _ _ _) (hfence.within hfrom.within).skip_embed
  | some statement =>
      have hrun := run_statement_of_some hvalue
      refine ⟨?_, ?_, fun {lift more} hfence => ?_⟩
      · rw [hrun]
        exact hfrom.within
      · rw [hrun]
        rintro _ ⟨⟩
        exact hfrom.found statement hvalue
      · have hecho := h.statementFrom_embed more hfence
        rw [hrun, run_statement_of_some (by rw [hecho]; exact hvalue), hecho]
        rfl

/-! ### Blocks -/

theorem blockItem (hc : c.depth = home + 1 ∨ c.tokens = []) :
    Confined home grammar.blockItem c fun o r =>
      if o.isSome then r.depth = home + 1 ∨ r.tokens = []
      else r.depth = home + 1 ∧ r.current.kind = .closeBrace ∨ r.current.kind = .endOfInput := by
  apply confined_current_bind
  split
  next hstop =>
    apply Confined.pure
    rcases hstop with hclose | hend
    · have hne := tokens_ne_nil_of_kind (show c.current.kind ≠ .endOfInput by rw [hclose]; decide)
      exact .inl ⟨hc.resolve_right hne, hclose⟩
    · exact .inr hend
  next hgo =>
    have hne := tokens_ne_nil_of_kind fun hend => hgo (.inr hend)
    have hdepth := hc.resolve_right hne
    apply ((h.statement hdepth).outer (by omega)).bind
    rintro o _ ⟨hfound, hinside⟩
    apply confined_current_bind
    generalize (grammar.statement.run c).rest = r at hfound hinside
    cases o with
    | some statement =>
        have hfinish : r.Finishes (home + 1) := hfound
        obtain ⟨hopen, hnext⟩ := hfinish.outer hinside
        rw [if_neg (by simp)]
        exact confined_advance_bind hopen (.pure (.inl hnext))
    | none =>
        have hend : r.IsEnd (home + 1) := by
          rw [show r = c.skip (home + 1) from hfound]
          exact isEnd_skip _ c
        split
        next hstay =>
          have hne := tokens_ne_nil_of_kind (show r.current.kind ≠ .endOfInput by
            rw [hstay.2]
            decide)
          exact .pure (.inl (hend.resolve_left hne).1)
        next hpass =>
          by_cases hnil : r.tokens = []
          · exact confined_advance_bind_of_nil hnil (.pure (.inr hnil))
          · have hfinish := finishes_of_isEnd hend hnil fun hclose => hpass ⟨rfl, hclose.1⟩
            obtain ⟨hopen, hnext⟩ := hfinish.outer hinside
            exact confined_advance_bind hopen (.pure (.inl hnext))

theorem block (hc : c.depth = home) (hkind : c.current.kind = .openBrace) :
    Confined home grammar.block c fun _ r => r.Closes home := by
  have hopen : ¬ c.IsEnd home := by
    rintro (hnil | ⟨_, hsemi | ⟨hclose, _⟩⟩)
    · rw [current_of_tokens_eq_nil hnil] at hkind
      cases hkind
    · exact absurd (hkind.symm.trans hsemi) (by decide)
    · exact absurd (hkind.symm.trans hclose) (by decide)
  have hinside : c.advance.depth = home + 1 := by
    show depthAfter c.depth c.current = home + 1
    rw [depthAfter, hkind, hc]
  apply confined_current_bind
  apply confined_advance_bind hopen
  apply (confined_many (progresses_blockItem grammar) (fun _ => h.blockItem) (.inl hinside)).bind
  intro found _ hstop
  apply confined_current_bind
  split
  · exact confined_abort
  next hend =>
    obtain ⟨hdepth, hclose⟩ := hstop.resolve_right hend
    exact .pure (closes_of_closeBrace hdepth hclose)

/-! ### Expressions -/

omit h in
theorem name (hc : c.Closes home) : Confined home grammar.name c fun _ r => r.Closes home :=
  confined_current_bind (.pure hc)

omit h in
theorem integer (hc : c.Closes home) :
    Confined home grammar.integer c fun _ r => r.Closes home := by
  apply confined_current_bind
  split
  · exact .pure hc
  · exact confined_abort

omit h in
theorem boolean (hc : c.Closes home) :
    Confined home grammar.boolean c fun _ r => r.Closes home :=
  confined_current_bind (.pure hc)

theorem unary (hc : c.Closes home) : Confined home grammar.unary c fun _ r => r.Closes home := by
  apply confined_current_bind
  apply confined_advance_bind hc.1
  exact (h .prefixed hc.2).bind fun _ _ hr => .pure hr

theorem binary (left : Expr) (hc : c.Closes home) :
    Confined home (grammar.binary left) c fun _ r => r.Closes home := by
  apply confined_current_bind
  apply confined_advance_bind hc.1
  exact (h _ hc.2).bind fun _ _ hr => .pure hr

theorem grouped (hc : c.Closes home) :
    Confined home grammar.grouped c fun _ r => r.Closes home := by
  apply confined_advance_bind hc.1
  refine (h .lowest hc.2).bind fun _ _ hr => ?_
  exact confined_expect_bind hr.1 fun hclose => .pure (hr.advance hclose rfl)

theorem alternative (hc : c.Closes home) :
    Confined home grammar.alternative c fun _ r => r.Closes home := by
  apply confined_peek_bind hc.1
  split
  next helse =>
    have hword := hc.advance helse rfl
    apply confined_advance_bind hc.1
    refine confined_expect_bind hword.1 fun hopen => ?_
    exact (h.block hword.2 hopen).bind fun _ _ hr => .pure hr
  next => exact .pure hc

theorem conditional (hc : c.Closes home) :
    Confined home grammar.conditional c fun _ r => r.Closes home := by
  apply confined_current_bind
  refine confined_expect_bind hc.1 fun hopen => ?_
  have hparen := hc.advance hopen rfl
  apply confined_advance_bind hparen.1
  refine (h .lowest hparen.2).bind fun _ _ hr => ?_
  refine confined_expect_bind hr.1 fun hclose => ?_
  have hend := hr.advance hclose rfl
  refine confined_expect_bind hend.1 fun hbrace => ?_
  refine (h.block hend.2 hbrace).bind fun _ _ hthen => ?_
  exact (h.alternative hthen).bind fun _ _ helse => .pure helse

omit h in
theorem parameter_bind {α : Type} {f : Name → Parser α} {found : α → Cursor → Prop}
    (hc : c.Closes home)
    (hf : ∀ name, ∀ r : Cursor, r.Closes home → Confined home (f name) r found) :
    Confined home (parameter >>= f) c found := by
  unfold parameter
  rw [bind_assoc]
  refine confined_expect_bind hc.1 fun hname => ?_
  rw [bind_assoc]
  apply confined_current_bind
  rw [pure_bind]
  exact hf _ _ (hc.advance hname rfl)

omit h in
theorem nextParameter (hc : c.Closes home) :
    Confined home nextParameter c fun _ r => r.Closes home := by
  apply confined_peek_bind hc.1
  split
  next hcomma =>
    apply confined_advance_bind hc.1
    exact parameter_bind (hc.advance hcomma rfl) fun _ _ hr => .pure hr
  next => exact .pure hc

omit h in
theorem parameters (hc : c.Closes home) :
    Confined home grammar.parameters c fun _ r => r.Closes home := by
  apply confined_peek_bind hc.1
  split
  next hclose => exact confined_advance_bind hc.1 (.pure (hc.advance hclose rfl))
  next =>
    refine parameter_bind hc fun _ r hr => ?_
    have hrounds := confined_many_of_keeps progresses_nextParameter (fun _ => nextParameter) hr
    refine hrounds.bind fun _ _ hr' => ?_
    exact confined_expect_bind hr'.1 fun hclose => .pure (hr'.advance hclose rfl)

theorem function (hc : c.Closes home) :
    Confined home grammar.function c fun _ r => r.Closes home := by
  apply confined_current_bind
  refine confined_expect_bind hc.1 fun hopen => ?_
  refine (parameters (hc.advance hopen rfl)).bind fun _ _ hr => ?_
  refine confined_expect_bind hr.1 fun hbrace => ?_
  exact (h.block hr.2 hbrace).bind fun _ _ hbody => .pure hbody

theorem nextArgument (hc : c.Closes home) :
    Confined home grammar.nextArgument c fun _ r => r.Closes home := by
  apply confined_peek_bind hc.1
  split
  next hcomma =>
    have hword := hc.advance hcomma rfl
    apply confined_advance_bind hc.1
    apply confined_advance_bind hword.1
    exact (h .lowest hword.2).bind fun _ _ hr => .pure hr
  next => exact .pure hc

theorem arguments (hc : c.Closes home) :
    Confined home grammar.arguments c fun _ r => r.Closes home := by
  apply confined_peek_bind hc.1
  split
  next hclose => exact confined_advance_bind hc.1 (.pure (hc.advance hclose rfl))
  next =>
    apply confined_advance_bind hc.1
    refine (h .lowest hc.2).bind fun _ _ hr => ?_
    have hrounds :=
      confined_many_of_keeps (progresses_nextArgument grammar) (fun _ => h.nextArgument) hr
    refine hrounds.bind fun _ _ hr' => ?_
    exact confined_expect_bind hr'.1 fun hclose => .pure (hr'.advance hclose rfl)

theorem call (callee : Expr) (hc : c.Closes home) :
    Confined home (grammar.call callee) c fun _ r => r.Closes home := by
  apply confined_current_bind
  exact (h.arguments hc).bind fun _ _ hr => .pure hr

theorem prefixRule {rule : PrefixRule} (hc : c.depth = home)
    (hrule : Operators.standardPrefixRule? c.current.kind = some rule) :
    Confined home (rule grammar) c fun _ r => r.Closes home := by
  generalize hkind : c.current.kind = kind at hrule
  have hplain : kind.isPlain = true → c.Closes home :=
    fun hplain => closes_of_isPlain hc (hkind ▸ hplain)
  unfold Operators.standardPrefixRule? at hrule
  split at hrule <;> cases hrule
  · exact name (hplain rfl)
  · exact integer (hplain rfl)
  · exact boolean (hplain rfl)
  · exact boolean (hplain rfl)
  · exact h.unary (hplain rfl)
  · exact h.unary (hplain rfl)
  · exact h.grouped (hplain rfl)
  · exact h.conditional (hplain rfl)
  · exact h.function (hplain rfl)

theorem infixRule {kind : Kind} {rule : InfixRule} (left : Expr) (hc : c.Closes home)
    (hkind : c.peek.kind = kind) (hrule : Operators.standardInfixRule? kind = some rule) :
    Confined home (rule grammar left) c.advance fun _ r => r.Closes home := by
  unfold Operators.standardInfixRule? at hrule
  split at hrule <;> cases hrule
  case h_9 => exact h.call left (hc.advance hkind rfl)
  all_goals exact h.binary left (hc.advance hkind rfl)

variable (strengths : Strengths)

theorem extend (weakest : Precedence) (left : Expr) (hc : c.Closes home) :
    Confined home ((Operators.dialect strengths).extend grammar weakest left) c
      fun _ r => r.Closes home := by
  apply confined_peek_bind hc.1
  split
  · exact .pure hc
  · split
    · exact .pure hc
    next rule hrule =>
      apply confined_advance_bind hc.1
      exact (h.infixRule left hc rfl hrule).bind fun _ _ hr => .pure hr

theorem expressionIn (weakest : Precedence) (hc : c.depth = home) :
    Confined home ((Operators.dialect strengths).expressionIn grammar weakest) c
      fun _ r => r.Closes home := by
  apply confined_current_bind
  split
  · exact confined_abort
  next rule hrule =>
    refine (h.prefixRule hc hrule).bind fun left _ hr => ?_
    exact confined_grow (Operators.progresses_extend strengths grammar weakest)
      (fun left _ => h.extend strengths weakest left) hr

end Grammar.Confines

/-- In every dialect expressions are read inside the statement that they belong to. -/
theorem Operators.confines (strengths : Strengths) : (dialect strengths).grammar.Confines := by
  have hconfines : Grammar.Confines ⟨(dialect strengths).expression, strengths.precedence⟩ := by
    apply expression_induction strengths
      (motive := fun reader => Grammar.Confines ⟨reader, strengths.precedence⟩)
      (fun weakest => Parser.abort (.noExpression .endOfInput))
    · exact fun _ _ _ _ => Parser.confined_abort
    · exact fun inner hinner weakest _ _ hc => hinner.expressionIn strengths weakest hc
    · intro reader hshallow weakest home c hc
      -- A parser that cannot be told from the reader here and behind more braces.
      have hlike : ∀ more, ∃ shallow : Parser Expr,
          Parser.Confined home shallow c (fun _ r => r.Closes home) ∧
            (reader weakest).run c = shallow.run c ∧
              ∀ lift,
                (reader weakest).run (c.embed lift more) = shallow.run (c.embed lift more) := by
        intro more
        obtain ⟨shallow, hfine, hsame⟩ := hshallow (c.size + more.length + 1)
        refine ⟨shallow weakest, hfine weakest hc, hsame weakest c (by omega), fun lift => ?_⟩
        apply hsame weakest (c.embed lift more)
        simp [Cursor.embed, Cursor.size]
      obtain ⟨shallow, hfine, hsame, _⟩ := hlike []
      refine ⟨?_, ?_, fun {lift more} hfence => ?_⟩
      · exact hsame ▸ hfine.within
      · exact hsame ▸ hfine.found
      · obtain ⟨shallow, hfine, hsame, hembed⟩ := hlike more
        show (reader weakest).run _ = ((reader weakest).run c).embed lift more
        rw [hembed lift, hsame, hfine.echoes hfence]
  exact hconfines

end MonkeyFrontend
