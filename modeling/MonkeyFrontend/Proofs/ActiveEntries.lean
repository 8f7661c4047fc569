import MonkeyFrontend.Proofs.Refinement

/-!
# Active entries of the operator tables

Expressions are read with three operator tables. The table of beginnings is asked about the token
at which an expression starts. The strengths and the table of extensions are asked
about the token behind an expression, and together they say one thing: with which strength and
by which rule the token extends the expression, or that it does not (`Operators.extension?`).
The rule for binary operators asks for the strength of its operator again, but it is only run
where the operator was found to extend something.

So two sets of tables cannot be told apart on an input if they agree, about each kind of token in
it and about its end, on the rule of the beginning and on the extension
(`Operators.ActsAlike`). In particular, entries about a kind that does not occur have no
influence, and neither has half an operator: a rule without a strength or a strength without a rule
extends nothing, and no table but these two is changed by it.

The rules that are registered may be any routines, so they may look at the diagnostics or
change them. It does not come to that.

## Main results

* `Session.program_of_actsAlike` — a source is read alike with tables that act alike on it.
* `program_registerAll_of_absent_kind` — what is registered about a kind that does not occur has
  no influence.
* `program_of_incomplete_operator` — a rule alone and a strength alone have none anywhere.
-/

namespace MonkeyFrontend

/-! ## Tables that act alike on a source -/

/-- What a place shows is one of the tokens of the source, or the end of the input behind them. -/
theorem Cursor.kind_current_of_reaches {source : String} {r : Cursor}
    (h : (ofSource source).Reaches r) :
    ∃ token ∈ (Scanner.ofSource source).tokenize.1, r.current.kind = token.kind := by
  by_cases hnil : r.tokens = []
  · refine ⟨.endOfInput, List.mem_append_right _ List.mem_cons_self, ?_⟩
    rw [Cursor.current_of_tokens_eq_nil hnil]
  · have hmem := List.mem_of_mem_head? (Cursor.head?_of_tokens_ne_nil hnil)
    exact ⟨r.current, List.mem_append_left _ (h.tokens_subset hmem), rfl⟩

/-- A session at the start of a source reads it as any session does, if the tokens of the source
do in its tables what they do in the language. -/
theorem Session.program_of_actsAlike {session : Session} {source : String}
    {diagnostics? : Option Diagnostics}
    (hreader : session.reader = (start source diagnostics?).reader)
    (h : ∀ token ∈ (Scanner.ofSource source).tokenize.1,
      session.operators.ActsAlike .language token.kind) :
    session.program.1 = (parseInto diagnostics? source).1 ∧
      session.program.2.diagnostics = (parseInto diagnostics? source).2 := by
  have hshows : session.window.Shows (.ofSource source) := by
    unfold Session.window
    rw [hreader]
    exact Window.shows_ofSource source
  have hops : session.operators.ActsAlikeFrom .standard (.ofSource source) := by
    intro r hr
    obtain ⟨token, hmem, hkind⟩ := Cursor.kind_current_of_reaches hr
    rw [hkind]
    exact h token hmem
  have hdiagnostics : session.diagnostics = diagnostics?.getD .empty :=
    congrArg Reader.diagnostics hreader
  obtain ⟨hprogram, _, hrecorded⟩ := program_follows hshows hops
  rw [parseInto_eq, hprogram, hrecorded, hdiagnostics, Operators.dialect_standard]
  exact ⟨rfl, rfl⟩

namespace Operators

variable {m : Type → Type}

/-! ## Registrations -/

/-- Something that is registered about a kind. -/
inductive Registration (m : Type → Type) where
  /-- How tokens of the kind begin expressions. -/
  | prefixRule (rule : PrefixRule m)
  /-- How tokens of the kind extend expressions. -/
  | infixRule (rule : InfixRule m)
  /-- How strongly tokens of the kind bind, or that they do not. -/
  | precedence (precedence : Option Precedence)

/-- The tables with an entry about a kind registered. -/
def register (ops : Operators m) (kind : Kind) : Registration m → Operators m
  | .prefixRule rule => ops.setPrefixRule kind rule
  | .infixRule rule => ops.setInfixRule kind rule
  | .precedence precedence => ops.setPrecedence kind precedence

/-- What is registered about one kind is not seen at another. -/
theorem actsAlike_register {ops other : Operators m} {kind seen : Kind} (hne : seen ≠ kind)
    (h : ops.ActsAlike other seen) (registration : Registration m) :
    (ops.register kind registration).ActsAlike other seen := by
  have hbegin : (ops.register kind registration).prefixRule? seen = ops.prefixRule? seen := by
    cases registration <;> first | rfl | exact update_of_ne _ _ hne
  have hextend : (ops.register kind registration).infixRule? seen = ops.infixRule? seen := by
    cases registration <;> first | rfl | exact update_of_ne _ _ hne
  have hprecedence : (ops.register kind registration).precedence? seen = ops.precedence? seen := by
    cases registration <;> first | rfl | exact update_of_ne _ _ hne
  refine ⟨hbegin.trans h.prefixRule?, ?_⟩
  rw [← h.extension?]
  unfold extension? precedence
  rw [hprecedence, hextend]

/-! ## Half an operator -/

/-- A token of a kind extends nothing if the kind lacks a strength or a rule. -/
theorem extension?_eq_none {ops : Operators m} {kind : Kind}
    (h : ops.precedence? kind = none ∨ ops.infixRule? kind = none) :
    ops.extension? kind = none := by
  rcases h with hlevel | hrule
  · have hlowest : ops.precedence kind = .lowest := by
      unfold precedence
      rw [hlevel]
      rfl
    unfold extension?
    rw [hlowest, if_neg (Precedence.not_lt_lowest _)]
  · unfold extension?
    rw [hrule, Option.map_none, ite_self]

/-- A rule is not seen, at any kind, if it is given to a kind without a strength. -/
theorem actsAlike_setInfixRule {ops : Operators m} {kind : Kind} (h : ops.precedence? kind = none)
    (rule : InfixRule m) (seen : Kind) : (ops.setInfixRule kind rule).ActsAlike ops seen := by
  by_cases hseen : seen = kind
  · subst hseen
    refine ⟨rfl, ?_⟩
    have hgiven : (ops.setInfixRule seen rule).precedence? seen = none := h
    rw [extension?_eq_none (.inl hgiven), extension?_eq_none (.inl h)]
  · exact actsAlike_register hseen ⟨rfl, rfl⟩ (.infixRule rule)

/-- A strength is not seen, at any kind, if it is given to a kind without a rule. -/
theorem actsAlike_setPrecedence {ops : Operators m} {kind : Kind} (h : ops.infixRule? kind = none)
    (level : Option Precedence) (seen : Kind) :
    (ops.setPrecedence kind level).ActsAlike ops seen := by
  by_cases hseen : seen = kind
  · subst hseen
    refine ⟨rfl, ?_⟩
    have hgiven : (ops.setPrecedence seen level).infixRule? seen = none := h
    rw [extension?_eq_none (.inr hgiven), extension?_eq_none (.inr h)]
  · exact actsAlike_register hseen ⟨rfl, rfl⟩ (.precedence level)

end Operators

/-- A session with several entries about a kind registered, one after the other. -/
def Session.registerAll (session : Session) (kind : Kind)
    (registrations : List (Operators.Registration Routine)) : Session :=
  registrations.foldl
    (fun session registration => session.change fun ops => ops.register kind registration) session

/-- Registering changes the tables only, and not what tokens of other kinds do. -/
theorem Session.registerAll_actsAlike {session : Session} {kind seen : Kind}
    {other : Operators Routine} (hne : seen ≠ kind)
    (h : session.operators.ActsAlike other seen)
    (registrations : List (Operators.Registration Routine)) :
    (session.registerAll kind registrations).operators.ActsAlike other seen := by
  induction registrations generalizing session with
  | nil => exact h
  | cons registration rest ih => exact ih (Operators.actsAlike_register hne h registration)

theorem Session.reader_registerAll (session : Session) (kind : Kind)
    (registrations : List (Operators.Registration Routine)) :
    (session.registerAll kind registrations).reader = session.reader := by
  induction registrations generalizing session with
  | nil => rfl
  | cons registration rest ih => exact ih (session.change (·.register kind registration))

/-- What is registered about a kind before a source is read has no influence on its program and
its diagnostics, if no token of the source is of this kind. The end of the input is one of
the tokens. -/
theorem program_registerAll_of_absent_kind (diagnostics? : Option Diagnostics) {source : String}
    {kind : Kind} (habsent : ∀ token ∈ (Scanner.ofSource source).tokenize.1, token.kind ≠ kind)
    (registrations : List (Operators.Registration Routine)) :
    let session := (Session.start source diagnostics?).registerAll kind registrations
    session.program.1 = (parseInto diagnostics? source).1 ∧
      session.program.2.diagnostics = (parseInto diagnostics? source).2 := by
  intro session
  apply Session.program_of_actsAlike (Session.reader_registerAll _ kind registrations)
  exact fun token hmem =>
    Session.registerAll_actsAlike (habsent token hmem) ⟨rfl, rfl⟩ registrations

/-- The tokens of a sum are no bangs, so bangs may be made to fail there, to forget what was
recorded, or to bind most strongly. -/
theorem program_registerAll_of_absent_kind_bang :
    (∀ token ∈ (Scanner.ofSource "let x = 1 + 2; )").tokenize.1, token.kind ≠ .bang) ∧
      ((Session.start "let x = 1 + 2; )" none).registerAll .bang
          [.prefixRule fun _ => Reading.fail,
            .infixRule fun _ left => ⟨fun reader => (some left, { reader with diagnostics := .empty }),
              fun reader => .refl reader.window⟩,
            .precedence (some .call)]).program.1 = (parseInto none "let x = 1 + 2; )").1 := by
  have habsent : ∀ token ∈ (Scanner.ofSource "let x = 1 + 2; )").tokenize.1,
      token.kind ≠ .bang := by decide +kernel
  exact ⟨habsent, (program_registerAll_of_absent_kind none habsent _).1⟩

/-! ## Incomplete operators -/

/-- An infix operator needs a rule and a strength. For a kind of token that has neither in the
language, a rule alone, whatever it is, and a strength alone, however large, have no influence
on any program and its diagnostics, wherever such tokens stand in the source. -/
theorem program_of_incomplete_operator (diagnostics? : Option Diagnostics) (source : String)
    {kind : Kind} (hrule : (Operators.language (m := Routine)).infixRule? kind = none)
    (hlevel : (Operators.language (m := Routine)).precedence? kind = none) :
    (∀ rule : InfixRule Routine,
      let session := (Session.start source diagnostics?).change (·.setInfixRule kind rule)
      session.program.1 = (parseInto diagnostics? source).1 ∧
        session.program.2.diagnostics = (parseInto diagnostics? source).2) ∧
    ∀ level : Precedence,
      let session := (Session.start source diagnostics?).change (·.setPrecedence kind (some level))
      session.program.1 = (parseInto diagnostics? source).1 ∧
        session.program.2.diagnostics = (parseInto diagnostics? source).2 := by
  constructor
  · intro rule session
    exact Session.program_of_actsAlike rfl fun token _ =>
      Operators.actsAlike_setInfixRule hlevel rule token.kind
  · intro level session
    exact Session.program_of_actsAlike rfl fun token _ =>
      Operators.actsAlike_setPrecedence hrule (some level) token.kind

/-- Bangs begin expressions and extend none. A bang behind an expression still ends it
if bangs are given a rule to extend expressions, or the greatest strength. -/
theorem program_of_incomplete_operator_bang :
    (Operators.language (m := Routine)).infixRule? .bang = none ∧
      (Operators.language (m := Routine)).precedence? .bang = none ∧
      ((Session.start "a + !b ! c; -d!" none).change
          (·.setInfixRule .bang Grammar.binary)).program.1 = (parseInto none "a + !b ! c; -d!").1 ∧
      ((Session.start "a + !b ! c; -d!" none).change
          (·.setPrecedence .bang (some .call))).program.1 = (parseInto none "a + !b ! c; -d!").1 := by
  have hincomplete := @program_of_incomplete_operator none "a + !b ! c; -d!" .bang rfl rfl
  exact ⟨rfl, rfl, (hincomplete.1 Grammar.binary).1, (hincomplete.2 .call).1⟩

end MonkeyFrontend
