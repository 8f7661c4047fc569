import MonkeyFrontend.Proofs.Climbing
import MonkeyFrontend.Proofs.Regrouping
import MonkeyFrontend.Proofs.Refinement

/-!
# The accepted sources

The plain grammar of the language has one nonterminal for expressions, without
strengths or layers, and an optional semicolon after each statement. It is
ambiguous twice over: it does not say how operators group, and it does not say where
a statement ends that has no semicolon. As a description of what is accepted it
is nevertheless exact. A source is read without a diagnostic if and only if its
tokens are derivable (`messages_eq_nil_iff_derivable`).

That the plain grammar derives what the stratified one does is plain. The
other way round the two ambiguities are resolved one after the other: rows of
operands are grouped by layers, and statements that the reader would take for one
are made one. Both are the subject of `MonkeyFrontend.Proofs.Regrouping`. The reader
is greedy and looks one token ahead, and still never commits itself to a reading
that fails where another one would have succeeded.

## Main results

* `derivable_of_derives`, `derives_of_derivable` — the plain grammar and the stratified
  one derive the same lists of tokens.
* `messages_eq_nil_iff_derivable` — the accepted sources are the derivable ones.
-/

namespace MonkeyFrontend

/-- The nonterminals of the plain grammar. -/
inductive Form where
  | expression
  /-- What stands between the parentheses of a call. -/
  | arguments
  /-- The arguments after the first one, each with its comma. -/
  | moreArguments
  /-- A statement up to its semicolon. -/
  | clause
  | statement
  | statements
  | block

/-- The plain grammar: the tokens that a nonterminal is derived to. -/
inductive Derivable : Form → List Token → Prop
  | name {token : Token} : token.kind = .name → Derivable .expression [token]
  | integer {token : Token} {value : Nat} :
    token.kind = .number → NamesInteger token.literal value → Derivable .expression [token]
  | boolean {token : Token} :
    token.kind = .trueWord ∨ token.kind = .falseWord → Derivable .expression [token]
  | unary {operator : Token} {xs : List Token} :
    operator.kind = .bang ∨ operator.kind = .minus → Derivable .expression xs →
      Derivable .expression (operator :: xs)
  | binary {operator : Token} {xs ys : List Token} :
    operator.kind.isBinary = true → Derivable .expression xs → Derivable .expression ys →
      Derivable .expression (xs ++ operator :: ys)
  | grouped {opening closing : Token} {xs : List Token} :
    opening.kind = .openParen → closing.kind = .closeParen → Derivable .expression xs →
      Derivable .expression (opening :: (xs ++ [closing]))
  | conditional {word opening closing : Token} {xs ys : List Token} :
    word.kind = .ifWord → opening.kind = .openParen → closing.kind = .closeParen →
    Derivable .expression xs → Derivable .block ys →
      Derivable .expression (word :: opening :: (xs ++ closing :: ys))
  | conditionalElse {word opening closing other : Token} {xs ys zs : List Token} :
    word.kind = .ifWord → opening.kind = .openParen → closing.kind = .closeParen →
    other.kind = .elseWord → Derivable .expression xs → Derivable .block ys →
    Derivable .block zs →
      Derivable .expression (word :: opening :: (xs ++ closing :: (ys ++ other :: zs)))
  | function {names : List Name} {word opening closing : Token} {xs ys : List Token} :
    word.kind = .fnWord → opening.kind = .openParen → closing.kind = .closeParen →
    DerivesNames names xs → Derivable .block ys →
      Derivable .expression (word :: opening :: (xs ++ closing :: ys))
  | call {opening closing : Token} {xs ys : List Token} :
    opening.kind = .openParen → closing.kind = .closeParen → Derivable .expression xs →
    Derivable .arguments ys → Derivable .expression (xs ++ opening :: (ys ++ [closing]))
  | noArguments : Derivable .arguments []
  | arguments {xs ys : List Token} :
    Derivable .expression xs → Derivable .moreArguments ys → Derivable .arguments (xs ++ ys)
  | noMoreArguments : Derivable .moreArguments []
  | moreArguments {comma : Token} {xs ys : List Token} :
    comma.kind = .comma → Derivable .expression xs → Derivable .moreArguments ys →
      Derivable .moreArguments (comma :: (xs ++ ys))
  | binding {word name assign : Token} {xs : List Token} :
    word.kind = .letWord → name.kind = .name → assign.kind = .assign →
    Derivable .expression xs → Derivable .clause (word :: name :: assign :: xs)
  | result {word : Token} {xs : List Token} :
    word.kind = .returnWord → Derivable .expression xs → Derivable .clause (word :: xs)
  | expression {xs : List Token} : Derivable .expression xs → Derivable .clause xs
  | bare {xs : List Token} : Derivable .clause xs → Derivable .statement xs
  | terminated {semicolon : Token} {xs : List Token} :
    semicolon.kind = .semicolon → Derivable .clause xs → Derivable .statement (xs ++ [semicolon])
  | noStatements : Derivable .statements []
  | moreStatements {xs ys : List Token} :
    Derivable .statement xs → Derivable .statements ys → Derivable .statements (xs ++ ys)
  | block {opening closing : Token} {xs : List Token} :
    opening.kind = .openBrace → closing.kind = .closeBrace → Derivable .statements xs →
      Derivable .block (opening :: (xs ++ [closing]))

variable {strengths : Strengths}

/-! ## The two grammars -/

/-- The nonterminal that a phrase of the stratified grammar belongs to. -/
def Phrase.form : Phrase → Form
  | .expression _ _ => .expression
  | .arguments _ => .arguments
  | .moreArguments _ => .moreArguments
  | .statement _ => .clause
  | .statements _ => .statements
  | .block _ => .block

/-- A stratified derivation is a plain one with trees and layers. -/
theorem derivable_of_derives {phrase : Phrase} {xs : List Token}
    (h : Derives strengths phrase xs) : Derivable phrase.form xs := by
  induction h with
  | binary hbinary _ _ ihleft ihright => exact .binary hbinary ihleft ihright
  | stronger _ ih => exact ih
  | unary hkind _ ih => exact .unary hkind ih
  | call hopen hclose _ _ ihcallee ihtrees => exact .call hopen hclose ihcallee ihtrees
  | name hkind => exact .name hkind
  | integer hkind hvalue => exact .integer hkind hvalue
  | boolean hkind => exact .boolean hkind
  | grouped hopen hclose _ ih => exact .grouped hopen hclose ih
  | conditional hword hopen hclose _ _ ihcondition ihthen =>
      exact .conditional hword hopen hclose ihcondition ihthen
  | conditionalElse hword hopen hclose hother _ _ _ ihcondition ihthen ihelse =>
      exact .conditionalElse hword hopen hclose hother ihcondition ihthen ihelse
  | function hword hopen hclose hnames _ ih => exact .function hword hopen hclose hnames ih
  | noArguments => exact .noArguments
  | arguments _ _ ihtree ihtrees => exact .arguments ihtree ihtrees
  | noMoreArguments => exact .noMoreArguments
  | moreArguments hcomma _ _ ihtree ihtrees => exact .moreArguments hcomma ihtree ihtrees
  | binding hword hname hassign _ ih => exact .binding hword hname hassign ih
  | result hword _ ih => exact .result hword ih
  | expression _ _ ih => exact .expression ih
  | noStatements => exact .noStatements
  | @terminated _ _ semicolon xs ys hsemi _ _ ihtree ihtrees =>
      have hwhole := Derivable.moreStatements (.terminated hsemi ihtree) ihtrees
      rwa [List.append_assoc] at hwhole
  | unterminated _ _ _ ihtree ihtrees => exact .moreStatements (.bare ihtree) ihtrees
  | block hopen hclose _ ih => exact .block hopen hclose ih

/-- What the stratified grammar has for a nonterminal of the plain one. -/
def Form.Derives (strengths : Strengths) : Form → List Token → Prop
  | .expression, xs => ∃ tree, MonkeyFrontend.Derives strengths (.expression .equals tree) xs
  | .arguments, xs => ∃ trees, MonkeyFrontend.Derives strengths (.arguments trees) xs
  | .moreArguments, xs => ∃ trees, MonkeyFrontend.Derives strengths (.moreArguments trees) xs
  | .clause, xs => ∃ tree, MonkeyFrontend.Derives strengths (.statement tree) xs
  | .statement, xs => ∀ {trees ys}, MonkeyFrontend.Derives strengths (.statements trees) ys →
    ∃ grown, MonkeyFrontend.Derives strengths (.statements grown) (xs ++ ys)
  | .statements, xs => ∃ trees, MonkeyFrontend.Derives strengths (.statements trees) xs
  | .block, xs => ∃ tree, MonkeyFrontend.Derives strengths (.block tree) xs

/-- A plain derivation can be regrouped to a stratified one. -/
theorem derives_of_derivable {form : Form} {xs : List Token} (h : Derivable form xs) :
    form.Derives strengths xs := by
  induction h with
  | name hkind => exact ⟨_, (Derives.name hkind).weaken (Precedence.le_call _)⟩
  | integer hkind hvalue => exact ⟨_, (Derives.integer hkind hvalue).weaken (Precedence.le_call _)⟩
  | boolean hkind => exact ⟨_, (Derives.boolean hkind).weaken (Precedence.le_call _)⟩
  | unary hkind _ ih =>
      obtain ⟨tree, hder⟩ := ih
      exact (hder.operands.signed hkind).derives
  | binary hbinary _ _ ihleft ihright =>
      obtain ⟨left, hleft⟩ := ihleft
      obtain ⟨right, hright⟩ := ihright
      exact (hleft.operands.append hbinary hright.operands).derives
  | grouped hopen hclose _ ih =>
      obtain ⟨tree, hder⟩ := ih
      exact ⟨_, (Derives.grouped hopen hclose hder).weaken (Precedence.le_call _)⟩
  | conditional hword hopen hclose _ _ ihcondition ihthen =>
      obtain ⟨condition, hcondition⟩ := ihcondition
      obtain ⟨consequence, hthen⟩ := ihthen
      exact ⟨_, (Derives.conditional hword hopen hclose hcondition hthen).weaken
        (Precedence.le_call _)⟩
  | conditionalElse hword hopen hclose hother _ _ _ ihcondition ihthen ihelse =>
      obtain ⟨condition, hcondition⟩ := ihcondition
      obtain ⟨consequence, hthen⟩ := ihthen
      obtain ⟨alternative, helse⟩ := ihelse
      exact ⟨_, (Derives.conditionalElse hword hopen hclose hother hcondition hthen helse).weaken
        (Precedence.le_call _)⟩
  | function hword hopen hclose hnames _ ih =>
      obtain ⟨body, hbody⟩ := ih
      exact ⟨_, (Derives.function hword hopen hclose hnames hbody).weaken (Precedence.le_call _)⟩
  | call hopen hclose _ _ ihcallee ihtrees =>
      obtain ⟨callee, hcallee⟩ := ihcallee
      obtain ⟨trees, htrees⟩ := ihtrees
      exact (hcallee.operands.called hopen hclose htrees).derives
  | noArguments => exact ⟨_, .noArguments⟩
  | arguments _ _ ihtree ihtrees =>
      obtain ⟨tree, htree⟩ := ihtree
      obtain ⟨trees, htrees⟩ := ihtrees
      exact ⟨_, .arguments htree htrees⟩
  | noMoreArguments => exact ⟨_, .noMoreArguments⟩
  | moreArguments hcomma _ _ ihtree ihtrees =>
      obtain ⟨tree, htree⟩ := ihtree
      obtain ⟨trees, htrees⟩ := ihtrees
      exact ⟨_, .moreArguments hcomma htree htrees⟩
  | binding hword hname hassign _ ih =>
      obtain ⟨tree, hder⟩ := ih
      exact ⟨_, .binding hword hname hassign hder⟩
  | result hword _ ih =>
      obtain ⟨tree, hder⟩ := ih
      exact ⟨_, .result hword hder⟩
  | expression _ ih =>
      obtain ⟨tree, hder⟩ := ih
      obtain ⟨first, rest, rfl, _⟩ := hder.head_of_expression
      exact ⟨_, .expression rfl hder⟩
  | bare _ ih =>
      obtain ⟨tree, hder⟩ := ih
      exact fun hrest => hder.prepend_statement hrest
  | terminated hsemi _ ih =>
      obtain ⟨tree, hder⟩ := ih
      intro trees ys hrest
      rw [List.append_assoc]
      exact ⟨_, .terminated hsemi hder hrest⟩
  | noStatements => exact ⟨_, .noStatements⟩
  | moreStatements _ _ ihfirst ihrest =>
      obtain ⟨trees, hrest⟩ := ihrest
      exact ihfirst hrest
  | block hopen hclose _ ih =>
      obtain ⟨trees, hder⟩ := ih
      exact ⟨_, .block hopen hclose hder⟩

/-! ## Reading a whole source -/

open MonkeyFrontend.Parser Cursor in
/-- The reader of programs reads cleanly the statements that the dialect's grammar
derives. -/
theorem Operators.yields_statements_iff {c r : Cursor} (hc : c.Numeric)
    (hend : ∀ token ∈ c.tokens, token.kind ≠ .endOfInput) {trees : List Statement} :
    (dialect strengths).grammar.statements.Yields c trees r ↔
      c.Passes c.tokens r ∧ Derives strengths (.statements trees) c.tokens := by
  constructor
  · intro hrun
    obtain ⟨hchain, hlast⟩ :=
      Grammar.chain_of_yields_statements (accounted_expression strengths) hrun
    obtain ⟨xs, hpass, hder⟩ := (soundFor strengths).chain hchain hc
    have htokens := hpass.tokens
    have hnil : r.tokens = [] := by
      apply tokens_eq_nil_of_kind ?_ hlast
      intro token hmem
      exact hend token (htokens ▸ List.mem_append_right xs hmem)
    rw [hnil, List.append_nil] at htokens
    rw [htokens]
    exact ⟨hpass, hder⟩
  · rintro ⟨hpass, hder⟩
    have hnil : r.tokens = [] := by
      have htokens := hpass.tokens
      exact List.self_eq_append_right.mp htokens
    have hlast : r.current.kind = .endOfInput := by
      rw [current_of_tokens_eq_nil hnil]
      rfl
    exact Grammar.yields_statements_of_chain beginsInside
      (reads_of_derives hder hpass (.inr hlast)) hlast

/-- Without a fault a program is read, so the run was clean. -/
theorem Operators.faults_statements_eq_nil_iff {c : Cursor} :
    ((dialect strengths).grammar.statements.run c).faults = [] ↔
      ∃ trees r, (dialect strengths).grammar.statements.Yields c trees r := by
  constructor
  · intro hfaults
    cases hvalue : ((dialect strengths).grammar.statements.run c).value? with
    | none => exact absurd hfaults ((accounted_statements strengths).faults_ne_nil hvalue)
    | some trees => exact ⟨trees, _, hvalue, hfaults, rfl⟩
  · rintro ⟨trees, r, _, hfaults, _⟩
    exact hfaults

/-- The accepted sources are those whose tokens the plain grammar derives as a row of
statements. -/
theorem messages_eq_nil_iff_derivable (source : String) :
    (parse source).2.messages = [] ↔ Derivable .statements (Token.ofSource source) := by
  have hnumeric : (Cursor.ofSource source).Numeric :=
    fun _ hmem => Token.isNumeric_of_mem_ofSource hmem
  have hend : ∀ token ∈ (Cursor.ofSource source).tokens, token.kind ≠ .endOfInput :=
    fun _ hmem => Token.kind_ne_endOfInput_of_mem_ofSource hmem
  rw [parse_messages, List.map_eq_nil_iff, ← Operators.dialect_standard,
    Operators.faults_statements_eq_nil_iff]
  constructor
  · rintro ⟨trees, r, hrun⟩
    exact derivable_of_derives ((Operators.yields_statements_iff hnumeric hend).mp hrun).2
  · intro hder
    have hform : Form.statements.Derives .standard (Token.ofSource source) :=
      derives_of_derivable hder
    obtain ⟨trees, htrees⟩ := hform
    exact ⟨trees, _, (Operators.yields_statements_iff hnumeric hend).mpr
      ⟨Cursor.passes_advanceBy List.prefix_rfl, htrees⟩⟩

end MonkeyFrontend
