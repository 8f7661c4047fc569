import MonkeyFrontend.Proofs.Acceptance
import MonkeyFrontend.Proofs.Provenance
import MonkeyFrontend.Scanner

/-!
# Tokens of trees

A tree keeps the tokens of its nodes. Listed in the order in which a program writes them,
an operator behind its left operand and a callee in front of its arguments, they are a
part of the source: none of them is new, none comes twice, and none has changed places
(`ComesFrom.inOrder`). That is so whatever faults the source has, because what a broken
statement leaves behind is left out and not read again.

In a source without faults only punctuation is missing from the list. Every other
token has a node of its own, because every production of the grammar makes one for it
(`Derives.essential_listing`).

## Main results

* `ComesFrom.inOrder` — the tokens of a tree stand in its source in their order.
* `Derives.essential_listing` — a derived tree keeps all tokens but punctuation.
* `parse_listing` — both, for programs.
-/

namespace MonkeyFrontend

/-! ## Listings -/

mutual

/-- The tokens of an expression's nodes, in the order in which they are written. -/
def Expr.listing : Expr → List Token
  | .name n => [n.token]
  | .integer token _ => [token]
  | .boolean token _ => [token]
  | .unary token _ operand => token :: operand.listing
  | .binary token left _ right => left.listing ++ token :: right.listing
  | .conditional token condition consequence none =>
    token :: (condition.listing ++ consequence.listing)
  | .conditional token condition consequence (some alternative) =>
    token :: (condition.listing ++ (consequence.listing ++ alternative.listing))
  | .function token parameters body => token :: (parameters.map Name.token ++ body.listing)
  | .call token callee arguments => callee.listing ++ token :: Expr.listings arguments

/-- The tokens of several expressions. -/
def Expr.listings : List Expr → List Token
  | [] => []
  | first :: rest => first.listing ++ Expr.listings rest

/-- The tokens of a statement's nodes. The one that a statement keeps which is an expression
is a token of the expression, or a parenthesis in front of it, and is not listed. -/
def Statement.listing : Statement → List Token
  | .binding token name value => token :: name.token :: value.listing
  | .result token value => token :: value.listing
  | .expression _ value => value.listing
  | .block block => block.listing

/-- The tokens of several statements. -/
def Statement.listings : List Statement → List Token
  | [] => []
  | first :: rest => first.listing ++ Statement.listings rest

/-- The tokens of a block's nodes, and the brace that opens it. -/
def Block.listing : Block → List Token
  | ⟨token, statements⟩ => token :: Statement.listings statements

end

/-- The tokens of a program's nodes. -/
def Program.listing (program : Program) : List Token :=
  Statement.listings program.statements

/-! ## Order -/

namespace Cursor

/-- The given tokens stand between two places in their order, perhaps with others among
them. -/
def Lists (c : Cursor) (xs : List Token) (r : Cursor) : Prop :=
  (xs ++ r.tokens).Sublist c.tokens

variable {c m r : Cursor} {xs ys : List Token}

theorem Reaches.lists (h : c.Reaches r) : c.Lists [] r := by
  obtain ⟨count, rfl⟩ := h
  show (c.advanceBy count).tokens.Sublist c.tokens
  induction count generalizing c with
  | zero => exact .refl _
  | succ count ih =>
      have htail : c.advance.tokens.Sublist c.tokens := List.tail_sublist _
      exact (ih (c := c.advance)).trans htail

namespace Lists

theorem append (hxs : c.Lists xs m) (hys : m.Lists ys r) : c.Lists (xs ++ ys) r := by
  unfold Lists at *
  rw [List.append_assoc]
  exact (hys.append_left xs).trans hxs

/-- Tokens in front may be left out. -/
theorem after (h : c.Reaches m) (hxs : m.Lists xs r) : c.Lists xs r :=
  h.lists.append hxs

/-- Tokens behind may be left out. -/
theorem before (hxs : c.Lists xs m) (h : m.Reaches r) : c.Lists xs r := by
  have hwhole := hxs.append h.lists
  rwa [List.append_nil] at hwhole

/-- The current token may be listed in front of those behind it. -/
theorem current_cons (hkind : c.current.kind ≠ .endOfInput) (h : c.advance.Lists xs r) :
    c.Lists (c.current :: xs) r := by
  unfold Lists
  rw [tokens_of_head? (head?_of_kind_eq rfl hkind)]
  exact h.cons_cons _

theorem cons_kind {kind : Kind} (hkind : c.current.kind = kind) (hne : kind ≠ .endOfInput)
    (h : c.advance.Lists xs r) : c.Lists (c.current :: xs) r :=
  current_cons (hkind ▸ hne) h

end Lists

theorem reaches_pastSemicolon_advance (c : Cursor) :
    c.advance.Reaches c.pastSemicolon.advance := by
  unfold pastSemicolon
  split
  · exact reaches_advance _
  · exact .refl _

end Cursor

/-- The tokens of a fragment stand in the source in their order, from its first place on. -/
def Fragment.InOrder (c r : Cursor) : Fragment → Prop
  | .expression tree => c.Lists tree.listing r.advance
  | .names found | .moreNames found => c.advance.Lists (found.map Name.token) r.advance
  | .arguments trees | .moreArguments trees => c.advance.Lists (Expr.listings trees) r.advance
  | .statement tree => c.Lists tree.listing r.advance
  | .statements trees => c.Lists (Statement.listings trees) r
  | .block tree => c.Lists tree.listing r.advance

open Cursor in
/-- What comes from some tokens lists some of them, in their order. -/
theorem ComesFrom.inOrder {grammar : Grammar} {c r : Cursor} {fragment : Fragment}
    (h : ComesFrom grammar c fragment r) : fragment.InOrder c r := by
  have hstays : ∀ c : Cursor, c.Lists [] c := fun c => (Reaches.refl c).lists
  induction h with
  | @name c hkind => exact .cons_kind hkind (by decide) (hstays c.advance)
  | @integer c _ hkind _ => exact .cons_kind hkind (by decide) (hstays c.advance)
  | @boolean c hkind =>
      rcases hkind with hkind | hkind <;> exact .cons_kind hkind (by decide) (hstays c.advance)
  | unary hkind _ ih =>
      rcases hkind with hkind | hkind <;> exact .cons_kind hkind (by decide) ih
  | @binary _ m _ _ _ _ hbinary _ ihleft ihright =>
      have hne : m.peek.kind ≠ .endOfInput := by
        intro heq
        rw [heq] at hbinary
        cases hbinary
      have hoperator : m.advance.Lists (m.peek :: _) _ := .current_cons hne ihright
      exact ihleft.append hoperator
  | @grouped c m _ _ _ _ ih => exact .after (reaches_advance c) (.before ih (reaches_advance _))
  | conditional hkind _ _ _ _ ihcondition ihthen =>
      have hparts := ihcondition.append (.after (reaches_advance _) ihthen)
      exact .cons_kind hkind (by decide) (.after (reaches_advance _) hparts)
  | conditionalElse hkind _ _ _ _ _ _ ihcondition ihthen ihelse =>
      have hblocks := ihthen.append (.after (reaches_advance _) ihelse)
      have hparts := ihcondition.append (.after (reaches_advance _) hblocks)
      exact .cons_kind hkind (by decide) (.after (reaches_advance _) hparts)
  | function hkind _ _ ihnames ihbody =>
      have hparts := ihnames.append ihbody
      exact .cons_kind hkind (by decide) (.after (reaches_advance _) hparts)
  | @call _ m _ _ _ _ hcome ihcallee ihtrees =>
      have hopening : m.advance.Lists (m.peek :: _) _ :=
        .cons_kind hcome.openParen_of_arguments (by decide) ihtrees
      exact ihcallee.append hopening
  | @noNames c _ _ => exact (reaches_advance c.advance).lists
  | @names c _ _ _ hname _ _ ih =>
      have hfirst : c.advance.Lists (c.peek :: _) _ := .cons_kind hname (by decide) ih
      exact hfirst.before (reaches_advance _)
  | @noMoreNames c => exact hstays c.advance
  | @moreNames c _ _ _ hname _ ih =>
      have hfirst : c.advance.advance.Lists (c.advance.peek :: _) _ :=
        .cons_kind hname (by decide) ih
      exact hfirst.after (reaches_advance _)
  | @noArguments c _ _ => exact (reaches_advance c.advance).lists
  | arguments _ _ _ _ ihtree ihrest => exact (ihtree.append ihrest).before (reaches_advance _)
  | @noMoreArguments c => exact hstays c.advance
  | moreArguments _ _ _ ihtree ihrest => exact (ihtree.append ihrest).after (reaches_advance _)
  | binding _ hkind hname _ _ ih =>
      have hvalue := (ih.before (reaches_pastSemicolon_advance _)).after (reaches_advance _)
      exact .cons_kind hkind (by decide) (.cons_kind hname (by decide) hvalue)
  | result _ hkind _ ih =>
      exact .cons_kind hkind (by decide) (ih.before (reaches_pastSemicolon_advance _))
  | expression _ _ ih => exact ih.before (reaches_pastSemicolon_advance _)
  | @noStatements c => exact hstays c
  | kept _ _ ihtree ihrest => exact ihtree.append ihrest
  | dropped _ hreach _ ih => exact ih.after hreach
  | block hkind _ _ ih =>
      exact .cons_kind hkind (by decide) (ih.before (reaches_advance _))

/-! ## Punctuation -/

/-- Whether tokens of a kind only say how a program is put together. -/
def Kind.isPunctuation : Kind → Bool
  | .openParen | .closeParen | .openBrace | .closeBrace | .semicolon | .comma | .assign
  | .elseWord | .endOfInput => true
  | _ => false

/-- The tokens that are no punctuation. -/
def Token.essential (tokens : List Token) : List Token :=
  tokens.filter fun token => !token.kind.isPunctuation

namespace Token

variable {kind : Kind} {xs ys us vs : List Token}

theorem essential_append_congr (hfirst : essential xs = essential ys)
    (hsecond : essential us = essential vs) : essential (xs ++ us) = essential (ys ++ vs) := by
  unfold essential at *
  rw [List.filter_append, List.filter_append, hfirst, hsecond]

/-- Whatever token stands in front of both lists, both keep it or both lose it. -/
theorem essential_cons_congr (token : Token) (h : essential xs = essential ys) :
    essential (token :: xs) = essential (token :: ys) := by
  have hsame : essential [token] = essential [token] := rfl
  exact essential_append_congr hsame h

/-- Punctuation in front of the second list makes no difference. -/
theorem essential_cons_right {token : Token} (hkind : token.kind = kind)
    (hpunctuation : kind.isPunctuation = true) (h : essential xs = essential ys) :
    essential xs = essential (token :: ys) := by
  rw [h]
  apply (List.filter_cons_of_neg _).symm
  simp [hkind, hpunctuation]

/-- Punctuation behind the second list makes no difference. -/
theorem essential_concat_right {token : Token} (hkind : token.kind = kind)
    (hpunctuation : kind.isPunctuation = true) (h : essential xs = essential ys) :
    essential xs = essential (ys ++ [token]) := by
  have hnone : essential [] = essential [token] := essential_cons_right hkind hpunctuation rfl
  have hwhole := essential_append_congr h hnone
  rwa [List.append_nil] at hwhole

end Token

/-- The tokens of a phrase's nodes. -/
def Phrase.listing : Phrase → List Token
  | .expression _ tree => tree.listing
  | .arguments trees | .moreArguments trees => Expr.listings trees
  | .statement tree => tree.listing
  | .statements trees => Statement.listings trees
  | .block tree => tree.listing

open Token

theorem DerivesMoreNames.essential_tokens {names : List Name} {xs : List Token}
    (h : DerivesMoreNames names xs) : essential (names.map Name.token) = essential xs := by
  induction h with
  | nil => rfl
  | cons hcomma _ _ ih => exact essential_cons_right hcomma rfl (essential_cons_congr _ ih)

theorem DerivesNames.essential_tokens {names : List Name} {xs : List Token}
    (h : DerivesNames names xs) : essential (names.map Name.token) = essential xs := by
  cases h with
  | nil => rfl
  | cons _ hmore => exact essential_cons_congr _ hmore.essential_tokens

/-- A tree that is derived lists every token but punctuation. -/
theorem Derives.essential_listing {strengths : Strengths} {phrase : Phrase} {xs : List Token}
    (h : Derives strengths phrase xs) : essential phrase.listing = essential xs := by
  induction h with
  | binary _ _ _ ihleft ihright =>
      exact essential_append_congr ihleft (essential_cons_congr _ ihright)
  | stronger _ ih => exact ih
  | unary _ _ ih => exact essential_cons_congr _ ih
  | call _ hclose _ _ ihcallee ihtrees =>
      have htrees := essential_concat_right hclose rfl ihtrees
      exact essential_append_congr ihcallee (essential_cons_congr _ htrees)
  | name _ | integer _ _ | boolean _ => rfl
  | grouped hopen hclose _ ih =>
      exact essential_cons_right hopen rfl (essential_concat_right hclose rfl ih)
  | conditional _ hopen hclose _ _ ihcondition ihthen =>
      have hparts := essential_append_congr ihcondition (essential_cons_right hclose rfl ihthen)
      exact essential_cons_congr _ (essential_cons_right hopen rfl hparts)
  | conditionalElse _ hopen hclose hother _ _ _ ihcondition ihthen ihelse =>
      have hblocks := essential_append_congr ihthen (essential_cons_right hother rfl ihelse)
      have hparts := essential_append_congr ihcondition (essential_cons_right hclose rfl hblocks)
      exact essential_cons_congr _ (essential_cons_right hopen rfl hparts)
  | function _ hopen hclose hnames _ ih =>
      have hparts :=
        essential_append_congr hnames.essential_tokens (essential_cons_right hclose rfl ih)
      exact essential_cons_congr _ (essential_cons_right hopen rfl hparts)
  | noArguments | noMoreArguments | noStatements => rfl
  | arguments _ _ ihtree ihtrees => exact essential_append_congr ihtree ihtrees
  | moreArguments hcomma _ _ ihtree ihtrees =>
      exact essential_cons_right hcomma rfl (essential_append_congr ihtree ihtrees)
  | binding _ _ hassign _ ih =>
      have hvalue := essential_cons_right hassign rfl ih
      exact essential_cons_congr _ (essential_cons_congr _ hvalue)
  | result _ _ ih => exact essential_cons_congr _ ih
  | expression _ _ ih => exact ih
  | terminated hsemi _ _ ihtree ihtrees =>
      exact essential_append_congr ihtree (essential_cons_right hsemi rfl ihtrees)
  | unterminated _ _ _ ihtree ihtrees => exact essential_append_congr ihtree ihtrees
  | block _ hclose _ ih => exact essential_cons_congr _ (essential_concat_right hclose rfl ih)

/-! ## Programs -/

/-- What is read without a fault is derived to the tokens of the source. -/
theorem derives_of_messages_eq_nil {source : String} (h : (parse source).2.messages = []) :
    Derives .standard (.statements (parse source).1.statements) (Token.ofSource source) := by
  have hnumeric : (Cursor.ofSource source).Numeric :=
    fun _ hmem => Token.isNumeric_of_mem_ofSource hmem
  have hend : ∀ token ∈ (Cursor.ofSource source).tokens, token.kind ≠ .endOfInput :=
    fun _ hmem => Token.kind_ne_endOfInput_of_mem_ofSource hmem
  rw [parse_messages, List.map_eq_nil_iff, ← Operators.dialect_standard,
    Operators.faults_statements_eq_nil_iff] at h
  obtain ⟨trees, r, hrun⟩ := h
  have htrees : (parse source).1.statements = trees := by
    rw [parse_statements, ← Operators.dialect_standard, hrun.1]
    rfl
  rw [htrees]
  exact ((Operators.yields_statements_iff hnumeric hend).mp hrun).2

theorem listing_sublist (source : String) :
    (parse source).1.listing.Sublist (Token.ofSource source) := by
  obtain ⟨trees, finish, hvalue, hcome⟩ :=
    Operators.comesFrom_program .standard (Cursor.ofSource source)
  have hlists : (Cursor.ofSource source).Lists (Statement.listings trees) finish := hcome.inOrder
  have htrees : (parse source).1.statements = trees := by
    rw [parse_statements, ← Operators.dialect_standard, hvalue]
    rfl
  rw [Program.listing, htrees]
  exact (List.sublist_append_left _ _).trans hlists

/-- The tokens of a program's nodes stand in its source in their order. If nothing is
wrong with the source, then all of its tokens are listed but punctuation. -/
theorem parse_listing (source : String) :
    (parse source).1.listing.Sublist (Scanner.ofSource source).tokenize.1 ∧
      ((parse source).2.messages = [] →
        Token.essential (parse source).1.listing =
          Token.essential (Scanner.ofSource source).tokenize.1) := by
  have htokens :
      (Scanner.ofSource source).tokenize.1 = Token.ofSource source ++ [.endOfInput] := rfl
  rw [htokens]
  constructor
  · exact (listing_sublist source).trans (List.sublist_append_left _ _)
  · intro hclean
    have hlisting := (derives_of_messages_eq_nil hclean).essential_listing
    have hend : Token.endOfInput.kind = .endOfInput := rfl
    exact essential_concat_right hend rfl hlisting

/-- A function with two parameters and the other kinds of punctuation. -/
theorem parse_listing_of_a_function :
    let source := "let f = fn(x, y) \x7b if (x) \x7b -y; \x7d else \x7b (x) + 1 \x7d \x7d; f(1, 2)"
    (parse source).2.messages = [] ∧
      (parse source).1.listing.Sublist (Scanner.ofSource source).tokenize.1 ∧
      Token.essential (parse source).1.listing =
        Token.essential (Scanner.ofSource source).tokenize.1 := by
  intro source
  have hclean : (parse source).2.messages = [] := by decide +kernel
  obtain ⟨horder, hall⟩ := parse_listing source
  exact ⟨hclean, horder, hall hclean⟩

end MonkeyFrontend
