import MonkeyFrontend.Proofs.MaximalMunch
import MonkeyFrontend.Proofs.Provenance
import MonkeyFrontend.Proofs.Stratified
import MonkeyFrontend.Proofs.Refinement

/-!
# Nodes of trees

A node keeps its token and what was read off the token: the value of a name or of an
integer, the text of an operator. Trees can be built whose nodes disagree with
their tokens. In a tree that was read no node does (`parse_nodes`), whatever faults its
source has.

That has two halves. The reader makes a node at a place, from the token that stands there,
after it has looked at the kind of that token; so the kind is one of those that the node's
form allows, and the other fields follow from the text (`ComesFrom.makes`). And a token
of a source is a lexeme of its kind, so its text is one that its kind can have
(`Token.lexeme_of_mem_ofSource`).

## Main results

* `ComesFrom.makes` — nodes are made from the tokens at their places.
* `Node.Shaped.wellFormed` — a node that fits the kind of a lexeme fits its text.
* `parse_nodes` — the nodes of a program that was read are well formed.
-/

namespace MonkeyFrontend

/-! ## Nodes -/

/-- A node of a tree. -/
inductive Node where
  /-- A name that a binding or a function introduces. -/
  | name (name : Name)
  | expression (tree : Expr)
  | statement (tree : Statement)
  | block (tree : Block)

/-- The token that a node keeps. -/
def Node.token : Node → Token
  | .name n => n.token
  | .expression tree => tree.token
  | .statement tree => tree.token
  | .block tree => tree.token

mutual

/-- The nodes of an expression: its own and those of its parts. -/
def Expr.nodes : Expr → List Node
  | .name n => [.expression (.name n)]
  | .integer token value => [.expression (.integer token value)]
  | .boolean token value => [.expression (.boolean token value)]
  | .unary token operator operand =>
    .expression (.unary token operator operand) :: operand.nodes
  | .binary token left operator right =>
    .expression (.binary token left operator right) :: (left.nodes ++ right.nodes)
  | .conditional token condition consequence none =>
    .expression (.conditional token condition consequence none) ::
      (condition.nodes ++ consequence.nodes)
  | .conditional token condition consequence (some alternative) =>
    .expression (.conditional token condition consequence (some alternative)) ::
      (condition.nodes ++ (consequence.nodes ++ alternative.nodes))
  | .function token parameters body =>
    .expression (.function token parameters body) :: (parameters.map .name ++ body.nodes)
  | .call token callee arguments =>
    .expression (.call token callee arguments) :: (callee.nodes ++ Expr.nodesOfAll arguments)

/-- The nodes of several expressions. -/
def Expr.nodesOfAll : List Expr → List Node
  | [] => []
  | first :: rest => first.nodes ++ Expr.nodesOfAll rest

/-- The nodes of a statement: its own and those of its parts. -/
def Statement.nodes : Statement → List Node
  | .binding token name value => .statement (.binding token name value) :: .name name :: value.nodes
  | .result token value => .statement (.result token value) :: value.nodes
  | .expression token value => .statement (.expression token value) :: value.nodes
  | .block tree => .statement (.block tree) :: tree.nodes

/-- The nodes of several statements. -/
def Statement.nodesOfAll : List Statement → List Node
  | [] => []
  | first :: rest => first.nodes ++ Statement.nodesOfAll rest

/-- The nodes of a block: its own and those of its statements. -/
def Block.nodes : Block → List Node
  | ⟨token, statements⟩ => .block ⟨token, statements⟩ :: Statement.nodesOfAll statements

end

/-- The nodes of a program. -/
def Program.nodes (program : Program) : List Node :=
  Statement.nodesOfAll program.statements

/-! ## Where nodes are made -/

/-- The kind of a node's token is one that a node of its form can have, and what else the
node keeps was read off the token. -/
def Node.Shaped : Node → Prop
  | .name n | .expression (.name n) => n.token.kind = .name ∧ n.value = n.token.literal
  | .expression (.integer token value) =>
    token.kind = .number ∧ readInteger token.literal = .ok value
  | .expression (.boolean token value) =>
    (token.kind = .trueWord ∨ token.kind = .falseWord) ∧ value = (token.kind == .trueWord)
  | .expression (.unary token operator _) =>
    (token.kind = .bang ∨ token.kind = .minus) ∧ operator = token.literal
  | .expression (.binary token _ operator _) =>
    token.kind.isBinary = true ∧ operator = token.literal
  | .expression (.conditional token _ _ _) => token.kind = .ifWord
  | .expression (.function token _ _) => token.kind = .fnWord
  | .expression (.call token _ _) => token.kind = .openParen
  | .statement (.binding token _ _) => token.kind = .letWord
  | .statement (.result token _) => token.kind = .returnWord
  | .statement (.expression token _) => token.kind.beginsExpression = true
  | .statement (.block _) => False
  | .block tree => tree.token.kind = .openBrace

/-- The kinds that nodes can have are those of tokens that are written. -/
theorem Node.Shaped.legal {node : Node} (h : node.Shaped) :
    node.token.kind ≠ .endOfInput ∧ node.token.kind ≠ .illegal := by
  unfold Node.Shaped at h
  split at h <;> simp only [Node.token, Expr.token, Statement.token]
  all_goals (constructor <;> intro heq <;> simp [heq, Kind.isBinary, Kind.beginsExpression] at h)

/-- A node is made at a place from the token that stands there. A statement is what a call
for one gives there. -/
structure Node.MadeAt (grammar : Grammar) (p : Cursor) (node : Node) : Prop where
  shaped : node.Shaped
  token : node.token = p.current
  called : ∀ tree, node = .statement tree → grammar.called p = some tree

/-- The nodes are made at places that are reached from here. -/
def Cursor.Makes (grammar : Grammar) (c : Cursor) (nodes : List Node) : Prop :=
  ∀ node ∈ nodes, ∃ p, c.Reaches p ∧ node.MadeAt grammar p

namespace Cursor.Makes

variable {grammar : Grammar} {c m : Cursor} {nodes others : List Node}

theorem nil : c.Makes grammar [] := by
  intro node hmem
  cases hmem

theorem append (h : c.Makes grammar nodes) (hothers : c.Makes grammar others) :
    c.Makes grammar (nodes ++ others) := by
  intro node hmem
  rcases List.mem_append.mp hmem with hfirst | hsecond
  · exact h node hfirst
  · exact hothers node hsecond

theorem after (hreach : c.Reaches m) (h : m.Makes grammar nodes) : c.Makes grammar nodes := by
  intro node hmem
  obtain ⟨p, hp, hnode⟩ := h node hmem
  exact ⟨p, hreach.trans hp, hnode⟩

theorem cons {node : Node} (hnode : node.MadeAt grammar c) (h : c.Makes grammar nodes) :
    c.Makes grammar (node :: nodes) := by
  intro other hmem
  rcases List.mem_cons.mp hmem with rfl | hrest
  · exact ⟨c, .refl c, hnode⟩
  · exact h other hrest

/-- A name is made at a place. -/
theorem name (hkind : c.current.kind = .name) (h : c.Makes grammar nodes) :
    c.Makes grammar (.name ⟨c.current, c.current.literal⟩ :: nodes) :=
  cons ⟨⟨hkind, rfl⟩, rfl, by intro tree heq; cases heq⟩ h

/-- An expression is made at a place, with its parts. -/
theorem expression {tree : Expr} (hshaped : (Node.expression tree).Shaped)
    (htoken : tree.token = c.current) (h : c.Makes grammar nodes) :
    c.Makes grammar (.expression tree :: nodes) :=
  cons ⟨hshaped, htoken, by intro other heq; cases heq⟩ h

/-- A statement that is called for at a place is made there, with its parts. -/
theorem statement {tree : Statement} (hcalled : grammar.called c = some tree)
    (hshaped : (Node.statement tree).Shaped) (htoken : tree.token = c.current)
    (h : c.Makes grammar nodes) : c.Makes grammar (.statement tree :: nodes) :=
  cons ⟨hshaped, htoken, by rintro _ ⟨⟩; exact hcalled⟩ h

/-- A block is made at a place, with its statements. -/
theorem block {trees : List Statement} (hkind : c.current.kind = .openBrace)
    (h : c.Makes grammar nodes) : c.Makes grammar (.block ⟨c.current, trees⟩ :: nodes) :=
  cons ⟨hkind, rfl, by intro tree heq; cases heq⟩ h

end Cursor.Makes

/-- The nodes of a fragment. -/
def Fragment.nodes : Fragment → List Node
  | .expression tree => tree.nodes
  | .names found | .moreNames found => found.map .name
  | .arguments trees | .moreArguments trees => Expr.nodesOfAll trees
  | .statement tree => tree.nodes
  | .statements trees => Statement.nodesOfAll trees
  | .block tree => tree.nodes

open Cursor

/-- An expression comes from a place at which one can begin. -/
theorem ComesFrom.begins {grammar : Grammar} {c r : Cursor} {tree : Expr}
    (h : ComesFrom grammar c (.expression tree) r) : c.current.kind.beginsExpression = true := by
  generalize hfragment : Fragment.expression tree = fragment at h
  induction h generalizing tree with
  | name hkind | integer hkind _ | grouped hkind _ _ _ | conditional hkind _ _ _ _ _ _
  | conditionalElse hkind _ _ _ _ _ _ _ _ _ | function hkind _ _ _ _ =>
      rw [hkind]
      rfl
  | boolean hkind | unary hkind _ _ => rcases hkind with hkind | hkind <;> rw [hkind] <;> rfl
  | binary _ _ _ ihleft _ => exact ihleft rfl
  | call _ _ ihcallee _ => exact ihcallee rfl
  | _ => cases hfragment

/-- The nodes of what comes from some tokens are made there. -/
theorem ComesFrom.makes {grammar : Grammar} {c r : Cursor} {fragment : Fragment}
    (h : ComesFrom grammar c fragment r) : c.Makes grammar fragment.nodes := by
  induction h with
  | name hkind => exact .expression ⟨hkind, rfl⟩ rfl .nil
  | integer hkind hvalue => exact .expression ⟨hkind, hvalue⟩ rfl .nil
  | boolean hkind => exact .expression ⟨hkind, rfl⟩ rfl .nil
  | unary hkind _ ih =>
      exact .expression ⟨hkind, rfl⟩ rfl (.after (reaches_advance _) ih)
  | @binary c m r left right hleft hbinary hright ihleft ihright =>
      have hreach : c.Reaches m.advance := hleft.reaches.trans (reaches_advance m)
      have hnode : m.advance.Makes grammar [.expression (.binary m.peek left m.peek.literal right)] :=
        .expression ⟨hbinary, rfl⟩ rfl .nil
      have hright := ihright.after (hreach.trans (reaches_advance _))
      exact (hnode.after hreach).append (ihleft.append hright)
  | grouped _ _ _ ih => exact ih.after (reaches_advance _)
  | conditional hkind _ hcondition _ _ ihcondition ihthen =>
      have hreach := Reaches.trans ⟨2, rfl⟩ hcondition.reaches
      have hthen := ihthen.after (hreach.trans ⟨2, rfl⟩)
      exact .expression hkind rfl ((ihcondition.after ⟨2, rfl⟩).append hthen)
  | conditionalElse hkind _ hcondition _ hconsequence _ _ ihcondition ihthen ihelse =>
      have hreach := (Reaches.trans ⟨2, rfl⟩ hcondition.reaches).trans ⟨2, rfl⟩
      have hthen := ihthen.after hreach
      have helse := ihelse.after ((hreach.trans hconsequence.reaches).trans ⟨2, rfl⟩)
      exact .expression hkind rfl ((ihcondition.after ⟨2, rfl⟩).append (hthen.append helse))
  | function hkind hnames _ ihnames ihbody =>
      have hreach := (Reaches.trans ⟨1, rfl⟩ hnames.reaches).trans (reaches_advance _)
      have hbody := ihbody.after hreach
      exact .expression hkind rfl ((ihnames.after (reaches_advance _)).append hbody)
  | @call c m r callee trees hcallee hcome ihcallee ihtrees =>
      have hreach : c.Reaches m.advance := hcallee.reaches.trans (reaches_advance m)
      have hnode : m.advance.Makes grammar [.expression (.call m.peek callee trees)] :=
        .expression hcome.openParen_of_arguments rfl .nil
      exact (hnode.after hreach).append (ihcallee.append (ihtrees.after hreach))
  | noNames _ _ | noMoreNames | noArguments _ _ | noMoreArguments | noStatements => exact .nil
  | @names c m rest _ hname _ _ ih =>
      have hnames : c.advance.Makes grammar (.name ⟨c.peek, c.peek.literal⟩ :: rest.map .name) :=
        .name hname ih
      exact hnames.after (reaches_advance c)
  | @moreNames c r rest _ hname _ ih =>
      have hnames : c.advance.advance.Makes grammar
          (.name ⟨c.advance.peek, c.advance.peek.literal⟩ :: rest.map .name) := .name hname ih
      exact hnames.after ⟨2, rfl⟩
  | arguments _ htree _ _ ihtree ihrest =>
      have hreach := (reaches_advance _).trans htree.reaches
      exact (ihtree.after (reaches_advance _)).append (ihrest.after hreach)
  | moreArguments _ htree _ ihtree ihrest =>
      have hreach := Reaches.trans ⟨2, rfl⟩ htree.reaches
      exact (ihtree.after ⟨2, rfl⟩).append (ihrest.after hreach)
  | @binding c m value hcalled hkind hname _ _ ih =>
      have hparts : c.advance.Makes grammar (.name ⟨c.peek, c.peek.literal⟩ :: value.nodes) :=
        .name hname (ih.after ⟨2, rfl⟩)
      exact .statement hcalled hkind rfl (hparts.after (reaches_advance c))
  | result hcalled hkind _ ih =>
      exact .statement hcalled hkind rfl (ih.after (reaches_advance _))
  | expression hcalled hcome ih => exact .statement hcalled hcome.begins rfl ih
  | kept hcome _ ihtree ihrest =>
      exact ihtree.append (ihrest.after (hcome.reaches.trans (reaches_advance _)))
  | dropped _ hreach _ ih => exact ih.after hreach
  | block hkind _ _ ih => exact .block hkind (ih.after (reaches_advance _))

/-! ## Texts of tokens -/

/-- A kind that is written in one way has one lexeme. -/
theorem Lexeme.eq_spelling {kind : Kind} {literal text : String} (h : Lexeme kind literal.toList)
    (hspelling : kind.spelling? = some text) : literal = text := by
  have hliteral : kind.spelling? = some (String.ofList literal.toList) := by
    generalize literal.toList = cs at h
    cases h with
    | keyword hmem => exact Kind.spelling?_of_mem_keywords hmem
    | name _ _ _ => cases hspelling
    | whole _ _ => cases hspelling
    | fraction _ _ _ => cases hspelling
    | symbol _ hsymbol => exact hsymbol
  rw [hspelling, String.ofList_toList] at hliteral
  exact (Option.some.inj hliteral).symm

/-- The lexemes that are names. -/
theorem Lexeme.letters {word : List Char} (h : Lexeme .name word) :
    word ≠ [] ∧ (∀ c ∈ word, IsWordCharacter c) ∧
      ∀ entry ∈ Kind.keywords, entry.1 ≠ String.ofList word := by
  cases h with
  | keyword hmem => cases Kind.spelling?_of_mem_keywords hmem
  | name hne hletters hfree => exact ⟨hne, hletters, hfree⟩
  | symbol _ hspelling => cases hspelling

namespace Token

/-- The tokens of a source are lexemes of their kinds, if they are legal. -/
theorem lexeme_of_mem_ofSource {source : String} {token : Token} (hmem : token ∈ ofSource source)
    (hlegal : token.kind ≠ .illegal) : Lexeme token.kind token.literal.toList := by
  have hread : token.kind = .illegal ∨ Lexeme token.kind token.literal.toList := by
    refine forall_mem_list (motive := fun token =>
      token.kind = .illegal ∨ Lexeme token.kind token.literal.toList) ?_ _ token hmem
    intro c rest
    rcases lexeme_readFrom c rest with hlexeme | hillegal
    · exact .inr hlexeme
    · exact .inl (by rw [hillegal])
  exact hread.resolve_left hlegal

/-- A token of a source whose kind is written in one way is written that way. -/
theorem eq_of_kind {source : String} {token : Token} {kind : Kind} {text : String}
    (hmem : token ∈ ofSource source) (hkind : token.kind = kind)
    (hspelling : kind.spelling? = some text) : token = ⟨kind, text⟩ := by
  have hlegal : token.kind ≠ .illegal := by
    intro heq
    rw [← hkind, heq] at hspelling
    cases hspelling
  have hlexeme := lexeme_of_mem_ofSource hmem hlegal
  rw [hkind] at hlexeme
  have hliteral := hlexeme.eq_spelling hspelling
  rw [← hkind, ← hliteral]

end Token

/-! ## Well-formed nodes -/

theorem Kind.exists_spelling_of_isBinary {kind : Kind} (h : kind.isBinary = true) :
    ∃ text, kind.spelling? = some text := by
  cases kind <;> first | exact ⟨_, rfl⟩ | cases h

/-- A name is a row of letters that is no keyword, and has its token's text for its value. -/
structure Name.WellFormed (n : Name) : Prop where
  kind : n.token.kind = .name
  value_eq : n.value = n.token.literal
  nonempty : n.value ≠ ""
  letters : ∀ c ∈ n.value.toList, IsWordCharacter c
  free : ∀ entry ∈ Kind.keywords, entry.1 ≠ n.value

/-- A node agrees with its token, and the token is one that such a node can have. Block
statements occur in trees that are built by hand only. -/
def Node.WellFormed : Node → Prop
  | .name n | .expression (.name n) => n.WellFormed
  | .expression (.integer token value) =>
    token.kind = .number ∧ ∃ n : Nat, value = n ∧ NamesInteger token.literal n
  | .expression (.boolean token value) =>
    token = ⟨.trueWord, "true"⟩ ∧ value = true ∨ token = ⟨.falseWord, "false"⟩ ∧ value = false
  | .expression (.unary token operator _) =>
    (token = ⟨.bang, "!"⟩ ∨ token = ⟨.minus, "-"⟩) ∧ operator = token.literal
  | .expression (.binary token _ operator _) =>
    token.kind.isBinary = true ∧ operator = token.literal ∧ token.kind.spelling? = some operator
  | .expression (.conditional token _ _ _) => token = ⟨.ifWord, "if"⟩
  | .expression (.function token _ _) => token = ⟨.fnWord, "fn"⟩
  | .expression (.call token _ _) => token = ⟨.openParen, "("⟩
  | .statement (.binding token _ _) => token = ⟨.letWord, "let"⟩
  | .statement (.result token _) => token = ⟨.returnWord, "return"⟩
  | .statement (.expression token _) => token.kind.beginsExpression = true
  | .statement (.block _) => False
  | .block tree => tree.token = ⟨.openBrace, "\x7b"⟩

theorem Name.wellFormed_of_mem_ofSource {source : String} {n : Name}
    (hmem : n.token ∈ Token.ofSource source) (hkind : n.token.kind = .name)
    (hvalue : n.value = n.token.literal) : n.WellFormed := by
  have hlegal : n.token.kind ≠ .illegal := by
    rw [hkind]
    decide
  have hlexeme := Token.lexeme_of_mem_ofSource hmem hlegal
  rw [hkind, ← hvalue] at hlexeme
  obtain ⟨hne, hletters, hfree⟩ := hlexeme.letters
  rw [String.ofList_toList] at hfree
  refine ⟨hkind, hvalue, ?_, hletters, hfree⟩
  intro hempty
  rw [hempty] at hne
  exact hne rfl

/-- What fits the kind of a token of a source fits its text. -/
theorem Node.Shaped.wellFormed {source : String} {node : Node} (h : node.Shaped)
    (hmem : node.token ∈ Token.ofSource source) : node.WellFormed := by
  unfold Node.Shaped at h
  split at h
  · exact Name.wellFormed_of_mem_ofSource hmem h.1 h.2
  · exact Name.wellFormed_of_mem_ofSource hmem h.1 h.2
  · obtain ⟨hkind, hvalue⟩ := h
    have hnumeric := Token.isNumeric_of_mem_ofSource hmem hkind
    exact ⟨hkind, (readInteger_eq_ok_iff hnumeric).mp hvalue⟩
  · obtain ⟨hkind | hkind, hvalue⟩ := h
    · exact .inl ⟨Token.eq_of_kind hmem hkind rfl, by rw [hvalue, hkind]; rfl⟩
    · exact .inr ⟨Token.eq_of_kind hmem hkind rfl, by rw [hvalue, hkind]; rfl⟩
  · obtain ⟨hkind | hkind, hoperator⟩ := h
    · exact ⟨.inl (Token.eq_of_kind hmem hkind rfl), hoperator⟩
    · exact ⟨.inr (Token.eq_of_kind hmem hkind rfl), hoperator⟩
  next token left operator right =>
    obtain ⟨hbinary, hoperator⟩ := h
    obtain ⟨text, hspelling⟩ := Kind.exists_spelling_of_isBinary hbinary
    have htoken : token = ⟨token.kind, text⟩ := Token.eq_of_kind hmem rfl hspelling
    have hliteral : token.literal = text := congrArg Token.literal htoken
    refine ⟨hbinary, hoperator, ?_⟩
    rw [hspelling, hoperator, hliteral]
  · exact Token.eq_of_kind hmem h rfl
  · exact Token.eq_of_kind hmem h rfl
  · exact Token.eq_of_kind hmem h rfl
  · exact Token.eq_of_kind hmem h rfl
  · exact Token.eq_of_kind hmem h rfl
  · exact h
  · exact h
  · exact Token.eq_of_kind hmem h rfl

/-! ## Programs -/

theorem Statement.mem_nodes (tree : Statement) : .statement tree ∈ tree.nodes := by
  cases tree <;> exact List.mem_cons_self

/-- The nodes of a program that was read are made from the tokens of its source. -/
theorem exists_madeAt_of_mem_nodes {source : String} {node : Node}
    (hmem : node ∈ (parse source).1.nodes) :
    ∃ p, (Cursor.ofSource source).Reaches p ∧ node.MadeAt Operators.standard.grammar p := by
  obtain ⟨trees, finish, hvalue, hcome⟩ :=
    Operators.comesFrom_program .standard (Cursor.ofSource source)
  rw [Operators.dialect_standard] at hvalue hcome
  have htrees : (parse source).1.statements = trees := by
    rw [parse_statements, hvalue]
    rfl
  rw [Program.nodes, htrees] at hmem
  exact hcome.makes node hmem

theorem Node.MadeAt.head? {grammar : Grammar} {p : Cursor} {node : Node}
    (h : node.MadeAt grammar p) : p.tokens.head? = some node.token := by
  have hend : p.current.kind ≠ .endOfInput := h.token ▸ h.shaped.legal.1
  rw [h.token]
  exact head?_of_kind_eq rfl hend

/-- Every node of a program that was read agrees with its token. No token in the tree is
illegal, empty or the end of the input. A statement was read from the place where its token
stands. So a program has an empty literal if and only if it has no statements. -/
theorem parse_nodes (source : String) :
    (∀ node ∈ (parse source).1.nodes,
      node.WellFormed ∧ node.token.kind ≠ .endOfInput ∧ node.token.kind ≠ .illegal ∧
        node.token.literal ≠ "") ∧
    (∀ tree, .statement tree ∈ (parse source).1.nodes →
      ∃ p, (Cursor.ofSource source).Reaches p ∧
        Operators.standard.grammar.called p = some tree ∧
        p.tokens.head? = some tree.token) ∧
    ((parse source).1.literal = "" ↔ (parse source).1.statements = []) := by
  have hnodes : ∀ node ∈ (parse source).1.nodes,
      node.WellFormed ∧ node.token.kind ≠ .endOfInput ∧ node.token.kind ≠ .illegal ∧
        node.token.literal ≠ "" := by
    intro node hnode
    obtain ⟨p, hp, hmade⟩ := exists_madeAt_of_mem_nodes hnode
    obtain ⟨hend, hlegal⟩ := hmade.shaped.legal
    have hmem : node.token ∈ Token.ofSource source :=
      hp.tokens_subset (List.mem_of_mem_head? hmade.head?)
    have hliteral : node.token.literal ≠ "" := by
      intro hempty
      have hlexeme := Token.lexeme_of_mem_ofSource hmem hlegal
      rw [hempty] at hlexeme
      exact hlexeme.ne_nil rfl
    exact ⟨hmade.shaped.wellFormed hmem, hend, hlegal, hliteral⟩
  refine ⟨hnodes, ?_, ?_⟩
  · intro tree hmem
    obtain ⟨p, hp, hmade⟩ := exists_madeAt_of_mem_nodes hmem
    exact ⟨p, hp, hmade.called tree rfl, hmade.head?⟩
  · generalize (parse source).1 = program at hnodes
    obtain ⟨statements⟩ := program
    cases statements with
    | nil => exact ⟨fun _ => rfl, fun _ => rfl⟩
    | cons first rest =>
        have hfirst : Node.statement first ∈ Program.nodes ⟨first :: rest⟩ :=
          List.mem_append_left _ first.mem_nodes
        obtain ⟨_, _, _, hliteral⟩ := hnodes _ hfirst
        constructor
        · intro hempty
          exact absurd hempty hliteral
        · intro hnil
          cases hnil

end MonkeyFrontend
