import MonkeyFrontend.Proofs.Acceptance
import MonkeyFrontend.Proofs.SingleToken
import MonkeyFrontend.Tree.Render

/-!
# Rendering and reading back

The rendering of a tree is not always a text that is read as that tree: blocks are
written without their braces, and a statement that is an expression has no semicolon. On
the trees without these, rendering loses nothing. The parentheses around each operation
make up for the strengths of the operators, and leave no trace in the tree that is read.

The proof has two halves, and `Expr.Legible` is where they meet. The text of an
expression is read as a row of tokens, wherever it stands in a rendering, and the grammar
derives the expression to these tokens. It does so on the innermost layer, so it does not
matter what the expression is an operand of.

## Main results

* `Expr.Plain.legible` — plain expressions are rendered legibly.
* `parse_render` — plain programs are read back from their renderings.
-/

namespace MonkeyFrontend

variable {strengths : Strengths}

/-! ## Plain trees -/

/-- The expressions that have neither blocks nor parts that do not agree with their tokens:
names, integers and truth values as they can be written, and operations and calls that are
made of them. -/
inductive Expr.Plain : Expr → Prop
  | name {word : String} : Lexeme .name word.toList → Plain (.name ⟨⟨.name, word⟩, word⟩)
  | integer {literal : String} {value : Nat} :
    NamesInteger literal value → Plain (.integer ⟨.number, literal⟩ value)
  | truth : Plain (.boolean ⟨.trueWord, "true"⟩ true)
  | falsehood : Plain (.boolean ⟨.falseWord, "false"⟩ false)
  | unary {kind : Kind} {text : String} {operand : Expr} :
    kind = .bang ∨ kind = .minus → kind.spelling? = some text → Plain operand →
      Plain (.unary ⟨kind, text⟩ text operand)
  | binary {kind : Kind} {text : String} {left right : Expr} :
    kind.isBinary = true → kind.spelling? = some text → Plain left → Plain right →
      Plain (.binary ⟨kind, text⟩ left text right)
  | call {callee : Expr} {arguments : List Expr} :
    Plain callee → (∀ argument ∈ arguments, Plain argument) →
      Plain (.call ⟨.openParen, "("⟩ callee arguments)

/-- The statements that end with a semicolon when they are rendered, with plain values. -/
inductive Statement.Plain : Statement → Prop
  | binding {word : String} {value : Expr} :
    Lexeme .name word.toList → value.Plain →
      Plain (.binding ⟨.letWord, "let"⟩ ⟨⟨.name, word⟩, word⟩ value)
  | result {value : Expr} : value.Plain → Plain (.result ⟨.returnWord, "return"⟩ value)

/-- Statements, and possibly an expression that stands alone behind them, with the token of
its statement. -/
def Program.closedBy (front : List Statement) (closing : Option Expr) (token : Token) : Program :=
  ⟨front ++ closing.toList.map (.expression token)⟩

/-! ## Tokens of a rendering -/

/-- Two kinds of lexemes begin with an equals sign. -/
theorem Lexeme.kind_of_equals {kind : Kind} {tail : List Char} (h : Lexeme kind ('=' :: tail)) :
    kind = .assign ∨ kind = .equal := by
  have hread : Token.readFrom '=' (tail ++ []) = _ :=
    h.readFrom_append fun next hnext => by cases hnext
  rw [List.append_nil] at hread
  have hkind : (Token.readFrom '=' tail).1.kind = kind := by rw [hread]
  by_cases hpair : ('=' = '=' ∨ '=' = '!') ∧ tail.head? = some '='
  · obtain ⟨more, rfl⟩ := List.head?_eq_some_iff.mp hpair.2
    exact .inr hkind.symm
  · rw [Token.readFrom_of_ofSymbol? rfl hpair] at hkind
    exact .inl hkind.symm

/-- What follows goes on with no lexeme. -/
def Stops (rest : List Char) : Prop :=
  ∀ next, rest.head? = some next → ∀ kind : Kind, ¬ kind.GoesOn next

theorem stops_nil : Stops [] := fun next hnext => by cases hnext

/-- Delimiters and blanks go on with no lexeme. -/
theorem stops_cons {c : Char} (hc : c ∈ [')', ',', ';', '(', ' ']) (rest : List Char) :
    Stops (c :: rest) := by
  have hnone : ¬ IsWordCharacter c ∧ ¬ IsNumberCharacter c ∧ c ≠ '.' ∧ c ≠ '=' := by
    rw [← isLetter_eq_true_iff, ← isDigit_eq_true_iff]
    revert c
    simp [isLetter, isDigit]
  obtain ⟨hword, hnumber, hpoint, hequal⟩ := hnone
  intro next hnext kind
  obtain rfl : c = next := Option.some.inj hnext
  cases kind <;> simp [Kind.GoesOn, hword, hnumber, hpoint, hequal]

/-! ### Delimiters and blanks -/

theorem list_blank (rest : List Char) : Token.list (' ' :: rest) = Token.list rest := by
  have hblank : [' '].dropWhile isBlank = [] := rfl
  exact Token.list_append_of_blank hblank

/-- A lexeme in front of a blank is the first token. -/
theorem Lexeme.list_blank {kind : Kind} {text : String} (h : Lexeme kind text.toList)
    (rest : List Char) :
    Token.list (text.toList ++ ' ' :: rest) = ⟨kind, text⟩ :: Token.list rest := by
  rw [h.list_append fun next hnext => stops_cons (by decide) rest next hnext kind,
    MonkeyFrontend.list_blank]

/-- A delimiter at the front of a text is its first token, whatever follows. -/
theorem list_delimiter (c : Char) (token : Token)
    (hspelling : token.kind.spelling? = some token.literal) (htext : token.literal.toList = [c])
    (hfamily : token.kind.category = .delimiter) (rest : List Char) :
    Token.list (c :: rest) = token :: Token.list rest := by
  have hends : ∀ next, ¬ token.kind.GoesOn next := by
    intro next
    cases hkind : token.kind <;> rw [hkind] at hfamily <;> first | exact id | cases hfamily
  have hlexeme := lexeme_of_spelling hspelling
  have hlist := hlexeme.list_append fun next (_ : rest.head? = some next) => hends next
  rwa [htext] at hlist

/-! ## Expressions -/

/-- The rendering of an expression is read as these tokens, and the expression is derived
to them. It does not begin with the character that would make two operators one. -/
structure Expr.Legible (strengths : Strengths) (e : Expr) (xs : List Token) : Prop where
  reads : ∀ rest, Stops rest → Token.list (e.render.toList ++ rest) = xs ++ Token.list rest
  derives : Derives strengths (.expression .call e) xs
  starts : ∀ rest, (e.render.toList ++ rest).head? ≠ some '='

/-- What is rendered as a single lexeme is legible. -/
theorem Expr.legible_of_lexeme {e : Expr} {kind : Kind} (h : Lexeme kind e.render.toList)
    (hkind : kind ≠ .assign ∧ kind ≠ .equal)
    (hderives : Derives strengths (.expression .call e) [⟨kind, e.render⟩]) :
    e.Legible strengths [⟨kind, e.render⟩] where
  reads rest hrest := h.list_append fun next hnext => hrest next hnext kind
  derives := hderives
  starts rest hstart := by
    obtain ⟨c, tail, htext⟩ := List.exists_cons_of_ne_nil h.ne_nil
    rw [htext] at h hstart
    obtain rfl : c = '=' := Option.some.inj hstart
    rcases h.kind_of_equals with hassign | hequal
    · exact hkind.1 hassign
    · exact hkind.2 hequal

namespace Expr.Legible

variable {e left right : Expr} {xs ys : List Token}

theorem unary {kind : Kind} {text : String} (hkind : kind = .bang ∨ kind = .minus)
    (hspelling : kind.spelling? = some text) (h : e.Legible strengths xs) :
    (Expr.unary ⟨kind, text⟩ text e).Legible strengths
      (⟨.openParen, "("⟩ :: (⟨kind, text⟩ :: xs ++ [⟨.closeParen, ")"⟩])) where
  reads rest hrest := by
    have hrender : (Expr.unary ⟨kind, text⟩ text e).render.toList ++ rest =
        '(' :: (text.toList ++ (e.render.toList ++ ')' :: rest)) := by
      simp [Expr.render, String.toList_append]
    have hoperator : Token.list (text.toList ++ (e.render.toList ++ ')' :: rest)) =
        ⟨kind, text⟩ :: Token.list (e.render.toList ++ ')' :: rest) := by
      have hfamily : kind.category = .operator := by rcases hkind with rfl | rfl <;> rfl
      apply (lexeme_of_spelling hspelling).list_append
      -- No blank stands between the two, but the operand does not begin as a bang goes on.
      rintro next hnext hgoes
      rcases hkind with rfl | rfl
      · have hequal : next = '=' := hgoes
        rw [hequal] at hnext
        exact h.starts _ hnext
      · exact hgoes
    have hoperand := h.reads (')' :: rest) (stops_cons (by decide) rest)
    rw [hrender, list_delimiter '(' ⟨.openParen, "("⟩ rfl rfl rfl, hoperator, hoperand,
      list_delimiter ')' ⟨.closeParen, ")"⟩ rfl rfl rfl]
    simp
  derives := by
    have hoperand : Derives strengths (.expression .prefixed e) xs :=
      h.derives.weaken (Precedence.le_call _)
    have hoperation : Derives strengths (.expression .prefixed (.unary ⟨kind, text⟩ text e))
        (⟨kind, text⟩ :: xs) := .unary hkind hoperand
    exact .grouped rfl rfl (hoperation.weaken (by decide))
  starts rest := by
    simp [Expr.render, String.toList_append]

theorem binary {kind : Kind} {text : String} (hkind : kind.isBinary = true)
    (hspelling : kind.spelling? = some text) (hleft : left.Legible strengths xs)
    (hright : right.Legible strengths ys) :
    (Expr.binary ⟨kind, text⟩ left text right).Legible strengths
      (⟨.openParen, "("⟩ :: (xs ++ ⟨kind, text⟩ :: ys ++ [⟨.closeParen, ")"⟩])) where
  reads rest hrest := by
    have hrender : (Expr.binary ⟨kind, text⟩ left text right).render.toList ++ rest =
        '(' :: (left.render.toList ++
          ' ' :: (text.toList ++ ' ' :: (right.render.toList ++ ')' :: rest))) := by
      simp [Expr.render, String.toList_append]
    have hfamily : kind.category = .operator := by
      cases kind <;> first | rfl | cases hkind
    have hoperator := lexeme_of_spelling hspelling
    rw [hrender, list_delimiter '(' ⟨.openParen, "("⟩ rfl rfl rfl,
      hleft.reads _ (stops_cons (by decide) _), list_blank, hoperator.list_blank,
      hright.reads _ (stops_cons (by decide) rest),
      list_delimiter ')' ⟨.closeParen, ")"⟩ rfl rfl rfl]
    simp
  derives := by
    have hoperator : (Token.mk kind text).kind.isBinary = true := hkind
    have hoperation := Derives.binary hoperator (hleft.derives.weaken (Precedence.le_call _))
      (hright.derives.weaken (Precedence.le_call _))
    exact .grouped rfl rfl (hoperation.weaken (strengths.precedence_of_isBinary hkind).1)
  starts rest := by
    simp [Expr.render, String.toList_append]

/-- The arguments of a call, from the first one on. -/
theorem arguments {first : Expr} {others : List Expr}
    (h : ∀ argument ∈ first :: others, ∃ xs, argument.Legible strengths xs) :
    ∃ xs ys, Derives strengths (.expression .equals first) xs ∧
      Derives strengths (.moreArguments others) ys ∧
      ∀ rest, Token.list ((", ".intercalate (Expr.renderEach (first :: others))).toList ++
        ')' :: rest) = xs ++ ys ++ Token.list (')' :: rest) := by
  obtain ⟨⟨xs, hfirst⟩, hothers⟩ := List.forall_mem_cons.mp h
  have hder := hfirst.derives.weaken (Precedence.le_call .equals)
  -- On the others: the second argument is the first one of the rest of the row.
  induction others generalizing first xs with
  | nil =>
      refine ⟨xs, [], hder, .noMoreArguments, fun rest => ?_⟩
      rw [Expr.renderEach, Expr.renderEach, String.intercalate_singleton, List.append_nil]
      exact hfirst.reads _ (stops_cons (by decide) rest)
  | cons second others ih =>
      obtain ⟨⟨ys, hsecond⟩, hrest⟩ := List.forall_mem_cons.mp hothers
      obtain ⟨ys, zs, hsecond, hmore, hreads⟩ :=
        ih hothers hrest ys hsecond (hsecond.derives.weaken (Precedence.le_call .equals))
      refine ⟨xs, ⟨.comma, ","⟩ :: (ys ++ zs), hder, .moreArguments rfl hsecond hmore,
        fun rest => ?_⟩
      have hrender : (", ".intercalate (Expr.renderEach (first :: second :: others))).toList ++
          ')' :: rest = first.render.toList ++ ',' :: ' ' ::
            ((", ".intercalate (Expr.renderEach (second :: others))).toList ++ ')' :: rest) := by
        simp [Expr.renderEach, String.intercalate_cons_cons, String.toList_append]
      rw [hrender, hfirst.reads _ (stops_cons (by decide) _),
        list_delimiter ',' ⟨.comma, ","⟩ rfl rfl rfl, list_blank, hreads]
      simp

theorem call {callee : Expr} {trees : List Expr} (h : callee.Legible strengths xs)
    (htrees : ∀ argument ∈ trees, ∃ ys, argument.Legible strengths ys) :
    ∃ ys, (Expr.call ⟨.openParen, "("⟩ callee trees).Legible strengths ys := by
  -- What stands between the parentheses, with the closing one.
  have harguments : ∃ ys, Derives strengths (.arguments trees) ys ∧
      ∀ rest, Token.list ((", ".intercalate (Expr.renderEach trees)).toList ++ ')' :: rest) =
        ys ++ Token.list (')' :: rest) := by
    cases trees with
    | nil => exact ⟨[], .noArguments, fun rest => by simp [Expr.renderEach]⟩
    | cons first others =>
        obtain ⟨ys, zs, hfirst, hothers, hreads⟩ := arguments htrees
        exact ⟨ys ++ zs, .arguments hfirst hothers, hreads⟩
  obtain ⟨ys, hder, hreads⟩ := harguments
  have hrender : ∀ rest, (Expr.call ⟨.openParen, "("⟩ callee trees).render.toList ++ rest =
      callee.render.toList ++
        '(' :: ((", ".intercalate (Expr.renderEach trees)).toList ++ ')' :: rest) := by
    intro rest
    simp [Expr.render, String.toList_append]
  refine ⟨xs ++ ⟨.openParen, "("⟩ :: (ys ++ [⟨.closeParen, ")"⟩]), ?_, ?_, ?_⟩
  · intro rest hrest
    rw [hrender, h.reads _ (stops_cons (by decide) _),
      list_delimiter '(' ⟨.openParen, "("⟩ rfl rfl rfl, hreads,
      list_delimiter ')' ⟨.closeParen, ")"⟩ rfl rfl rfl]
    simp
  · exact .call rfl rfl h.derives hder
  · intro rest
    rw [hrender]
    exact h.starts _

end Expr.Legible

/-- Plain expressions are rendered legibly. -/
theorem Expr.Plain.legible {e : Expr} (h : e.Plain) : ∃ xs, e.Legible strengths xs := by
  induction h with
  | name hname => exact ⟨_, legible_of_lexeme hname (by decide) (.name rfl)⟩
  | integer hvalue =>
      have hdigits := fun c hc => isDigit_eq_true_iff.mp (hvalue.digits c hc)
      have hlexeme := Lexeme.whole hvalue.nonempty hdigits
      exact ⟨_, legible_of_lexeme hlexeme (by decide) (.integer rfl hvalue)⟩
  | truth =>
      have hlexeme : Lexeme .trueWord "true".toList := lexeme_of_spelling rfl
      exact ⟨_, legible_of_lexeme hlexeme (by decide) (.boolean (.inl rfl))⟩
  | falsehood =>
      have hlexeme : Lexeme .falseWord "false".toList := lexeme_of_spelling rfl
      exact ⟨_, legible_of_lexeme hlexeme (by decide) (.boolean (.inr rfl))⟩
  | unary hkind hspelling _ ih =>
      obtain ⟨xs, hoperand⟩ := ih
      exact ⟨_, hoperand.unary hkind hspelling⟩
  | binary hkind hspelling _ _ ihleft ihright =>
      obtain ⟨xs, hleft⟩ := ihleft
      obtain ⟨ys, hright⟩ := ihright
      exact ⟨_, hleft.binary hkind hspelling hright⟩
  | call _ _ ihcallee iharguments =>
      obtain ⟨xs, hcallee⟩ := ihcallee
      exact hcallee.call iharguments

/-! ## Statements -/

/-- A plain statement in front of a text is the statement in front of those of the text. -/
theorem Statement.Plain.derives {s : Statement} (h : s.Plain) {trees : List Statement}
    {rest : List Char} (hrest : Derives strengths (.statements trees) (Token.list rest)) :
    Derives strengths (.statements (s :: trees)) (Token.list (s.render.toList ++ rest)) := by
  cases h with
  | @binding word value hname hvalue =>
      obtain ⟨xs, hlegible⟩ : ∃ xs, value.Legible strengths xs := hvalue.legible
      have hrender : (Statement.binding ⟨.letWord, "let"⟩ ⟨⟨.name, word⟩, word⟩
          value).render.toList ++ rest = "let".toList ++ ' ' :: (word.toList ++
            ' ' :: ("=".toList ++ ' ' :: (value.render.toList ++ ';' :: rest))) := by
        simp [Statement.render, String.toList_append]
      have hlet : Lexeme .letWord "let".toList := lexeme_of_spelling rfl
      have hassign : Lexeme .assign "=".toList := lexeme_of_spelling rfl
      rw [hrender, hlet.list_blank, hname.list_blank, hassign.list_blank,
        hlegible.reads _ (stops_cons (by decide) rest),
        list_delimiter ';' ⟨.semicolon, ";"⟩ rfl rfl rfl]
      have hvalue := hlegible.derives.weaken (Precedence.le_call .equals)
      exact .terminated rfl (.binding rfl rfl rfl hvalue) hrest
  | @result value hvalue =>
      obtain ⟨xs, hlegible⟩ : ∃ xs, value.Legible strengths xs := hvalue.legible
      have hrender : (Statement.result ⟨.returnWord, "return"⟩ value).render.toList ++ rest =
          "return".toList ++ ' ' :: (value.render.toList ++ ';' :: rest) := by
        simp [Statement.render, String.toList_append]
      have hreturn : Lexeme .returnWord "return".toList := lexeme_of_spelling rfl
      rw [hrender, hreturn.list_blank, hlegible.reads _ (stops_cons (by decide) rest),
        list_delimiter ';' ⟨.semicolon, ";"⟩ rfl rfl rfl]
      have hvalue := hlegible.derives.weaken (Precedence.le_call .equals)
      exact .terminated rfl (.result rfl hvalue) hrest

/-- The same for a row of plain statements. -/
theorem derives_row {front : List Statement} (hfront : ∀ s ∈ front, s.Plain)
    {trees : List Statement} {rest : List Char}
    (hrest : Derives strengths (.statements trees) (Token.list rest)) :
    Derives strengths (.statements (front ++ trees))
      (Token.list ((Statement.renderList front).toList ++ rest)) := by
  induction front with
  | nil => exact hrest
  | cons first front ih =>
      obtain ⟨hfirst, hfront⟩ := List.forall_mem_cons.mp hfront
      have hall := hfirst.derives (ih hfront)
      rwa [← List.append_assoc, ← String.toList_append] at hall

/-! ## Programs -/

/-- A source whose tokens the grammar derives statements to is read as these statements. -/
theorem parse_of_derives {source : String} {trees : List Statement}
    (h : Derives .standard (.statements trees) (Token.ofSource source)) :
    (parse source).1 = ⟨trees⟩ ∧ (parse source).2.messages = [] := by
  have hnumeric : (Cursor.ofSource source).Numeric :=
    fun _ hmem => Token.isNumeric_of_mem_ofSource hmem
  have hend : ∀ token ∈ (Cursor.ofSource source).tokens, token.kind ≠ .endOfInput :=
    fun _ hmem => Token.kind_ne_endOfInput_of_mem_ofSource hmem
  have hpasses := Cursor.passes_advanceBy (List.prefix_rfl (l := (Cursor.ofSource source).tokens))
  obtain ⟨hvalue, hfaults, _⟩ := (Operators.yields_statements_iff hnumeric hend).mpr ⟨hpasses, h⟩
  rw [Operators.dialect_standard] at hvalue hfaults
  constructor
  · rw [parse_eq, hvalue]
    rfl
  · rw [parse_messages, hfaults]
    rfl

/-- Rendering does not show the token of an expression statement. -/
theorem render_closedBy (front : List Statement) (closing : Option Expr) (token : Token) :
    (Program.closedBy front closing token).render =
      Statement.renderList front ++ (closing.map Expr.render).getD "" := by
  rw [Program.closedBy, Program.render, Statement.renderList_append]
  cases closing with
  | none => rfl
  | some e =>
      show _ ++ (e.render ++ "") = _
      rw [String.append_empty]
      rfl

/-- The statements of a plain program are derived to the tokens of its rendering, with the first
token of the expression statement at its end, if there is one. -/
theorem exists_derives_render {front : List Statement} (hfront : ∀ s ∈ front, s.Plain)
    {closing : Option Expr} (hclosing : ∀ e ∈ closing, e.Plain) (token : Token) :
    ∃ first, Derives strengths (.statements (Program.closedBy front closing first).statements)
      (Token.ofSource (Program.closedBy front closing token).render) := by
  have hnil : Token.list [] = [] := Token.list_of_dropWhile_eq_nil rfl
  rw [render_closedBy, Token.ofSource, String.toList_append]
  cases closing with
  | none =>
      refine ⟨token, derives_row hfront ?_⟩
      show Derives strengths (.statements []) (Token.list [])
      rw [hnil]
      exact .noStatements
  | some e =>
      obtain ⟨xs, hlegible⟩ : ∃ xs, e.Legible strengths xs := (hclosing e rfl).legible
      obtain ⟨first, others, rfl, _⟩ := hlegible.derives.head_of_expression
      refine ⟨first, derives_row hfront ?_⟩
      have hreads := hlegible.reads [] stops_nil
      rw [List.append_nil, hnil] at hreads
      have hvalue := hlegible.derives.weaken (Precedence.le_call .equals)
      show Derives strengths (.statements [.expression first e]) (Token.list e.render.toList)
      rw [hreads]
      exact .unterminated (fun token hhead => by cases hhead) (.expression rfl hvalue)
        .noStatements

/-- A plain program is what its rendering is read as, without a message. Only the token of an
expression statement at its end may be another one, which rendering does not show. So the
program that is read is rendered as the same text. -/
theorem parse_render {front : List Statement} (hfront : ∀ s ∈ front, s.Plain)
    {closing : Option Expr} (hclosing : ∀ e ∈ closing, e.Plain) (token : Token) :
    (parse (Program.closedBy front closing token).render).2.messages = [] ∧
      (∃ first, (parse (Program.closedBy front closing token).render).1 =
        Program.closedBy front closing first) ∧
      (parse (Program.closedBy front closing token).render).1.render =
        (Program.closedBy front closing token).render := by
  obtain ⟨first, hder⟩ := exists_derives_render hfront hclosing token
  obtain ⟨hprogram, hmessages⟩ := parse_of_derives hder
  refine ⟨hmessages, ⟨first, hprogram⟩, ?_⟩
  rw [hprogram]
  show (Program.closedBy front closing first).render = _
  rw [render_closedBy, render_closedBy]

/-- A binding, a result that calls a call, and an operation that is called. -/
theorem parse_render_of_operations_and_calls :
    let x : Expr := .name ⟨⟨.name, "x"⟩, "x"⟩
    let one : Expr := .integer ⟨.number, "1"⟩ 1
    let sum : Expr := .binary ⟨.plus, "+"⟩ x "+" (.unary ⟨.minus, "-"⟩ "-" one)
    let front : List Statement :=
      [.binding ⟨.letWord, "let"⟩ ⟨⟨.name, "x"⟩, "x"⟩ one,
        .result ⟨.returnWord, "return"⟩
          (.call ⟨.openParen, "("⟩ (.call ⟨.openParen, "("⟩ one [x, sum]) [])]
    let closing : Option Expr := some (.call ⟨.openParen, "("⟩ sum [x])
    (∀ s ∈ front, s.Plain) ∧ (∀ e ∈ closing, e.Plain) ∧
      (parse (Program.closedBy front closing ⟨.openParen, "("⟩).render).2.messages = [] ∧
      (∃ first, (parse (Program.closedBy front closing ⟨.openParen, "("⟩).render).1 =
        Program.closedBy front closing first) ∧
      (parse (Program.closedBy front closing ⟨.openParen, "("⟩).render).1.render =
        (Program.closedBy front closing ⟨.openParen, "("⟩).render := by
  intro x one sum front closing
  have hword : Lexeme .name "x".toList :=
    .name (by decide) (by simp [IsWordCharacter]) (by decide)
  have hx : x.Plain := .name hword
  have hnames : NamesInteger "1" 1 := ⟨by decide, by simp [isDigit], by decide, by decide, by decide⟩
  have hone : one.Plain := .integer hnames
  have hsum : sum.Plain := .binary rfl rfl hx (.unary (.inr rfl) rfl hone)
  have hcall : (Expr.call ⟨.openParen, "("⟩ one [x, sum]).Plain := by
    refine .call hone ?_
    simp [hx, hsum]
  have hfront : ∀ s ∈ front, s.Plain := by
    have hbinding : (Statement.binding ⟨.letWord, "let"⟩ ⟨⟨.name, "x"⟩, "x"⟩ one).Plain :=
      .binding hword hone
    have hresult : (Statement.result ⟨.returnWord, "return"⟩
        (.call ⟨.openParen, "("⟩ (.call ⟨.openParen, "("⟩ one [x, sum]) [])).Plain :=
      .result (.call hcall (by simp))
    simp [front, hbinding, hresult]
  have hclosing : ∀ e ∈ closing, e.Plain := by
    have hlast : (Expr.call ⟨.openParen, "("⟩ sum [x]).Plain := .call hsum (by simp [hx])
    simp [closing, hlast]
  exact ⟨hfront, hclosing, parse_render hfront hclosing ⟨.openParen, "("⟩⟩

end MonkeyFrontend
