/-!
# Token kinds

The twenty-seven kinds of token in the Monkey language, with the three
pieces of data that the rest of the library reads off a kind:

* its `label`, the name under which messages and the token registry
  refer to it;
* its `category`, which says whether the kind has one fixed spelling;
* its `spelling?`, that fixed spelling, where there is one.

The lexer's two lookup tables, `keywords` for words and `ofSymbol?` for
single characters, are tables over the same kinds; `spelling?_ofSymbol?`
and `spelling?_of_mem_keywords` say that they agree with `spelling?`.
-/

namespace MonkeyFrontend

/-- What a token is, independently of how it is written. -/
inductive Kind where
  /-- A character that begins no token. -/
  | illegal
  /-- The end of the input. -/
  | endOfInput
  /-- A name: letters and underscores, and no keyword. -/
  | name
  /-- A number, possibly with a fraction. -/
  | number
  | assign
  | plus
  | minus
  | bang
  | asterisk
  | slash
  | less
  | greater
  | equal
  | notEqual
  | comma
  | semicolon
  | openParen
  | closeParen
  | openBrace
  | closeBrace
  | fnWord
  | letWord
  | returnWord
  | trueWord
  | falseWord
  | ifWord
  | elseWord
deriving DecidableEq, Inhabited

namespace Kind

/-- Every kind once, in the order in which the language lists them. -/
def all : List Kind :=
  [illegal, endOfInput, name, number, assign, plus, minus, bang, asterisk, slash, less, greater,
    equal, notEqual, comma, semicolon, openParen, closeParen, openBrace, closeBrace, fnWord,
    letWord, returnWord, trueWord, falseWord, ifWord, elseWord]

theorem mem_all (kind : Kind) : kind ∈ all := by
  cases kind <;> decide

/-- The name of a kind in messages and in the token registry. -/
def label : Kind → String
  | illegal => "ILLEGAL"
  | endOfInput => "EOF"
  | name => "IDENT"
  | number => "INT"
  | assign => "ASSIGN"
  | plus => "PLUS"
  | minus => "MINUS"
  | bang => "BANG"
  | asterisk => "ASTERISK"
  | slash => "SLASH"
  | less => "LT"
  | greater => "GT"
  | equal => "EQ"
  | notEqual => "NOT_EQ"
  | comma => "COMMA"
  | semicolon => "SEMICOLON"
  | openParen => "LPAREN"
  | closeParen => "RPAREN"
  | openBrace => "LBRACE"
  | closeBrace => "RBRACE"
  | fnWord => "FUNCTION"
  | letWord => "LET"
  | returnWord => "RETURN"
  | trueWord => "TRUE"
  | falseWord => "FALSE"
  | ifWord => "IF"
  | elseWord => "ELSE"

/-- The kind with a given label. -/
def ofLabel? (text : String) : Option Kind :=
  all.find? fun kind => kind.label == text

theorem ofLabel?_label (kind : Kind) : ofLabel? kind.label = some kind := by
  cases kind <;> decide

theorem label_of_ofLabel? {text : String} {kind : Kind} (h : ofLabel? text = some kind) :
    kind.label = text := by
  simpa using List.find?_some h

/-- Distinct kinds have distinct labels. -/
theorem label_injective {a b : Kind} (h : a.label = b.label) : a = b := by
  have := ofLabel?_label a
  rw [h, ofLabel?_label b] at this
  exact (Option.some.inj this).symm

/-! ## Spellings -/

/-- The five families of kinds. Only the last three have fixed spellings. -/
inductive Category where
  | special
  | literal
  | operator
  | delimiter
  | keyword
deriving DecidableEq

/-- The family of a kind. -/
def category : Kind → Category
  | illegal | endOfInput => .special
  | name | number => .literal
  | assign | plus | minus | bang | asterisk | slash | less | greater | equal | notEqual => .operator
  | comma | semicolon | openParen | closeParen | openBrace | closeBrace => .delimiter
  | fnWord | letWord | returnWord | trueWord | falseWord | ifWord | elseWord => .keyword

/-- The source text of a kind that can be written in one way only. -/
def spelling? : Kind → Option String
  | illegal | endOfInput | name | number => none
  | assign => some "="
  | plus => some "+"
  | minus => some "-"
  | bang => some "!"
  | asterisk => some "*"
  | slash => some "/"
  | less => some "<"
  | greater => some ">"
  | equal => some "=="
  | notEqual => some "!="
  | comma => some ","
  | semicolon => some ";"
  | openParen => some "("
  | closeParen => some ")"
  | openBrace => some "\x7b"
  | closeBrace => some "\x7d"
  | fnWord => some "fn"
  | letWord => some "let"
  | returnWord => some "return"
  | trueWord => some "true"
  | falseWord => some "false"
  | ifWord => some "if"
  | elseWord => some "else"

/-! ## Lookup tables -/

/-- The reserved words. -/
def keywords : List (String × Kind) :=
  [("fn", fnWord), ("let", letWord), ("return", returnWord), ("true", trueWord),
    ("false", falseWord), ("if", ifWord), ("else", elseWord)]

/-- The kind of a word: a keyword's own kind, or `name` for any other word. -/
def ofWord (word : String) : Kind :=
  (keywords.lookup word).getD name

/-- The kind that a single character spells. -/
def ofSymbol? : Char → Option Kind
  | '=' => some assign
  | '+' => some plus
  | '-' => some minus
  | '!' => some bang
  | '*' => some asterisk
  | '/' => some slash
  | '<' => some less
  | '>' => some greater
  | ',' => some comma
  | ';' => some semicolon
  | '(' => some openParen
  | ')' => some closeParen
  | '\x7b' => some openBrace
  | '\x7d' => some closeBrace
  | _ => none

theorem spelling?_of_mem_keywords {entry : String × Kind} (h : entry ∈ keywords) :
    entry.2.spelling? = some entry.1 := by
  simp only [keywords, List.mem_cons, List.not_mem_nil, or_false] at h
  rcases h with h | h | h | h | h | h | h <;> subst h <;> rfl

theorem spelling?_ofSymbol? {c : Char} {kind : Kind} (h : ofSymbol? c = some kind) :
    kind.spelling? = some c.toString := by
  unfold ofSymbol? at h
  split at h <;> first | (cases h; rfl) | cases h

end Kind

end MonkeyFrontend
