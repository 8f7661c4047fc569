import MonkeyFrontend.Proofs.MaximalMunch

/-!
# Texts of one token

For every kind it can be said which texts its tokens have: a kind with one spelling has that
spelling, names and numbers have the lexemes of their kinds, and an illegal token is one stray
character, which neither belongs to a lexeme nor separates lexemes. The end of the input
has no text that could be read. `Kind.WrittenAs` says so, without mentioning the
reader.

Whatever a source is, its tokens have such texts. The other way round, a text of that sort is read
as one token when it stands alone, so each token of a source is also the only token of its
own text. Longer texts come into it only by what follows a lexeme: a lexeme at the front of a text
is its first token, if nothing behind goes on with it.

## Main results

* `Lexeme.list_append` — a lexeme at the front of a text is its first token.
* `Token.writtenAs_of_mem_ofSource` — which texts the tokens of a source have.
* `Token.ofSource_eq_singleton_iff` — which texts are read as one token.
-/

namespace MonkeyFrontend

/-! ## Stray characters -/

/-- The characters that operators and delimiters are written with. -/
def IsSymbolCharacter (c : Char) : Prop :=
  ∃ kind : Kind, (kind.category = .operator ∨ kind.category = .delimiter) ∧
    ∃ text, kind.spelling? = some text ∧ c ∈ text.toList

/-- A character that belongs to no lexeme and separates none. -/
structure IsStrayCharacter (c : Char) : Prop where
  word : ¬ IsWordCharacter c
  number : ¬ IsNumberCharacter c
  symbol : ¬ IsSymbolCharacter c
  blank : ¬ IsBlankCharacter c

/-- The characters that spell nothing alone do not occur in longer symbols either. -/
theorem Kind.ofSymbol?_eq_none_iff {c : Char} :
    Kind.ofSymbol? c = none ↔ ¬ IsSymbolCharacter c := by
  constructor
  · rintro hnone ⟨kind, hfamily, text, hspelling, hmem⟩
    rw [← String.ofList_toList (s := text)] at hspelling
    rcases symbol_cases hfamily hspelling with ⟨d, hsymbol, htext⟩ | ⟨htext, _⟩ | ⟨htext, _⟩
    · rw [htext, List.mem_singleton] at hmem
      rw [hmem, hsymbol] at hnone
      cases hnone
    · rw [htext] at hmem
      obtain rfl : c = '=' := by simpa using hmem
      cases hnone
    · rw [htext] at hmem
      obtain rfl | rfl : c = '!' ∨ c = '=' := by simpa using hmem
      · cases hnone
      · cases hnone
  · intro hnone
    cases hsymbol : Kind.ofSymbol? c with
    | none => rfl
    | some kind =>
        refine absurd ⟨kind, Token.category_of_ofSymbol? hsymbol, _,
          Kind.spelling?_ofSymbol? hsymbol, ?_⟩ hnone
        simp [Char.toString]

namespace Token

/-- A stray character is an illegal token, whatever follows it. -/
theorem readFrom_of_isStrayCharacter {c : Char} (h : IsStrayCharacter c) (rest : List Char) :
    readFrom c rest = (⟨.illegal, c.toString⟩, rest) := by
  apply readFrom_of_other
  · exact Kind.ofSymbol?_eq_none_iff.mpr h.symbol
  · rw [isLetter_eq_true_iff]
    exact h.word
  · rw [isDigit_eq_true_iff]
    exact h.number

/-- Apart from blanks, only stray characters are illegal tokens. -/
theorem isStrayCharacter_of_readFrom {c : Char} {rest : List Char} (hblank : ¬ IsBlankCharacter c)
    (h : (readFrom c rest).1.kind = .illegal) : IsStrayCharacter c where
  word := by
    rw [← isLetter_eq_true_iff]
    intro hletter
    rw [readFrom_of_isLetter hletter] at h
    exact ofWord_ne (by decide) (by decide) _ h
  number := by
    rw [← isDigit_eq_true_iff]
    intro hdigit
    rw [readFrom_of_isDigit hdigit] at h
    cases h
  symbol := by
    rw [← Kind.ofSymbol?_eq_none_iff]
    cases hsymbol : Kind.ofSymbol? c with
    | none => rfl
    | some kind => exact absurd h (length_le_readFrom_of_symbol hsymbol rest).1
  blank := hblank

end Token

/-! ## Texts of kinds -/

/-- The texts that tokens of a kind have. -/
def Kind.WrittenAs (kind : Kind) (text : String) : Prop :=
  match kind with
  | .illegal => ∃ c, text.toList = [c] ∧ IsStrayCharacter c
  | .endOfInput => False
  | .name =>
    text.toList ≠ [] ∧ (∀ c ∈ text.toList, IsWordCharacter c) ∧
      ∀ entry ∈ Kind.keywords, entry.1 ≠ text
  | .number =>
    ∃ digits rest, text.toList = digits ++ rest ∧ digits ≠ [] ∧
      (∀ c ∈ digits, IsNumberCharacter c) ∧
      (rest = [] ∨ ∃ more, rest = '.' :: more ∧ ∀ c ∈ more, IsNumberCharacter c)
  | kind => kind.spelling? = some text

theorem Kind.writtenAs_of_spelling {kind : Kind} {text : String}
    (h : kind.spelling? = some text) : kind.WrittenAs text := by
  cases kind <;> first | exact h | cases h

/-- A spelling is a lexeme, of a symbol or of a keyword. -/
theorem lexeme_of_spelling {kind : Kind} {text : String} (h : kind.spelling? = some text) :
    Lexeme kind text.toList := by
  have hsymbol : kind.category = .operator ∨ kind.category = .delimiter →
      Lexeme kind text.toList := fun hfamily => .symbol hfamily (by rwa [String.ofList_toList])
  have hkeyword : (text, kind) ∈ Kind.keywords → Lexeme kind text.toList :=
    fun hmem => .keyword (by rwa [String.ofList_toList])
  cases kind <;> cases h <;> first | exact hsymbol (by decide) | exact hkeyword (by decide)

theorem Lexeme.writtenAs {kind : Kind} {text : String} (h : Lexeme kind text.toList) :
    kind.WrittenAs text := by
  have htext : String.ofList text.toList = text := String.ofList_toList
  generalize hcs : text.toList = cs at h
  rw [hcs] at htext
  cases h with
  | keyword hmem => exact Kind.writtenAs_of_spelling (htext ▸ Kind.spelling?_of_mem_keywords hmem)
  | name hne hletters hfree => exact ⟨hcs ▸ hne, hcs ▸ hletters, htext ▸ hfree⟩
  | whole hne hdigits =>
      exact ⟨cs, [], by rw [hcs, List.append_nil], hne, hdigits, .inl rfl⟩
  | @fraction digits more hne hdigits hmore =>
      exact ⟨digits, '.' :: more, hcs, hne, hdigits, .inr ⟨more, rfl, hmore⟩⟩
  | symbol _ hspelling => exact Kind.writtenAs_of_spelling (htext ▸ hspelling)

/-- The texts of a kind are its lexemes, and stray characters if it is the kind of these. -/
theorem Kind.WrittenAs.lexeme_or_stray {kind : Kind} {text : String} (h : kind.WrittenAs text) :
    Lexeme kind text.toList ∨
      kind = .illegal ∧ ∃ c, text.toList = [c] ∧ IsStrayCharacter c := by
  cases kind
  case illegal => exact .inr ⟨rfl, h⟩
  case endOfInput => exact h.elim
  case name =>
    obtain ⟨hne, hletters, hfree⟩ := h
    exact .inl (.name hne hletters (by rwa [String.ofList_toList]))
  case number =>
    obtain ⟨digits, rest, htext, hne, hdigits, rfl | ⟨more, rfl, hmore⟩⟩ := h
    · rw [htext, List.append_nil]
      exact .inl (.whole hne hdigits)
    · rw [htext]
      exact .inl (.fraction hne hdigits hmore)
  all_goals exact .inl (lexeme_of_spelling h)

/-! ## Texts of tokens -/

/-- A token that is cut off by the rule has a text of its kind. -/
theorem Munches.writtenAs {text rest : List Char} {token : Token} (h : Munches text token rest) :
    token.kind.WrittenAs token.literal := by
  obtain ⟨c, tail, _, hblank, hread⟩ := h.readFrom_eq
  rcases lexeme_readFrom c tail with hlexeme | hillegal
  · rw [hread] at hlexeme
    exact hlexeme.writtenAs
  · have hkind : (Token.readFrom c tail).1.kind = .illegal := by rw [hillegal]
    have hstray := Token.isStrayCharacter_of_readFrom hblank hkind
    obtain ⟨rfl, _⟩ := Prod.mk.inj (hread.symm.trans hillegal)
    exact ⟨c, String.toList_ofList, hstray⟩

theorem Munched.writtenAs {text last : List Char} {pieces : List Piece}
    (h : Munched text pieces last) :
    ∀ piece ∈ pieces, piece.token.kind.WrittenAs piece.token.literal := by
  induction h with
  | done _ => exact fun piece hmem => absurd hmem List.not_mem_nil
  | more _ hfirst _ ih => exact List.forall_mem_cons.mpr ⟨hfirst.writtenAs, ih⟩

/-- A lexeme at the front of a text is its first token, if what follows does not go on with
it. -/
theorem Lexeme.list_append {kind : Kind} {text : String} {rest : List Char}
    (h : Lexeme kind text.toList) (hrest : ∀ next, rest.head? = some next → ¬ kind.GoesOn next) :
    Token.list (text.toList ++ rest) = ⟨kind, text⟩ :: Token.list rest := by
  obtain ⟨c, tail, htext⟩ := List.exists_cons_of_ne_nil h.ne_nil
  rw [htext] at h ⊢
  have hread := h.readFrom_append hrest
  have hlegal := (h.length_le (c := c) ⟨rest, rfl⟩).1
  have hblank : ¬ isBlank c = true := by
    rw [isBlank_eq_true_iff]
    exact fun hblank => hlegal (Token.kind_readFrom_of_isBlankCharacter hblank _)
  have hdrop : (c :: tail ++ rest).dropWhile isBlank = c :: (tail ++ rest) :=
    List.dropWhile_cons_of_neg hblank
  rw [Token.list_of_dropWhile_eq_cons hdrop, hread, ← htext, String.ofList_toList]

/-- A stray character at the front of a text is its first token. -/
theorem list_of_isStrayCharacter {c : Char} (h : IsStrayCharacter c) (rest : List Char) :
    Token.list (c :: rest) = ⟨.illegal, c.toString⟩ :: Token.list rest := by
  have hblank : ¬ isBlank c = true := by
    rw [isBlank_eq_true_iff]
    exact h.blank
  rw [Token.list_of_dropWhile_eq_cons (List.dropWhile_cons_of_neg hblank),
    Token.readFrom_of_isStrayCharacter h]

theorem Token.list_nil : Token.list [] = [] :=
  Token.list_of_dropWhile_eq_nil rfl

namespace Token

/-- The tokens of a source have texts of their kinds. -/
theorem writtenAs_of_mem_ofSource {source : String} {token : Token}
    (hmem : token ∈ ofSource source) : token.kind.WrittenAs token.literal := by
  obtain ⟨pieces, last, hmunched, hpieces⟩ := exists_munched source.toList
  rw [ofSource, ← hpieces] at hmem
  obtain ⟨piece, hpiece, rfl⟩ := List.mem_map.mp hmem
  exact hmunched.writtenAs piece hpiece

/-- A text is read as one token of a kind, and as the whole of it, exactly if it is a text
of the kind. -/
theorem ofSource_eq_singleton_iff {kind : Kind} {text : String} :
    ofSource text = [⟨kind, text⟩] ↔ kind.WrittenAs text := by
  constructor
  · intro h
    have hmem : (⟨kind, text⟩ : Token) ∈ ofSource text := by
      rw [h]
      exact List.mem_cons_self
    exact writtenAs_of_mem_ofSource hmem
  · intro h
    rcases h.lexeme_or_stray with hlexeme | ⟨rfl, c, htext, hstray⟩
    · have hlist : list (text.toList ++ []) = ⟨kind, text⟩ :: list [] :=
        hlexeme.list_append fun next hnext => by cases hnext
      rwa [List.append_nil, list_nil] at hlist
    · have hliteral : c.toString = text := by
        rw [← String.ofList_toList (s := text), htext]
        rfl
      rw [ofSource, htext, list_of_isStrayCharacter hstray, hliteral, list_nil]

/-- A token of a source is the only token of its own text. -/
theorem ofSource_literal {source : String} {token : Token} (hmem : token ∈ ofSource source) :
    ofSource token.literal = [token] :=
  ofSource_eq_singleton_iff.mpr (writtenAs_of_mem_ofSource hmem)

end Token

/-! ## No blanks in tokens -/

namespace IsBlankCharacter

variable {c : Char} (h : IsBlankCharacter c)

include h

theorem not_isWordCharacter : ¬ IsWordCharacter c := by
  rw [← isLetter_eq_true_iff]
  rcases h with rfl | rfl | rfl | rfl <;> decide

theorem not_isNumberCharacter : ¬ IsNumberCharacter c := by
  rw [← isDigit_eq_true_iff]
  rcases h with rfl | rfl | rfl | rfl <;> decide

theorem ne_point : c ≠ '.' := by
  rcases h with rfl | rfl | rfl | rfl <;> decide

theorem ne_equals : c ≠ '=' := by
  rcases h with rfl | rfl | rfl | rfl <;> decide

end IsBlankCharacter

end MonkeyFrontend
