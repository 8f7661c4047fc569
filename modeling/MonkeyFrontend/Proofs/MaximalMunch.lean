import MonkeyFrontend.Proofs.TextsInARow
import MonkeyFrontend.Scanner

/-!
# Maximal munch

Which texts are tokens can be said without saying how a token is read. A word is a
row of ASCII letters and underscores, a number is a row of digits that may have a
point and further digits behind it, and every operator and delimiter has its
spelling. These texts are the lexemes, each of one kind (`Lexeme`).

A source is cut into tokens by one rule. Behind blanks, the longest lexeme that
begins there is the next token, and where no lexeme begins, a single character is, as
an illegal token. `Munched` is that rule, as a relation between a text and the
pieces that it is cut into, so it accounts for every character of the text.

The reader of tokens looks at one character, or two, and then takes what it can. It is
shown to follow the rule, and the rule is shown to leave no choice.

## Main results

* `Lexeme.length_le` — no lexeme is longer than the token that is read.
* `Munches.readFrom_eq` — the rule gives the token that is read, and no other.
* `Munched.unique` — a text can be cut in one way only.
* `Scanner.tokenize_munches` — every source is cut into its tokens by the rule.
-/

namespace MonkeyFrontend

/-! ## Lexemes -/

/-- The letters of words, which are ASCII letters and the underscore. -/
def IsWordCharacter (c : Char) : Prop :=
  'a' ≤ c ∧ c ≤ 'z' ∨ 'A' ≤ c ∧ c ≤ 'Z' ∨ c = '_'

/-- The digits of numbers, which are ASCII digits. -/
def IsNumberCharacter (c : Char) : Prop :=
  '0' ≤ c ∧ c ≤ '9'

/-- The texts that are tokens, with their kinds. -/
inductive Lexeme : Kind → List Char → Prop
  | keyword {kind : Kind} {word : List Char} :
    (String.ofList word, kind) ∈ Kind.keywords → Lexeme kind word
  | name {word : List Char} :
    word ≠ [] → (∀ c ∈ word, IsWordCharacter c) →
      (∀ entry ∈ Kind.keywords, entry.1 ≠ String.ofList word) → Lexeme .name word
  | whole {digits : List Char} :
    digits ≠ [] → (∀ c ∈ digits, IsNumberCharacter c) → Lexeme .number digits
  /-- Digits behind the point may be missing, digits before it may not. -/
  | fraction {digits more : List Char} :
    digits ≠ [] → (∀ c ∈ digits, IsNumberCharacter c) → (∀ c ∈ more, IsNumberCharacter c) →
      Lexeme .number (digits ++ '.' :: more)
  | symbol {kind : Kind} {text : List Char} :
    kind.category = .operator ∨ kind.category = .delimiter →
      kind.spelling? = some (String.ofList text) → Lexeme kind text

theorem isLetter_eq_true_iff {c : Char} : isLetter c = true ↔ IsWordCharacter c := by
  have hupper : c.isUpper = true ↔ 'A' ≤ c ∧ c ≤ 'Z' := decide_eq_true_iff
  have hlower : c.isLower = true ↔ 'a' ≤ c ∧ c ≤ 'z' :=
    Bool.and_eq_true_iff.trans (and_congr decide_eq_true_iff decide_eq_true_iff)
  have halpha : c.isAlpha = (c.isUpper || c.isLower) := rfl
  rw [isLetter, halpha, Bool.or_eq_true, Bool.or_eq_true, beq_iff_eq, hupper, hlower,
    IsWordCharacter, ← or_assoc, or_comm (a := 'a' ≤ c ∧ c ≤ 'z')]

theorem isDigit_eq_true_iff {c : Char} : isDigit c = true ↔ IsNumberCharacter c :=
  Bool.and_eq_true_iff.trans (and_congr decide_eq_true_iff decide_eq_true_iff)

/-- A symbol is one character of the table of symbols, or one of the two pairs. -/
theorem symbol_cases {kind : Kind} {text : List Char}
    (hfamily : kind.category = .operator ∨ kind.category = .delimiter)
    (hspelling : kind.spelling? = some (String.ofList text)) :
    (∃ c, Kind.ofSymbol? c = some kind ∧ text = [c]) ∨
      text = ['=', '='] ∧ kind = .equal ∨ text = ['!', '='] ∧ kind = .notEqual := by
  have htext : kind.spelling?.map String.toList = some text := by
    rw [hspelling, Option.map_some, String.toList_ofList]
  cases kind <;> simp [Kind.category] at hfamily <;> simp [Kind.spelling?] at htext <;> subst htext
  case equal => exact .inr (.inl ⟨rfl, rfl⟩)
  case notEqual => exact .inr (.inr ⟨rfl, rfl⟩)
  all_goals exact .inl ⟨_, rfl, rfl⟩

namespace Token

/-! ## One token -/

/-- Neither of the two pairs begins with a character that spells nothing. -/
theorem not_pair_of_ofSymbol?_eq_none {c : Char} {rest : List Char}
    (h : Kind.ofSymbol? c = none) : ¬ ((c = '=' ∨ c = '!') ∧ rest.head? = some '=') := by
  rintro ⟨rfl | rfl, _⟩ <;> cases h

theorem ofSymbol?_of_isLetter {c : Char} (h : isLetter c = true) : Kind.ofSymbol? c = none := by
  unfold Kind.ofSymbol?
  split <;> first | rfl | (revert h; decide)

theorem ofSymbol?_of_isDigit {c : Char} (h : isDigit c = true) : Kind.ofSymbol? c = none := by
  unfold Kind.ofSymbol?
  split <;> first | rfl | (revert h; decide)

theorem isLetter_of_isDigit {c : Char} (h : isDigit c = true) : isLetter c = false := by
  have hhigh : c.toNat ≤ 57 := (isDigit_eq_true_iff.mp h).2
  rw [← Bool.not_eq_true, isLetter_eq_true_iff]
  rintro (⟨hword, _⟩ | ⟨hword, _⟩ | rfl)
  · have hlow : 97 ≤ c.toNat := hword
    omega
  · have hlow : 65 ≤ c.toNat := hword
    omega
  · exact absurd h (by decide)

theorem readFrom_equal (rest : List Char) :
    readFrom '=' ('=' :: rest) = (⟨.equal, "=="⟩, rest) := rfl

theorem readFrom_notEqual (rest : List Char) :
    readFrom '!' ('=' :: rest) = (⟨.notEqual, "!="⟩, rest) := rfl

/-- What begins with a letter is read as a word. -/
theorem readFrom_of_isLetter {c : Char} (h : isLetter c = true) (rest : List Char) :
    readFrom c rest =
      (⟨Kind.ofWord (String.ofList ((c :: rest).takeWhile isLetter)),
        String.ofList ((c :: rest).takeWhile isLetter)⟩, (c :: rest).dropWhile isLetter) := by
  have hsymbol := ofSymbol?_of_isLetter h
  rw [readFrom_eq_of_not_pair (not_pair_of_ofSymbol?_eq_none hsymbol), hsymbol]
  simp only [if_pos h]
  rfl

/-- What begins with a digit is read as a number. -/
theorem readFrom_of_isDigit {c : Char} (h : isDigit c = true) (rest : List Char) :
    readFrom c rest =
      (⟨.number, String.ofList (splitNumber (c :: rest)).1⟩, (splitNumber (c :: rest)).2) := by
  have hsymbol := ofSymbol?_of_isDigit h
  have hletter : ¬ isLetter c = true := by simp [isLetter_of_isDigit h]
  rw [readFrom_eq_of_not_pair (not_pair_of_ofSymbol?_eq_none hsymbol), hsymbol]
  simp only [if_neg hletter, if_pos h]

/-- What begins with a symbol, and with no pair, is read as that symbol. -/
theorem readFrom_of_ofSymbol? {c : Char} {kind : Kind} {rest : List Char}
    (h : Kind.ofSymbol? c = some kind)
    (hpair : ¬ ((c = '=' ∨ c = '!') ∧ rest.head? = some '=')) :
    readFrom c rest = (⟨kind, c.toString⟩, rest) := by
  rw [readFrom_eq_of_not_pair hpair, h]

theorem category_of_ofSymbol? {c : Char} {kind : Kind} (h : Kind.ofSymbol? c = some kind) :
    kind.category = .operator ∨ kind.category = .delimiter := by
  unfold Kind.ofSymbol? at h
  split at h <;> cases h <;> decide

/-- What begins with none of these is read as one illegal character. -/
theorem readFrom_of_other {c : Char} {rest : List Char} (hsymbol : Kind.ofSymbol? c = none)
    (hletter : ¬ isLetter c = true) (hdigit : ¬ isDigit c = true) :
    readFrom c rest = (⟨.illegal, c.toString⟩, rest) := by
  rw [readFrom_eq_of_not_pair (not_pair_of_ofSymbol?_eq_none hsymbol), hsymbol]
  simp only [if_neg hletter, if_neg hdigit]

end Token

/-- Neither a symbol nor a pair that begins with it is shorter than the symbol. -/
theorem length_le_readFrom_of_symbol {kind : Kind} {c : Char} (h : Kind.ofSymbol? c = some kind)
    (rest : List Char) :
    (Token.readFrom c rest).1.kind ≠ .illegal ∧
      [c].length ≤ (Token.readFrom c rest).1.literal.toList.length := by
  by_cases hpair : (c = '=' ∨ c = '!') ∧ rest.head? = some '='
  · obtain ⟨more, rfl⟩ := List.head?_eq_some_iff.mp hpair.2
    rcases hpair.1 with rfl | rfl
    · rw [Token.readFrom_equal]
      exact ⟨Kind.noConfusion, by simp⟩
    · rw [Token.readFrom_notEqual]
      exact ⟨Kind.noConfusion, by simp⟩
  · rw [Token.readFrom_of_ofSymbol? h hpair]
    refine ⟨?_, by simp [Char.toString]⟩
    rintro rfl
    exact Token.ofSymbol?_ne rfl c h

/-- A run of characters ends where the next one is of another kind. -/
theorem run_append_of_end {p : Char → Bool} {text rest : List Char}
    (h : ∀ c ∈ text, p c = true) (hrest : ∀ next, rest.head? = some next → p next = false) :
    (text ++ rest).takeWhile p = text ∧ (text ++ rest).dropWhile p = rest := by
  rw [List.takeWhile_append_of_pos h, List.dropWhile_append_of_pos h]
  cases rest with
  | nil => exact ⟨List.append_nil text, rfl⟩
  | cons c rest =>
      have hc : ¬ p c = true := by simp [hrest c rfl]
      rw [List.takeWhile_cons_of_neg hc, List.dropWhile_cons_of_neg hc]
      exact ⟨List.append_nil text, rfl⟩

/-! ## Words -/

theorem head_mem_of_append_eq_cons {text more rest : List Char} {c : Char} (hne : text ≠ [])
    (h : text ++ more = c :: rest) : c ∈ text := by
  obtain ⟨d, tail, rfl⟩ := List.exists_cons_of_ne_nil hne
  rw [← (List.cons.inj h).1]
  exact List.mem_cons_self

/-- The reserved words are words, and have their own kinds. -/
theorem word_of_mem_keywords {kind : Kind} {word : List Char}
    (h : (String.ofList word, kind) ∈ Kind.keywords) :
    word ≠ [] ∧ (∀ c ∈ word, isLetter c = true) ∧ Kind.ofWord (String.ofList word) = kind := by
  have htext : ∀ entry ∈ Kind.keywords, entry.1.toList ≠ [] ∧
      (∀ c ∈ entry.1.toList, isLetter c = true) ∧ Kind.ofWord entry.1 = entry.2 := by
    simp [Kind.keywords, isLetter, Kind.ofWord, List.lookup_cons]
  have hword := htext _ h
  rwa [String.toList_ofList] at hword

theorem ofWord_eq_name {word : String} (h : ∀ entry ∈ Kind.keywords, entry.1 ≠ word) :
    Kind.ofWord word = .name := by
  have hnone : Kind.keywords.lookup word = none := by
    rw [List.lookup_eq_none_iff]
    intro entry hmem
    simpa using (h entry hmem).symm
  rw [Kind.ofWord, hnone, Option.getD_none]

/-- A row of letters is a lexeme of the kind that the table of words gives it. -/
theorem lexeme_word {word : List Char} (hne : word ≠ []) (h : ∀ c ∈ word, isLetter c = true) :
    Lexeme (Kind.ofWord (String.ofList word)) word := by
  by_cases hkeyword : ∃ entry ∈ Kind.keywords, entry.1 = String.ofList word
  · obtain ⟨⟨text, kind⟩, hmem, rfl⟩ := hkeyword
    rw [(word_of_mem_keywords hmem).2.2]
    exact .keyword hmem
  · have hother : ∀ entry ∈ Kind.keywords, entry.1 ≠ String.ofList word :=
      fun entry hmem heq => hkeyword ⟨entry, hmem, heq⟩
    rw [ofWord_eq_name hother]
    exact .name hne (fun c hc => isLetter_eq_true_iff.mp (h c hc)) hother

/-- No word at the beginning of a text is longer than the token that is read there. -/
theorem length_le_readFrom_of_word {word rest : List Char} {c : Char} (hne : word ≠ [])
    (h : ∀ d ∈ word, isLetter d = true) (hfront : word <+: c :: rest) :
    (Token.readFrom c rest).1.kind ≠ .illegal ∧
      word.length ≤ (Token.readFrom c rest).1.literal.toList.length := by
  obtain ⟨more, hmore⟩ := hfront
  have hc : isLetter c = true := h c (head_mem_of_append_eq_cons hne hmore)
  rw [Token.readFrom_of_isLetter hc, String.toList_ofList, ← hmore,
    List.takeWhile_append_of_pos h, List.length_append]
  exact ⟨Token.ofWord_ne (by decide) (by decide) _, Nat.le_add_right _ _⟩

/-! ## Numbers -/

/-- The digits before a point are the first part of a number, and the digits behind it
are the second one. -/
theorem splitNumber_of_point {digits : List Char} (h : ∀ c ∈ digits, isDigit c = true)
    (rest : List Char) :
    splitNumber (digits ++ '.' :: rest) =
      (digits ++ '.' :: rest.takeWhile isDigit, rest.dropWhile isDigit) := by
  have hdrop : (digits ++ '.' :: rest).dropWhile isDigit = '.' :: rest := by
    rw [List.dropWhile_append_of_pos h, List.dropWhile_cons_of_neg (by decide)]
  have htake : (digits ++ '.' :: rest).takeWhile isDigit = digits := by
    rw [List.takeWhile_append_of_pos h, List.takeWhile_cons_of_neg (by decide), List.append_nil]
  unfold splitNumber
  rw [hdrop, htake]
  rfl

/-- A number ends where neither a digit nor a point follows. -/
theorem splitNumber_of_end {digits rest : List Char} (h : ∀ c ∈ digits, isDigit c = true)
    (hrest : ∀ next, rest.head? = some next → isDigit next = false ∧ next ≠ '.') :
    splitNumber (digits ++ rest) = (digits, rest) := by
  obtain ⟨htake, hdrop⟩ := run_append_of_end h fun next hnext => (hrest next hnext).1
  unfold splitNumber
  rw [htake, hdrop]
  cases rest with
  | nil => rfl
  | cons c rest =>
      have hpoint := (hrest c rfl).2
      simp [hpoint]

theorem length_takeWhile_le_splitNumber (text : List Char) :
    (text.takeWhile isDigit).length ≤ (splitNumber text).1.length := by
  unfold splitNumber
  split
  · rw [List.length_append]
    exact Nat.le_add_right _ _
  · exact Nat.le_refl _

/-- What is read of a text as a number is a lexeme, if it begins with a digit. -/
theorem lexeme_splitNumber {c : Char} (h : isDigit c = true) (rest : List Char) :
    Lexeme .number (splitNumber (c :: rest)).1 := by
  have hne : (c :: rest).takeWhile isDigit ≠ [] := by
    rw [List.takeWhile_cons_of_pos h]
    exact List.cons_ne_nil _ _
  have hdigits : ∀ text : List Char, ∀ d ∈ text.takeWhile isDigit, IsNumberCharacter d :=
    fun text d hd => isDigit_eq_true_iff.mp (List.all_eq_true.mp List.all_takeWhile d hd)
  unfold splitNumber
  split
  · exact .fraction hne (hdigits _) (hdigits _)
  · exact .whole hne (hdigits _)

/-! ## Longest lexemes -/

/-- Where a lexeme begins no illegal token is read, and no lexeme is longer than the
token that is read there. -/
theorem Lexeme.length_le {kind : Kind} {text rest : List Char} {c : Char} (h : Lexeme kind text)
    (hfront : text <+: c :: rest) :
    (Token.readFrom c rest).1.kind ≠ .illegal ∧
      text.length ≤ (Token.readFrom c rest).1.literal.toList.length := by
  cases h with
  | keyword hmem =>
      obtain ⟨hne, hletters, _⟩ := word_of_mem_keywords hmem
      exact length_le_readFrom_of_word hne hletters hfront
  | name hne hletters _ =>
      exact length_le_readFrom_of_word hne (fun d hd => isLetter_eq_true_iff.mpr (hletters d hd))
        hfront
  | whole hne hdigits =>
      obtain ⟨more, hmore⟩ := hfront
      have hdigits : ∀ d ∈ text, isDigit d = true :=
        fun d hd => isDigit_eq_true_iff.mpr (hdigits d hd)
      have hc : isDigit c = true := hdigits c (head_mem_of_append_eq_cons hne hmore)
      have hlength := length_takeWhile_le_splitNumber (c :: rest)
      rw [← hmore, List.takeWhile_append_of_pos hdigits, List.length_append, hmore] at hlength
      rw [Token.readFrom_of_isDigit hc, String.toList_ofList]
      exact ⟨Kind.noConfusion, by omega⟩
  | @fraction digits more hne hdigits hmore =>
      obtain ⟨behind, hbehind⟩ := hfront
      have hdigits : ∀ d ∈ digits, isDigit d = true :=
        fun d hd => isDigit_eq_true_iff.mpr (hdigits d hd)
      have hmore : ∀ d ∈ more, isDigit d = true :=
        fun d hd => isDigit_eq_true_iff.mpr (hmore d hd)
      rw [List.append_assoc] at hbehind
      have hc : isDigit c = true := hdigits c (head_mem_of_append_eq_cons hne hbehind)
      rw [Token.readFrom_of_isDigit hc, String.toList_ofList, ← hbehind, List.cons_append,
        splitNumber_of_point hdigits, List.takeWhile_append_of_pos hmore]
      refine ⟨Kind.noConfusion, ?_⟩
      simp
  | symbol hfamily hspelling =>
      rcases symbol_cases hfamily hspelling with ⟨d, hsymbol, rfl⟩ | ⟨rfl, _⟩ | ⟨rfl, _⟩
      · obtain ⟨rfl, _⟩ := List.cons_prefix_cons.mp hfront
        exact length_le_readFrom_of_symbol hsymbol rest
      · obtain ⟨rfl, more, rfl⟩ := List.cons_prefix_cons.mp hfront
        rw [List.singleton_append, Token.readFrom_equal]
        exact ⟨Kind.noConfusion, by simp⟩
      · obtain ⟨rfl, more, rfl⟩ := List.cons_prefix_cons.mp hfront
        rw [List.singleton_append, Token.readFrom_notEqual]
        exact ⟨Kind.noConfusion, by simp⟩

/-- What is read is a lexeme, or else it is a single illegal character. -/
theorem lexeme_readFrom (c : Char) (rest : List Char) :
    Lexeme (Token.readFrom c rest).1.kind (Token.readFrom c rest).1.literal.toList ∨
      Token.readFrom c rest = (⟨.illegal, String.ofList [c]⟩, rest) := by
  by_cases hpair : (c = '=' ∨ c = '!') ∧ rest.head? = some '='
  · obtain ⟨more, rfl⟩ := List.head?_eq_some_iff.mp hpair.2
    rcases hpair.1 with rfl | rfl
    · rw [Token.readFrom_equal]
      exact .inl (.symbol (.inl rfl) (by rw [String.ofList_toList]; rfl))
    · rw [Token.readFrom_notEqual]
      exact .inl (.symbol (.inl rfl) (by rw [String.ofList_toList]; rfl))
  · cases hsymbol : Kind.ofSymbol? c with
    | some kind =>
        have hspelling := Kind.spelling?_ofSymbol? hsymbol
        rw [Token.readFrom_of_ofSymbol? hsymbol hpair]
        exact .inl (.symbol (Token.category_of_ofSymbol? hsymbol)
          (by rw [hspelling, String.ofList_toList]))
    | none =>
        by_cases hletter : isLetter c = true
        · rw [Token.readFrom_of_isLetter hletter, String.toList_ofList]
          refine .inl (lexeme_word ?_ (List.all_eq_true.mp List.all_takeWhile))
          rw [List.takeWhile_cons_of_pos hletter]
          exact List.cons_ne_nil _ _
        · by_cases hdigit : isDigit c = true
          · rw [Token.readFrom_of_isDigit hdigit, String.toList_ofList]
            exact .inl (lexeme_splitNumber hdigit rest)
          · exact .inr (Token.readFrom_of_other hsymbol hletter hdigit)

/-- A lexeme of this kind may go on with this character. -/
def Kind.GoesOn : Kind → Char → Prop
  | .number, next => IsNumberCharacter next ∨ next = '.'
  | .assign, next | .bang, next => next = '='
  | .name, next | .fnWord, next | .letWord, next | .returnWord, next | .trueWord, next
  | .falseWord, next | .ifWord, next | .elseWord, next => IsWordCharacter next
  | _, _ => False

theorem not_isDigit_of_not_goesOn {next : Char} (h : ¬ Kind.number.GoesOn next) :
    isDigit next = false ∧ next ≠ '.' := by
  rwa [Kind.GoesOn, not_or, ← isDigit_eq_true_iff, Bool.not_eq_true] at h

/-- A row of letters is read as one token, if no letter follows. -/
theorem readFrom_append_of_letters {c : Char} {tail rest : List Char}
    (h : ∀ d ∈ c :: tail, isLetter d = true)
    (hrest : ∀ next, rest.head? = some next → ¬ IsWordCharacter next) :
    Token.readFrom c (tail ++ rest) =
      (⟨Kind.ofWord (String.ofList (c :: tail)), String.ofList (c :: tail)⟩, rest) := by
  have hend : ∀ next, rest.head? = some next → isLetter next = false := by
    intro next hnext
    rw [← Bool.not_eq_true, isLetter_eq_true_iff]
    exact hrest next hnext
  obtain ⟨htake, hdrop⟩ := run_append_of_end h hend
  rw [List.cons_append] at htake hdrop
  rw [Token.readFrom_of_isLetter (h c List.mem_cons_self), htake, hdrop]

/-- A number is read as one token, if neither a digit nor a point follows. -/
theorem readFrom_append_of_number {c : Char} {tail rest : List Char} (hc : isDigit c = true)
    (hsplit : splitNumber (c :: tail ++ rest) = (c :: tail, rest)) :
    Token.readFrom c (tail ++ rest) = (⟨.number, String.ofList (c :: tail)⟩, rest) := by
  rw [List.cons_append] at hsplit
  rw [Token.readFrom_of_isDigit hc, hsplit]

/-- A lexeme is read as one token, of its kind, if what follows does not go on with it. -/
theorem Lexeme.readFrom_append {kind : Kind} {c : Char} {tail rest : List Char}
    (h : Lexeme kind (c :: tail)) (hrest : ∀ next, rest.head? = some next → ¬ kind.GoesOn next) :
    Token.readFrom c (tail ++ rest) = (⟨kind, String.ofList (c :: tail)⟩, rest) := by
  -- The text of a fraction is no `cons`, so the equation is kept for its case.
  generalize htext : c :: tail = text at h
  cases h with
  | keyword hmem =>
      subst htext
      obtain ⟨_, hletters, hkind⟩ := word_of_mem_keywords hmem
      have hgoes : ∀ entry ∈ Kind.keywords, ∀ next, IsWordCharacter next → entry.2.GoesOn next := by
        simp [Kind.keywords, Kind.GoesOn]
      rw [readFrom_append_of_letters hletters, hkind]
      exact fun next hnext hletter => hrest next hnext (hgoes _ hmem next hletter)
  | name _ hletters hother =>
      subst htext
      rw [readFrom_append_of_letters (fun d hd => isLetter_eq_true_iff.mpr (hletters d hd)) hrest,
        ofWord_eq_name hother]
  | whole hne hdigits =>
      subst htext
      have hdigits : ∀ d ∈ c :: tail, isDigit d = true :=
        fun d hd => isDigit_eq_true_iff.mpr (hdigits d hd)
      apply readFrom_append_of_number (hdigits c List.mem_cons_self)
      exact splitNumber_of_end hdigits fun next hnext => not_isDigit_of_not_goesOn (hrest next hnext)
  | @fraction digits more hne hdigits hmore =>
      have hdigits : ∀ d ∈ digits, isDigit d = true :=
        fun d hd => isDigit_eq_true_iff.mpr (hdigits d hd)
      have hmore : ∀ d ∈ more, isDigit d = true :=
        fun d hd => isDigit_eq_true_iff.mpr (hmore d hd)
      have hend : ∀ next, rest.head? = some next → isDigit next = false :=
        fun next hnext => (not_isDigit_of_not_goesOn (hrest next hnext)).1
      obtain ⟨htake, hdrop⟩ := run_append_of_end hmore hend
      rw [← htext]
      apply readFrom_append_of_number (hdigits c (head_mem_of_append_eq_cons hne htext.symm))
      rw [htext, List.append_assoc, List.cons_append, splitNumber_of_point hdigits, htake, hdrop]
  | symbol hfamily hspelling =>
      rcases symbol_cases hfamily hspelling with ⟨d, hsymbol, rfl⟩ | ⟨rfl, rfl⟩ | ⟨rfl, rfl⟩
      · obtain ⟨rfl, rfl⟩ := List.cons_eq_cons.mp htext
        -- Only the two symbols that begin a pair could have been read as part of one.
        apply Token.readFrom_of_ofSymbol? hsymbol
        rintro ⟨rfl | rfl, hhead⟩ <;> cases hsymbol <;> exact hrest '=' hhead rfl
      · obtain ⟨rfl, rfl⟩ := List.cons_eq_cons.mp htext
        exact Token.readFrom_equal rest
      · obtain ⟨rfl, rfl⟩ := List.cons_eq_cons.mp htext
        exact Token.readFrom_notEqual rest

theorem Lexeme.ne_nil {kind : Kind} {text : List Char} (h : Lexeme kind text) : text ≠ [] := by
  cases h with
  | keyword hmem => exact (word_of_mem_keywords hmem).1
  | name hne _ _ => exact hne
  | whole hne _ => exact hne
  | fraction hne _ _ => simp
  | symbol hfamily hspelling =>
      rcases symbol_cases hfamily hspelling with ⟨d, _, rfl⟩ | ⟨rfl, _⟩ | ⟨rfl, _⟩ <;>
        exact List.cons_ne_nil _ _

/-- A text is a lexeme of one kind at most. -/
theorem Lexeme.kind_unique {kind other : Kind} {text : List Char} (h : Lexeme kind text)
    (h' : Lexeme other text) : kind = other := by
  obtain ⟨c, rest, rfl⟩ := List.exists_cons_of_ne_nil h.ne_nil
  have halone : ∀ {kind}, Lexeme kind (c :: rest) →
      Token.readFrom c (rest ++ []) = (⟨kind, String.ofList (c :: rest)⟩, []) :=
    fun hlexeme => hlexeme.readFrom_append fun next hnext => by cases hnext
  have hread := halone h
  rw [halone h'] at hread
  exact (congrArg (fun read : Token × List Char => read.1.kind) hread).symm

/-! ## The rule -/

/-- The characters that separate tokens. -/
def IsBlankCharacter (c : Char) : Prop :=
  c = ' ' ∨ c = '\t' ∨ c = '\r' ∨ c = '\n'

theorem isBlank_eq_true_iff {c : Char} : isBlank c = true ↔ IsBlankCharacter c := by
  simp only [isBlank, IsBlankCharacter, Bool.or_eq_true, beq_iff_eq, or_assoc]

theorem forall_isBlankCharacter_of_all {text : List Char} (h : text.all isBlank = true) :
    ∀ c ∈ text, IsBlankCharacter c :=
  fun c hc => isBlank_eq_true_iff.mp (List.all_eq_true.mp h c hc)

/-- What stands behind the blanks at the front of a text begins with no blank. -/
theorem not_isBlankCharacter_of_dropWhile {text rest : List Char} {c : Char}
    (h : text.dropWhile isBlank = c :: rest) : ¬ IsBlankCharacter c := by
  have hhead := List.head_dropWhile_not isBlank (l := text)
    (by rw [h]; exact List.cons_ne_nil c rest)
  simp only [h, List.head_cons] at hhead
  rw [← isBlank_eq_true_iff, hhead]
  exact Bool.false_ne_true

/-- The first token of a text that begins with no blank, and the text behind it. -/
inductive Munches : List Char → Token → List Char → Prop
  | lexeme {kind : Kind} {literal rest : List Char} :
    Lexeme kind literal →
      (∀ other longer, Lexeme other longer → longer <+: literal ++ rest →
        longer.length ≤ literal.length) →
      Munches (literal ++ rest) ⟨kind, String.ofList literal⟩ rest
  | illegal {c : Char} {rest : List Char} :
    ¬ IsBlankCharacter c → (∀ kind literal, Lexeme kind literal → ¬ literal <+: c :: rest) →
      Munches (c :: rest) ⟨.illegal, String.ofList [c]⟩ rest

/-- A token of a text with the blanks in front of it. -/
structure Piece where
  blanks : List Char
  token : Token

/-- What a piece takes of the text. -/
def Piece.text (piece : Piece) : List Char :=
  piece.blanks ++ piece.token.literal.toList

/-- A text cut into its tokens, with the blanks that stand in front of each and with those
that stand behind the last. -/
inductive Munched : List Char → List Piece → List Char → Prop
  | done {last : List Char} : (∀ c ∈ last, IsBlankCharacter c) → Munched last [] last
  | more {blanks text rest last : List Char} {token : Token} {pieces : List Piece} :
    (∀ c ∈ blanks, IsBlankCharacter c) → Munches text token rest → Munched rest pieces last →
      Munched (blanks ++ text) (⟨blanks, token⟩ :: pieces) last

/-- No character is lost, and none is read twice. -/
theorem Munches.text_eq {text rest : List Char} {token : Token} (h : Munches text token rest) :
    token.literal.toList ++ rest = text := by
  cases h with
  | lexeme _ _ => rw [String.toList_ofList]
  | illegal _ _ => rw [String.toList_ofList, List.singleton_append]

theorem Munched.text_eq {text last : List Char} {pieces : List Piece}
    (h : Munched text pieces last) : (pieces.map Piece.text).flatten ++ last = text := by
  induction h with
  | done _ => rfl
  | @more blanks text rest last token pieces _ hfirst _ ih =>
      calc (Piece.text ⟨blanks, token⟩ ++ (pieces.map Piece.text).flatten) ++ last
          = blanks ++ (token.literal.toList ++ ((pieces.map Piece.text).flatten ++ last)) := by
            simp only [Piece.text, List.append_assoc]
        _ = blanks ++ text := by rw [ih, hfirst.text_eq]

theorem Munched.blanks {text last : List Char} {pieces : List Piece}
    (h : Munched text pieces last) :
    (∀ piece ∈ pieces, ∀ c ∈ piece.blanks, IsBlankCharacter c) ∧
      ∀ c ∈ last, IsBlankCharacter c := by
  induction h with
  | done hlast => exact ⟨fun piece hmem => absurd hmem List.not_mem_nil, hlast⟩
  | more hblanks _ _ ih => exact ⟨List.forall_mem_cons.mpr ⟨hblanks, ih.1⟩, ih.2⟩

/-! ## Following the rule -/

theorem Token.kind_readFrom_of_isBlankCharacter {c : Char} (h : IsBlankCharacter c)
    (rest : List Char) : (readFrom c rest).1.kind = .illegal := by
  rcases h with rfl | rfl | rfl | rfl <;>
    rw [readFrom_of_other (by decide) (by decide) (by decide)]

/-- What is read at the front of a text is its first token by the rule. -/
theorem munches_readFrom {c : Char} (hc : ¬ IsBlankCharacter c) (rest : List Char) :
    Munches (c :: rest) (Token.readFrom c rest).1 (Token.readFrom c rest).2 := by
  rcases lexeme_readFrom c rest with hlexeme | hillegal
  · have hmunches : Munches _ _ (Token.readFrom c rest).2 :=
      .lexeme hlexeme fun other longer hother hfront =>
        (hother.length_le (Token.readFrom_append c rest ▸ hfront)).2
    rwa [Token.readFrom_append, String.ofList_toList] at hmunches
  · rw [hillegal]
    refine .illegal hc fun kind literal hlexeme hfront => ?_
    exact (hlexeme.length_le hfront).1 (by rw [hillegal])

/-- The rule leaves no choice: what it gives as the first token is what is read. -/
theorem Munches.readFrom_eq {text after : List Char} {token : Token}
    (h : Munches text token after) :
    ∃ c rest, text = c :: rest ∧ ¬ IsBlankCharacter c ∧ Token.readFrom c rest = (token, after) := by
  cases h with
  | @lexeme kind literal after hlexeme hlongest =>
      obtain ⟨c, tail, rfl⟩ := List.exists_cons_of_ne_nil hlexeme.ne_nil
      have hfront : c :: tail <+: c :: (tail ++ after) := ⟨after, rfl⟩
      obtain ⟨hlegal, hle⟩ := hlexeme.length_le hfront
      refine ⟨c, tail ++ after, rfl,
        fun hblank => hlegal (Token.kind_readFrom_of_isBlankCharacter hblank _), ?_⟩
      have hread : Lexeme (Token.readFrom c (tail ++ after)).1.kind
          (Token.readFrom c (tail ++ after)).1.literal.toList :=
        (lexeme_readFrom c (tail ++ after)).resolve_right fun hillegal =>
          hlegal (by rw [hillegal])
      have hwhole := Token.readFrom_append c (tail ++ after)
      have hge := hlongest _ _ hread ⟨_, hwhole⟩
      -- Both texts are the front of one text, and neither is longer than the other.
      obtain ⟨hliteral, hrest⟩ := List.append_inj (hwhole.trans (List.cons_append).symm)
        (Nat.le_antisymm hge hle)
      have hkind := hlexeme.kind_unique (hliteral ▸ hread)
      have htoken : (Token.readFrom c (tail ++ after)).1 = ⟨kind, String.ofList (c :: tail)⟩ := by
        rw [hkind, ← hliteral, String.ofList_toList]
      exact Prod.ext htoken hrest
  | @illegal c after hc hnone =>
      refine ⟨c, after, rfl, hc, ?_⟩
      rcases lexeme_readFrom c after with hlexeme | hillegal
      · exact absurd ⟨_, Token.readFrom_append c after⟩ (hnone _ _ hlexeme)
      · exact hillegal

/-- The tokens of a text are the ones that the rule gives, and the blanks between them are
those that stand there. -/
theorem exists_munched (text : List Char) :
    ∃ pieces last, Munched text pieces last ∧ pieces.map Piece.token = Token.list text := by
  induction hsize : text.length using Nat.strongRecOn generalizing text with
  | ind size ih =>
      have hblanks : ∀ c ∈ text.takeWhile isBlank, IsBlankCharacter c :=
        forall_isBlankCharacter_of_all List.all_takeWhile
      have hwhole : text.takeWhile isBlank ++ text.dropWhile isBlank = text :=
        List.takeWhile_append_dropWhile
      cases hdrop : text.dropWhile isBlank with
      | nil =>
          rw [hdrop, List.append_nil] at hwhole
          rw [hwhole] at hblanks
          exact ⟨[], text, .done hblanks, (Token.list_of_dropWhile_eq_nil hdrop).symm⟩
      | cons c rest =>
          have hshort : (Token.readFrom c rest).2.length < text.length :=
            Token.next?_length (by rw [Token.next?, hdrop])
          obtain ⟨pieces, last, hmunched, hpieces⟩ := ih _ (hsize ▸ hshort) _ rfl
          rw [hdrop] at hwhole
          have hmore := Munched.more hblanks
            (munches_readFrom (not_isBlankCharacter_of_dropWhile hdrop) rest) hmunched
          rw [hwhole] at hmore
          refine ⟨_, last, hmore, ?_⟩
          rw [List.map_cons, hpieces, Token.list_of_dropWhile_eq_cons hdrop]

/-- The blanks at the front of a text decide where the rule cuts it first, and the token
that is read there decides where it goes on. -/
theorem Munched.inversion {text last : List Char} {pieces : List Piece}
    (h : Munched text pieces last) :
    text.dropWhile isBlank = [] ∧ pieces = [] ∧ last = text ∨
      ∃ c rest behind, text.dropWhile isBlank = c :: rest ∧
        pieces = ⟨text.takeWhile isBlank, (Token.readFrom c rest).1⟩ :: behind ∧
        Munched (Token.readFrom c rest).2 behind last := by
  cases h with
  | done hlast =>
      have hblanks : ∀ d ∈ text, isBlank d = true :=
        fun d hd => isBlank_eq_true_iff.mpr (hlast d hd)
      have hend : ∀ next, ([] : List Char).head? = some next → isBlank next = false :=
        fun next hnext => by cases hnext
      have hdrop := (run_append_of_end hblanks hend).2
      rw [List.append_nil] at hdrop
      exact .inl ⟨hdrop, rfl, rfl⟩
  | @more blanks text rest last token behind hblanks hfirst hbehind =>
      obtain ⟨c, tail, rfl, hc, hread⟩ := hfirst.readFrom_eq
      have hblanks : ∀ d ∈ blanks, isBlank d = true :=
        fun d hd => isBlank_eq_true_iff.mpr (hblanks d hd)
      have hend : ∀ next, (c :: tail).head? = some next → isBlank next = false := by
        intro next hnext
        rw [← Option.some.inj hnext]
        rwa [← isBlank_eq_true_iff, Bool.not_eq_true] at hc
      obtain ⟨htake, hdrop⟩ := run_append_of_end hblanks hend
      exact .inr ⟨c, tail, behind, hdrop, by rw [htake, hread], by rwa [hread]⟩

/-- A text can be cut in one way only. -/
theorem Munched.unique {text last last' : List Char} {pieces pieces' : List Piece}
    (h : Munched text pieces last) (h' : Munched text pieces' last') :
    pieces' = pieces ∧ last' = last := by
  induction hsize : text.length using Nat.strongRecOn generalizing text pieces pieces' with
  | ind size ih =>
      rcases h.inversion with ⟨hnil, rfl, rfl⟩ | ⟨c, rest, behind, hdrop, rfl, hbehind⟩
      · rcases h'.inversion with ⟨_, rfl, rfl⟩ | ⟨c, rest, behind, hdrop, _, _⟩
        · exact ⟨rfl, rfl⟩
        · rw [hdrop] at hnil
          cases hnil
      · rcases h'.inversion with ⟨hnil, _, _⟩ | ⟨c', rest', behind', hdrop', rfl, hbehind'⟩
        · rw [hdrop] at hnil
          cases hnil
        · rw [hdrop] at hdrop'
          obtain ⟨rfl, rfl⟩ := List.cons_eq_cons.mp hdrop'
          have hshort : (Token.readFrom c rest).2.length < text.length :=
            Token.next?_length (by rw [Token.next?, hdrop])
          obtain ⟨rfl, rfl⟩ := ih _ (hsize ▸ hshort) hbehind hbehind' rfl
          exact ⟨rfl, rfl⟩

/-- The token list of every source is cut out of it by the rule of the longest lexeme: the
source is the texts of the tokens with only blanks between them, before them and behind
them, each token is the longest lexeme where it stands or one illegal character, and no
other list of tokens is like that. The end-of-input token comes behind all others. -/
theorem Scanner.tokenize_munches (source : String) :
    ∃ (pieces : List Piece) (last : List Char),
      (Scanner.ofSource source).tokenize.1 =
        pieces.map Piece.token ++ [⟨.endOfInput, ""⟩] ∧
      (∀ piece ∈ pieces, piece.token.kind ≠ .endOfInput) ∧
      source.toList = (pieces.map Piece.text).flatten ++ last ∧
      (∀ piece ∈ pieces, ∀ c ∈ piece.blanks, IsBlankCharacter c) ∧
      (∀ c ∈ last, IsBlankCharacter c) ∧
      ∀ pieces' last', Munched source.toList pieces' last' ↔ pieces' = pieces ∧ last' = last := by
  obtain ⟨pieces, last, hmunched, hpieces⟩ := exists_munched source.toList
  refine ⟨pieces, last, ?_, ?_, hmunched.text_eq.symm, hmunched.blanks.1, hmunched.blanks.2, ?_⟩
  · rw [hpieces]
    rfl
  · intro piece hmem
    have hsource : piece.token ∈ Token.ofSource source := by
      rw [Token.ofSource, ← hpieces]
      exact List.mem_map_of_mem hmem
    exact Token.kind_ne_endOfInput_of_mem_ofSource hsource
  · intro pieces' last'
    constructor
    · exact hmunched.unique
    · rintro ⟨rfl, rfl⟩
      exact hmunched

end MonkeyFrontend
