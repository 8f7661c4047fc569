import MonkeyFrontend.Token

/-!
# Reading tokens from text

How one token is read off the front of a text, and from that the whole
token list of a source. Everything here is a function on lists of
characters; the position-keeping view of the same process is
`MonkeyFrontend.Scanner`.

All three character classes are ASCII only, because the language is: a
letter or digit of another script begins no token and is read as an
`illegal` token of one character.

## Main results

* `splitWord_append`, `splitNumber_append` — the two readers of variable
  length cut their text in two and lose nothing.
* `Token.readFrom_append` — a token's literal, followed by what remains, is
  the text that the token was read from.
* `Token.list_eq` — the equation by which the token list of a text unfolds,
  one token at a time.
-/

namespace MonkeyFrontend

/-! ## Character classes -/

/-- The characters that separate tokens and belong to none. -/
def isBlank (c : Char) : Bool :=
  c == ' ' || c == '\t' || c == '\r' || c == '\n'

/-- The characters of words. Digits are not among them. -/
def isLetter (c : Char) : Bool :=
  c.isAlpha || c == '_'

/-- The characters of numbers. -/
def isDigit (c : Char) : Bool :=
  c.isDigit

/-! ## Words and numbers -/

/-- Cuts a text after its longest leading word, which may be empty. -/
def splitWord (text : List Char) : List Char × List Char :=
  (text.takeWhile isLetter, text.dropWhile isLetter)

/-- Cuts a text after its longest leading number: digits and, where a point
follows them, that point and the digits after it. The cut looks at nothing
else, so a text that begins with a point has a number without digits before
the point. -/
def splitNumber (text : List Char) : List Char × List Char :=
  match text.dropWhile isDigit with
  | '.' :: rest =>
    (text.takeWhile isDigit ++ '.' :: rest.takeWhile isDigit, rest.dropWhile isDigit)
  | rest => (text.takeWhile isDigit, rest)

theorem splitWord_append (text : List Char) :
    (splitWord text).1 ++ (splitWord text).2 = text :=
  List.takeWhile_append_dropWhile

theorem splitNumber_append (text : List Char) :
    (splitNumber text).1 ++ (splitNumber text).2 = text := by
  have whole : text.takeWhile isDigit ++ text.dropWhile isDigit = text :=
    List.takeWhile_append_dropWhile
  unfold splitNumber
  split
  next rest found =>
    rw [found] at whole
    simpa using whole
  next => exact whole

/-- A number that begins with a digit takes that digit, so it shortens its text. -/
theorem splitNumber_length_lt {c : Char} {rest : List Char} (h : isDigit c = true) :
    (splitNumber (c :: rest)).2.length ≤ rest.length := by
  have drops : (c :: rest).dropWhile isDigit = rest.dropWhile isDigit :=
    List.dropWhile_cons_of_pos h
  unfold splitNumber
  rw [drops]
  have := (List.dropWhile_sublist isDigit (l := rest)).length_le
  split
  next tail found =>
    rw [found] at this
    have := (List.dropWhile_sublist isDigit (l := tail)).length_le
    simp only [List.length_cons] at *
    omega
  next => exact this

/-- A word that begins with a letter takes that letter, so it shortens its text. -/
theorem splitWord_length_lt {c : Char} {rest : List Char} (h : isLetter c = true) :
    (splitWord (c :: rest)).2.length ≤ rest.length := by
  rw [splitWord, List.dropWhile_cons_of_pos h]
  exact (List.dropWhile_sublist isLetter).length_le

namespace Token

/-! ## One token -/

/-- Reads the token that begins with `c`, where `rest` is the text after
`c`, and gives it together with the text after the token. -/
def readFrom (c : Char) (rest : List Char) : Token × List Char :=
  match c, rest with
  | '=', '=' :: rest => (⟨.equal, "=="⟩, rest)
  | '!', '=' :: rest => (⟨.notEqual, "!="⟩, rest)
  | c, rest =>
    match Kind.ofSymbol? c with
    | some kind => (⟨kind, c.toString⟩, rest)
    | none =>
      if isLetter c then
        let (word, rest) := splitWord (c :: rest)
        (⟨Kind.ofWord (String.ofList word), String.ofList word⟩, rest)
      else if isDigit c then
        let (number, rest) := splitNumber (c :: rest)
        (⟨.number, String.ofList number⟩, rest)
      else
        (⟨.illegal, c.toString⟩, rest)

theorem readFrom_append (c : Char) (rest : List Char) :
    (readFrom c rest).1.literal.toList ++ (readFrom c rest).2 = c :: rest := by
  unfold readFrom
  split
  · simp
  · simp
  · split
    · simp [Char.toString]
    · split
      · simpa using splitWord_append (c :: rest)
      · split
        · simpa using splitNumber_append (c :: rest)
        · simp [Char.toString]

theorem readFrom_length (c : Char) (rest : List Char) :
    (readFrom c rest).2.length ≤ rest.length := by
  unfold readFrom
  split
  · simp
  · simp
  · split
    · simp
    · split
      next letter => exact splitWord_length_lt letter
      next =>
        split
        next digit => exact splitNumber_length_lt digit
        next => simp

/-- The next token of a text, after any blanks, and the text after it.
There is none when only blanks are left. -/
def next? (text : List Char) : Option (Token × List Char) :=
  match text.dropWhile isBlank with
  | [] => none
  | c :: rest => some (readFrom c rest)

theorem next?_length {text rest : List Char} {token : Token}
    (h : next? text = some (token, rest)) : rest.length < text.length := by
  unfold next? at h
  have shorter := (List.dropWhile_sublist isBlank (l := text)).length_le
  split at h
  · cases h
  next c tail found =>
    have := readFrom_length c tail
    rw [Option.some.inj h] at this
    rw [found, List.length_cons] at shorter
    exact Nat.lt_of_le_of_lt this shorter

/-! ## All tokens -/

/-- The tokens of a text in order. The end of the input is not among them. -/
def list (text : List Char) : List Token :=
  match _h : next? text with
  | none => []
  | some (token, rest) => token :: list rest
termination_by text.length
decreasing_by exact next?_length _h

theorem list_eq (text : List Char) :
    list text =
      match next? text with
      | none => []
      | some (token, rest) => token :: list rest := by
  rw [list]
  split <;> simp_all

/-- The tokens of a source text. -/
def ofSource (source : String) : List Token :=
  list source.toList

end Token

end MonkeyFrontend
