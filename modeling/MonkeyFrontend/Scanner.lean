import MonkeyFrontend.Token.Reading

/-!
# Scanners

A scanner is a place in a source text: how many characters have been
passed, the position after that, and the text that is left. Tokens can be
drawn from it one at a time, lazily through a `Walk`, or all at once, in any
mixture, and the single-character operations that tokens are made of are
available too.

Everything moves a scanner by single steps (`step`, `stepBy`). The two
positions are kept beside the remaining text and not derived from it,
because `step` goes on counting when no text is left.

## Main results

* `stepBy_add`, `rest_stepBy` — steps in a row, and what they leave of the text.
* `next_of_none` and `next_of_next?` — drawing a token is `Token.next?` on
  the remaining text.
-/

namespace MonkeyFrontend

/-- A place in a source text. -/
structure Scanner where
  /-- The number of characters passed. -/
  position : Nat
  /-- The position that the next step leads to. -/
  nextPosition : Nat
  /-- The characters that are left. -/
  rest : List Char
deriving DecidableEq

namespace Scanner

/-- The place before the first character of a source. -/
def ofSource (source : String) : Scanner :=
  ⟨0, 1, source.toList⟩

/-! ## Single characters -/

/-- The character at this place, unless the text has ended. -/
def current? (scanner : Scanner) : Option Char :=
  scanner.rest.head?

/-- The character after the one at this place. -/
def lookahead? (scanner : Scanner) : Option Char :=
  scanner.rest.tail.head?

/-- Passes one character. Past the end of the text the position still moves. -/
def step (scanner : Scanner) : Scanner :=
  ⟨scanner.nextPosition, scanner.nextPosition + 1, scanner.rest.tail⟩

/-- Passes a number of characters, one after the other. -/
def stepBy : Nat → Scanner → Scanner
  | 0, scanner => scanner
  | count + 1, scanner => stepBy count scanner.step

theorem stepBy_add (first second : Nat) (scanner : Scanner) :
    scanner.stepBy (first + second) = (scanner.stepBy first).stepBy second := by
  induction first generalizing scanner with
  | zero => rw [Nat.zero_add]; rfl
  | succ count ih => rw [Nat.add_right_comm]; exact ih scanner.step

@[simp] theorem rest_stepBy (count : Nat) (scanner : Scanner) :
    (scanner.stepBy count).rest = scanner.rest.drop count := by
  induction count generalizing scanner with
  | zero => rfl
  | succ count ih => rw [stepBy, ih, step, List.drop_tail]

/-! ## Runs of characters -/

/-- Passes blanks up to the first character that is none. -/
def skipBlanks (scanner : Scanner) : Scanner :=
  scanner.stepBy (scanner.rest.takeWhile isBlank).length

/-- Passes the word at this place, possibly empty, and gives its text. -/
def word (scanner : Scanner) : String × Scanner :=
  let word := (splitWord scanner.rest).1
  (String.ofList word, scanner.stepBy word.length)

/-- Passes the number at this place, possibly empty, and gives its text. -/
def number (scanner : Scanner) : String × Scanner :=
  let number := (splitNumber scanner.rest).1
  (String.ofList number, scanner.stepBy number.length)

/-! ## Tokens -/

/-- Draws the next token. At the end of the text that is the
end-of-input token, as often as it is asked for. -/
def next (scanner : Scanner) : Token × Scanner :=
  let scanner := scanner.skipBlanks
  match scanner.rest with
  | [] => (.endOfInput, scanner)
  | c :: rest =>
    let token := (Token.readFrom c rest).1
    (token, scanner.stepBy token.literal.length)

/-- Draws all remaining tokens and the end-of-input token after them. -/
def tokenize (scanner : Scanner) : List Token × Scanner :=
  (Token.list scanner.rest ++ [.endOfInput], scanner.stepBy scanner.rest.length)

/-- Draws a given number of tokens. -/
def take : Nat → Scanner → List Token × Scanner
  | 0, scanner => ([], scanner)
  | count + 1, scanner =>
    let (token, scanner) := scanner.next
    let (tokens, scanner) := take count scanner
    (token :: tokens, scanner)

/-! ### What is left behind a draw -/

/-- Behind a text that is read the text is left that follows it. -/
theorem rest_stepBy_of_append {scanner : Scanner} {read left : List Char}
    (h : read ++ left = scanner.rest) : (scanner.stepBy read.length).rest = left := by
  rw [rest_stepBy, ← h, List.drop_left]

theorem rest_skipBlanks (scanner : Scanner) :
    scanner.skipBlanks.rest = scanner.rest.dropWhile isBlank :=
  rest_stepBy_of_append List.takeWhile_append_dropWhile

theorem next_of_none {scanner : Scanner} (h : Token.next? scanner.rest = none) :
    scanner.next.1 = .endOfInput ∧ scanner.next.2.rest = [] := by
  unfold Token.next? at h
  rw [← rest_skipBlanks] at h
  unfold next
  split at h
  next found =>
    simp [found]
  · cases h

theorem next_of_next? {scanner : Scanner} {token : Token} {rest : List Char}
    (h : Token.next? scanner.rest = some (token, rest)) :
    scanner.next.1 = token ∧ scanner.next.2.rest = rest := by
  unfold Token.next? at h
  rw [← rest_skipBlanks] at h
  unfold next
  split at h
  · cases h
  next c tail found =>
    simp only [found]
    have hread := Token.readFrom_append c tail
    rw [Option.some.inj h, ← found] at hread
    rw [Option.some.inj h, ← String.length_toList]
    exact ⟨rfl, rest_stepBy_of_append hread⟩

/-! ## Lazy walks -/

/-- A lazy walk over the tokens of a scanner, which other users of the
scanner may move in between. It ends with the first end-of-input token that
it draws itself. -/
structure Walk where
  /-- Whether the walk has drawn its end-of-input token. -/
  finished : Bool
deriving DecidableEq

namespace Walk

/-- A walk that has drawn nothing. -/
def start : Walk := ⟨false⟩

/-- The walk's next token, unless the walk has finished. -/
def next? (walk : Walk) (scanner : Scanner) : Option Token × Walk × Scanner :=
  if walk.finished then
    (none, walk, scanner)
  else
    let (token, scanner) := scanner.next
    (some token, ⟨token.kind == .endOfInput⟩, scanner)

end Walk

end Scanner

end MonkeyFrontend
