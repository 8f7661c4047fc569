import MonkeyFrontend.Scanner

/-!
# Windows

A window shows two neighbouring tokens of a text and holds the scanner that
will draw the ones behind them. When it advances, the second token becomes
the first one, and the scanner is asked for another. At the end of the text
a window goes on showing the end-of-input token.

A window counts the braces that are open in front of its first token. A
closing brace closes nothing where no brace is open.

## Main results

* `Reaches.trans` — windows only move forward: what is reached from a place that is reached is
  reached.
* `left_advance_lt` — a window that passes a token comes closer to the end.
-/

namespace MonkeyFrontend

/-- Two neighbouring tokens of a text and what lies behind them. -/
structure Window where
  /-- What draws the tokens behind the two. -/
  scanner : Scanner
  /-- The first of the two tokens. -/
  current : Token
  /-- The token after it. -/
  peek : Token
  /-- The number of braces that are open in front of the two. -/
  depth : Int
deriving DecidableEq

/-- The number of open braces behind a token, from the number in front of it. -/
def bracesBehind (depth : Int) (token : Token) : Int :=
  if token.kind = .openBrace then depth + 1
  else if token.kind = .closeBrace ∧ 0 < depth then depth - 1
  else depth

namespace Window

/-- The window over the next two tokens of a scanner. -/
def ofScanner (scanner : Scanner) : Window :=
  let first := scanner.next
  let second := first.2.next
  ⟨second.2, first.1, second.1, 0⟩

/-- The window over the first two tokens of a source. -/
def ofSource (source : String) : Window := ofScanner (.ofSource source)

/-! ## Moving -/

/-- Passes the first token. -/
def advance (window : Window) : Window :=
  let drawn := window.scanner.next
  ⟨drawn.2, window.peek, drawn.1, bracesBehind window.depth window.current⟩

/-- Passes a number of tokens. -/
def advanceBy : Nat → Window → Window
  | 0, window => window
  | count + 1, window => advanceBy count window.advance

/-- A window reaches the places at and after its own. -/
def Reaches (start finish : Window) : Prop :=
  ∃ count, finish = start.advanceBy count

theorem advanceBy_add (first second : Nat) (window : Window) :
    window.advanceBy (first + second) = (window.advanceBy first).advanceBy second := by
  induction first generalizing window with
  | zero => rw [Nat.zero_add]; rfl
  | succ count ih => rw [Nat.add_right_comm]; exact ih window.advance

theorem Reaches.refl (window : Window) : window.Reaches window := ⟨0, rfl⟩

theorem Reaches.trans {a b c : Window} (hab : a.Reaches b) (hbc : b.Reaches c) : a.Reaches c := by
  obtain ⟨first, rfl⟩ := hab
  obtain ⟨second, rfl⟩ := hbc
  exact ⟨first + second, (advanceBy_add first second a).symm⟩

theorem reaches_advance (window : Window) : window.Reaches window.advance := ⟨1, rfl⟩

/-! ## The tokens that are left -/

/-- A token counts if it is not the end of the input. -/
def weight (token : Token) : Nat :=
  if token.kind = .endOfInput then 0 else 1

/-- A number that the tokens from the first one on do not exceed: each of those that are still to
be drawn takes a character at least. -/
def left (window : Window) : Nat :=
  weight window.current + weight window.peek + window.scanner.rest.length

/-- A token that is drawn takes a character, unless it is the end of the input. -/
theorem weight_next_le (scanner : Scanner) :
    weight scanner.next.1 + scanner.next.2.rest.length ≤ scanner.rest.length := by
  cases hnext : Token.next? scanner.rest with
  | none =>
    obtain ⟨htoken, hrest⟩ := Scanner.next_of_none hnext
    rw [htoken, hrest]
    exact Nat.zero_le _
  | some read =>
    obtain ⟨_, hrest⟩ := Scanner.next_of_next? hnext
    have hshort := Token.next?_length hnext
    rw [hrest]
    unfold weight
    split <;> omega

theorem left_advance_lt {window : Window} (h : window.current.kind ≠ .endOfInput) :
    window.advance.left < window.left := by
  have hnext := weight_next_le window.scanner
  have hcurrent : weight window.current = 1 := if_neg h
  show weight window.peek + weight window.scanner.next.1 + window.scanner.next.2.rest.length < _
  unfold left
  omega

/-! ## Recovery -/

/-- Whether a broken statement that began at brace depth `home` ends at the first token: at a
semicolon of its own depth, or at the brace that closes the block around it. Braces that it opened
itself lie deeper and are passed over. -/
def endsStatement (home : Int) (window : Window) : Bool :=
  window.depth == home &&
    (window.current.kind == .semicolon || window.current.kind == .closeBrace && 0 < home)

/-- The place where a broken statement ends that began at brace depth
`home`. Where no token ends it, that is the end of the input. -/
def skip (home : Int) (window : Window) : Window :=
  if window.current.kind = .endOfInput then window
  else if window.endsStatement home then window
  else skip home window.advance
termination_by window.left
decreasing_by exact left_advance_lt ‹_›

theorem reaches_skip (home : Int) (window : Window) : window.Reaches (window.skip home) := by
  fun_induction skip home window with
  | case1 => exact .refl _
  | case2 => exact .refl _
  | case3 window _ _ ih => exact (reaches_advance window).trans ih

end Window

end MonkeyFrontend
