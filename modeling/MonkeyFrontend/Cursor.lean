import MonkeyFrontend.Token.Reading

/-!
# Cursors

A cursor is a place in a list of tokens together with the number of braces
that are open there. Reading past the end gives the end-of-input token
forever, so `current` and `peek` are total.

The brace count is the cursor's own and knows nothing of the grammar: it
goes up when the cursor passes an opening brace, and down when it passes a
closing one, but never below zero. It is what error recovery steers by.

## Main results

* `Reaches.trans` — cursors only move forward: what is reached from a place
  that is reached is reached.
* `Reaches.size_le` — moving forward leaves no more tokens than there were.
* `size_advance_lt` — passing a token that is there leaves fewer.
* `reaches_skip`, `reaches_skipAt` — recovery is a move forward.
-/

namespace MonkeyFrontend

/-- A place in a list of tokens. -/
structure Cursor where
  /-- The tokens from this place on. -/
  tokens : List Token
  /-- The number of braces that are open at this place. -/
  depth : Nat
deriving DecidableEq

namespace Cursor

/-- The place before the first token. -/
def ofTokens (tokens : List Token) : Cursor := ⟨tokens, 0⟩

/-- The place before the first token of a source text. -/
def ofSource (source : String) : Cursor := ofTokens (Token.ofSource source)

/-! ## Looking -/

/-- The token at this place. -/
def current (cursor : Cursor) : Token :=
  cursor.tokens.headD .endOfInput

/-- The token after the one at this place. -/
def peek (cursor : Cursor) : Token :=
  cursor.tokens.tail.headD .endOfInput

/-- The number of tokens that are left. -/
def size (cursor : Cursor) : Nat :=
  cursor.tokens.length

/-! ## Moving -/

/-- The number of open braces after a token, from the number before it. -/
def depthAfter (depth : Nat) (token : Token) : Nat :=
  match token.kind with
  | .openBrace => depth + 1
  | .closeBrace => depth - 1
  | _ => depth

/-- Passes the current token. At the end there is nothing to pass. -/
def advance (cursor : Cursor) : Cursor :=
  ⟨cursor.tokens.tail, depthAfter cursor.depth cursor.current⟩

/-- Passes a number of tokens. -/
def advanceBy : Nat → Cursor → Cursor
  | 0, cursor => cursor
  | count + 1, cursor => advanceBy count cursor.advance

/-- A cursor reaches the places at and after its own. -/
def Reaches (start finish : Cursor) : Prop :=
  ∃ count, finish = start.advanceBy count

theorem advanceBy_add (first second : Nat) (cursor : Cursor) :
    cursor.advanceBy (first + second) = (cursor.advanceBy first).advanceBy second := by
  induction first generalizing cursor with
  | zero => rw [Nat.zero_add]; rfl
  | succ count ih => rw [Nat.add_right_comm]; exact ih cursor.advance

theorem Reaches.refl (cursor : Cursor) : cursor.Reaches cursor := ⟨0, rfl⟩

theorem Reaches.trans {a b c : Cursor} (hab : a.Reaches b) (hbc : b.Reaches c) : a.Reaches c := by
  obtain ⟨first, rfl⟩ := hab
  obtain ⟨second, rfl⟩ := hbc
  exact ⟨first + second, (advanceBy_add first second a).symm⟩

theorem reaches_advance (cursor : Cursor) : cursor.Reaches cursor.advance := ⟨1, rfl⟩

/-! ## Sizes -/

@[simp] theorem size_advance (cursor : Cursor) : cursor.advance.size = cursor.size - 1 := by
  simp [size, advance]

theorem size_advanceBy (count : Nat) (cursor : Cursor) :
    (cursor.advanceBy count).size = cursor.size - count := by
  induction count generalizing cursor with
  | zero => rfl
  | succ count ih =>
    rw [advanceBy, ih, size_advance]
    omega

theorem size_advance_lt {cursor : Cursor} (h : cursor.tokens ≠ []) :
    cursor.advance.size < cursor.size := by
  have := List.length_pos_iff.mpr h
  rw [size_advance]
  exact Nat.sub_lt this Nat.one_pos

theorem Reaches.size_le {a b : Cursor} (h : a.Reaches b) : b.size ≤ a.size := by
  obtain ⟨count, rfl⟩ := h
  rw [size_advanceBy]
  exact Nat.sub_le _ _

/-! ## Recovery -/

/-- Whether a broken statement that began at brace depth `home` ends at a
token that stands at brace depth `depth`: at a semicolon of its own depth,
or at the brace that closes the block around it. Braces that it opened
itself lie deeper and are passed over. -/
def endsStatement (home depth : Nat) (token : Token) : Bool :=
  depth == home && (token.kind == .semicolon || token.kind == .closeBrace && 0 < home)

/-- The place where a broken statement ends that began at brace depth
`home`. Where no token ends it, that is the end of the input. -/
def skip (home : Nat) (cursor : Cursor) : Cursor :=
  go cursor.tokens cursor.depth
where
  /-- Looks for the end in the tokens that are left. -/
  go : List Token → Nat → Cursor
    | [], depth => ⟨[], depth⟩
    | token :: rest, depth =>
      if endsStatement home depth token then ⟨token :: rest, depth⟩
      else go rest (depthAfter depth token)

/-- The same for a depth that may be any integer. No token stands at a depth below zero, so there
everything is passed. -/
def skipAt : Int → Cursor → Cursor
  | .ofNat home, cursor => cursor.skip home
  | .negSucc _, cursor => cursor.advanceBy cursor.size

theorem skip_cons (home depth : Nat) (token : Token) (rest : List Token) :
    skip home ⟨token :: rest, depth⟩ =
      if endsStatement home depth token then ⟨token :: rest, depth⟩
      else skip home ⟨rest, depthAfter depth token⟩ := rfl

theorem reaches_skip (home : Nat) (cursor : Cursor) : cursor.Reaches (cursor.skip home) := by
  obtain ⟨tokens, depth⟩ := cursor
  induction tokens generalizing depth with
  | nil => exact .refl _
  | cons token rest ih =>
    rw [skip_cons]
    split
    · exact .refl _
    · exact (reaches_advance ⟨token :: rest, depth⟩).trans (ih (depthAfter depth token))

theorem reaches_skipAt (home : Int) (cursor : Cursor) : cursor.Reaches (cursor.skipAt home) := by
  cases home with
  | ofNat home => exact reaches_skip home cursor
  | negSucc _ => exact ⟨cursor.size, rfl⟩

end Cursor

end MonkeyFrontend
