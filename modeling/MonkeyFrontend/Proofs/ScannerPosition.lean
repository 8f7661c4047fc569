import MonkeyFrontend.Scanner

/-!
# Scanners are their positions

A scanner has no memory of how it came to where it stands. Its next position is the one behind its
position, and its remaining text is what the source has from its position on (`Scanner.StandsIn`),
whatever mixture of tokens, walks and single characters has moved it there, also far behind the end
of the text. So what is drawn from it next
is what is drawn from a new scanner over the rest of the source.

The tokens of a source make an endless row, `Token.row`: the end of the input goes on forever
behind the last token. As long as a scanner is only moved by drawing tokens, it stands in front
of an index of that row, and each use hands out the tokens from there on and leaves it in
front of the next index (`Scanner.Awaits.handsOut`). Walks over one scanner, its own tokens and whole
lists of tokens can therefore be mixed, and no token gets lost or is handed out twice.

## Main results

* `Scanner.StandsIn.use` — the position of a scanner says what is left of its text.
* `Scanner.Awaits.handsOut` — a draw hands out the next tokens of the row.
* `Scanner.interleaved_uses` — uses of a scanner in any mixture.
-/

namespace MonkeyFrontend

/-! ## The endless row of tokens -/

namespace Token

/-- The tokens of a source by their indices, and the end of the input at all indices behind them. -/
def row (source : String) (index : Nat) : Token :=
  (Scanner.ofSource source).tokenize.1.getD index .endOfInput

/-- The same row, of a text that is left. -/
def rowFrom (text : List Char) (index : Nat) : Token :=
  (list text).getD index .endOfInput

theorem getD_append_endOfInput (tokens : List Token) (index : Nat) :
    (tokens ++ [endOfInput]).getD index endOfInput = tokens.getD index endOfInput := by
  induction tokens generalizing index with
  | nil => cases index <;> rfl
  | cons token rest ih =>
      cases index with
      | zero => rfl
      | succ index => exact ih index

theorem row_eq_rowFrom (source : String) : row source = rowFrom source.toList :=
  funext (getD_append_endOfInput (ofSource source))

/-- The row of a text begins with its next token and goes on behind it. -/
theorem rowFrom_of_next? {text rest : List Char} {token : Token}
    (h : next? text = some (token, rest)) (index : Nat) :
    rowFrom text 0 = token ∧ rowFrom text (index + 1) = rowFrom rest index := by
  unfold rowFrom
  rw [list_eq text, h]
  exact ⟨rfl, rfl⟩

/-- Behind the last token there is only the end of the input. -/
theorem rowFrom_of_length_le {text : List Char} {index : Nat}
    (h : (list text).length ≤ index) : rowFrom text index = endOfInput := by
  rw [rowFrom, List.getD_eq_getElem?_getD, List.getElem?_eq_none h]
  rfl

theorem rowFrom_of_none {text : List Char} (h : next? text = none) (index : Nat) :
    rowFrom text index = endOfInput := by
  have hnil : list text = [] := by
    rw [list_eq, h]
  exact rowFrom_of_length_le (hnil ▸ Nat.zero_le index)

theorem rowFrom_nil (index : Nat) : rowFrom [] index = endOfInput :=
  rowFrom_of_none rfl index

/-- The tokens of a text and one end of the input are a beginning of its row. -/
theorem list_append_endOfInput (text : List Char) :
    list text ++ [endOfInput] = (List.range ((list text).length + 1)).map (rowFrom text) := by
  apply List.ext_getElem
  · simp
  · intro index hindex _
    rw [List.getElem_map, List.getElem_range, rowFrom, ← getD_append_endOfInput,
      List.getD_eq_getElem?_getD, List.getElem?_eq_getElem hindex]
    rfl

end Token

namespace Scanner

/-! ## Positions -/

/-- What is left for a scanner is what the source has from its position on, and it goes on at the
position after that. -/
structure StandsIn (source : String) (scanner : Scanner) : Prop where
  nextPosition : scanner.nextPosition = scanner.position + 1
  rest : scanner.rest = source.toList.drop scanner.position

/-- A scanner passes some of the characters that are left for it. -/
def MovesTo (scanner after : Scanner) : Prop :=
  ∃ count ≤ scanner.rest.length, after = scanner.stepBy count

section Positions

variable {source : String} {scanner after : Scanner}

theorem standsIn_ofSource (source : String) : (ofSource source).StandsIn source := ⟨rfl, rfl⟩

theorem StandsIn.current? (h : scanner.StandsIn source) :
    scanner.current? = source.toList[scanner.position]? := by
  unfold Scanner.current?
  rw [h.rest, List.head?_drop]

theorem StandsIn.step (h : scanner.StandsIn source) : scanner.step.StandsIn source := by
  refine ⟨rfl, ?_⟩
  show scanner.rest.tail = source.toList.drop scanner.nextPosition
  rw [h.rest, h.nextPosition, List.tail_drop]

theorem StandsIn.stepBy (h : scanner.StandsIn source) (count : Nat) :
    (scanner.stepBy count).StandsIn source := by
  induction count generalizing scanner with
  | zero => exact h
  | succ count ih => exact ih h.step

theorem StandsIn.movesTo (h : scanner.StandsIn source) (hmoves : scanner.MovesTo after) :
    after.StandsIn source := by
  obtain ⟨count, _, rfl⟩ := hmoves
  exact h.stepBy count

theorem StandsIn.position_stepBy (h : scanner.StandsIn source) (count : Nat) :
    (scanner.stepBy count).position = scanner.position + count := by
  induction count generalizing scanner with
  | zero => rfl
  | succ count ih =>
      have hstep : scanner.step.position = scanner.position + 1 := h.nextPosition
      rw [Scanner.stepBy, ih h.step, hstep, Nat.add_assoc, Nat.add_comm 1 count]

theorem StandsIn.position_le (h : scanner.StandsIn source) (hmoves : scanner.MovesTo after) :
    scanner.position ≤ after.position := by
  obtain ⟨count, _, rfl⟩ := hmoves
  rw [h.position_stepBy]
  exact Nat.le_add_right _ _

/-- Nobody moves behind the end of the text in this way who has not been there. -/
theorem StandsIn.position_le_length (h : scanner.StandsIn source) (hmoves : scanner.MovesTo after)
    (hle : scanner.position ≤ source.toList.length) : after.position ≤ source.toList.length := by
  obtain ⟨count, hcount, rfl⟩ := hmoves
  rw [h.rest, List.length_drop] at hcount
  rw [h.position_stepBy]
  omega

end Positions

/-! ## What moves a scanner -/

theorem movesTo_refl (scanner : Scanner) : scanner.MovesTo scanner :=
  ⟨0, Nat.zero_le _, rfl⟩

/-- A text that stands in front of the rest can be passed. -/
theorem movesTo_of_append {scanner : Scanner} {read left : List Char}
    (h : read ++ left = scanner.rest) : scanner.MovesTo (scanner.stepBy read.length) :=
  ⟨read.length, h ▸ List.length_append ▸ Nat.le_add_right _ _, rfl⟩

theorem MovesTo.trans {first second third : Scanner} (h : first.MovesTo second)
    (h' : second.MovesTo third) : first.MovesTo third := by
  obtain ⟨count, hcount, rfl⟩ := h
  obtain ⟨more, hmore, rfl⟩ := h'
  rw [rest_stepBy, List.length_drop] at hmore
  exact ⟨count + more, by omega, (stepBy_add count more first).symm⟩

theorem movesTo_skipBlanks (scanner : Scanner) : scanner.MovesTo scanner.skipBlanks :=
  movesTo_of_append List.takeWhile_append_dropWhile

theorem movesTo_word (scanner : Scanner) : scanner.MovesTo scanner.word.2 :=
  movesTo_of_append (splitWord_append scanner.rest)

theorem movesTo_number (scanner : Scanner) : scanner.MovesTo scanner.number.2 :=
  movesTo_of_append (splitNumber_append scanner.rest)

theorem movesTo_tokenize (scanner : Scanner) : scanner.MovesTo scanner.tokenize.2 :=
  ⟨_, Nat.le_refl _, rfl⟩

theorem rest_tokenize (scanner : Scanner) : scanner.tokenize.2.rest = [] := by
  rw [tokenize, rest_stepBy, List.drop_length]

theorem movesTo_next (scanner : Scanner) : scanner.MovesTo scanner.next.2 := by
  have hblanks := movesTo_skipBlanks scanner
  cases hrest : scanner.skipBlanks.rest with
  | nil => simpa [next, hrest] using hblanks
  | cons c tail =>
      have hread := Token.readFrom_append c tail
      rw [← hrest] at hread
      simpa [next, hrest, String.length_toList] using hblanks.trans (movesTo_of_append hread)

/-! ## Drawing tokens -/

/-- The next token of a scanner begins the row of its text, and what is left behind the token
goes on with that row. -/
theorem rowFrom_next (scanner : Scanner) (index : Nat) :
    Token.rowFrom scanner.rest 0 = scanner.next.1 ∧
      Token.rowFrom scanner.rest (index + 1) = Token.rowFrom scanner.next.2.rest index := by
  cases hnext : Token.next? scanner.rest with
  | none =>
      obtain ⟨htoken, hrest⟩ := next_of_none hnext
      rw [htoken, hrest, Token.rowFrom_of_none hnext, Token.rowFrom_of_none hnext]
      exact ⟨rfl, (Token.rowFrom_nil index).symm⟩
  | some read =>
      obtain ⟨htoken, hrest⟩ := next_of_next? hnext
      rw [htoken, hrest]
      exact Token.rowFrom_of_next? hnext index

/-- Any number of tokens that are drawn are the first ones of the row. -/
theorem take_eq (count : Nat) (scanner : Scanner) :
    (scanner.take count).1 = (List.range count).map (Token.rowFrom scanner.rest) := by
  induction count generalizing scanner with
  | zero => rfl
  | succ count ih =>
      show scanner.next.1 :: (scanner.next.2.take count).1 = _
      rw [ih, List.range_succ_eq_map, List.map_cons, List.map_map, (rowFrom_next scanner 0).1]
      congr 1
      exact List.map_congr_left fun index _ => ((rowFrom_next scanner index).2).symm

/-! ## Uses of a scanner -/

/-- A scanner, and the walks over it that have been begun, the first one first. -/
structure Readers where
  scanner : Scanner
  walks : List Walk

/-- A way to draw tokens. -/
inductive Draw where
  /-- One token is drawn. -/
  | next
  /-- All tokens that are left are drawn. -/
  | tokenize
  /-- Another walk is begun, which draws nothing yet. -/
  | beginWalk
  /-- The walk with the given number goes on, if there is one. -/
  | goOn (number : Nat)

/-- An operation on single characters. -/
inductive Helper where
  | step
  | lookahead
  | skipBlanks
  | word
  | number

/-- Something that is done with a scanner. -/
inductive Use where
  | draw (draw : Draw)
  | helper (helper : Helper)

/-- Where a scanner is left by an operation on single characters. To look ahead moves nothing. -/
def Helper.move : Helper → Scanner → Scanner
  | .step, scanner => scanner.step
  | .lookahead, scanner => scanner
  | .skipBlanks, scanner => scanner.skipBlanks
  | .word, scanner => scanner.word.2
  | .number, scanner => scanner.number.2

namespace Readers

/-- A new scanner over a source, without walks. -/
def ofSource (source : String) : Readers :=
  ⟨.ofSource source, []⟩

/-- The tokens that are handed out in one way or another. -/
def draw (readers : Readers) : Draw → List Token × Readers
  | .next =>
    let (token, scanner) := readers.scanner.next
    ([token], { readers with scanner })
  | .tokenize =>
    let (tokens, scanner) := readers.scanner.tokenize
    (tokens, { readers with scanner })
  | .beginWalk => ([], { readers with walks := readers.walks ++ [.start] })
  | .goOn number =>
    match readers.walks[number]? with
    | none => ([], readers)
    | some walk =>
      let (token?, walk, scanner) := walk.next? readers.scanner
      (token?.toList, ⟨scanner, readers.walks.set number walk⟩)

/-- The tokens that are handed out by a use. -/
def use (readers : Readers) : Use → List Token × Readers
  | .draw draw => readers.draw draw
  | .helper helper => ([], { readers with scanner := helper.move readers.scanner })

/-- The tokens that are handed out by several uses in a row. -/
def useAll : Readers → List Use → List Token × Readers
  | readers, [] => ([], readers)
  | readers, first :: rest =>
    let (tokens, readers) := readers.use first
    let (more, readers) := readers.useAll rest
    (tokens ++ more, readers)

end Readers

/-! ### What a use can do -/

/-- What can come of a draw, whatever the way is: nothing is handed out and the scanner stays, or
its next token is handed out, or all that are left. -/
inductive HandsOut (scanner : Scanner) : List Token → Scanner → Prop where
  | nothing : HandsOut scanner [] scanner
  | one : HandsOut scanner [scanner.next.1] scanner.next.2
  | all : HandsOut scanner scanner.tokenize.1 scanner.tokenize.2

theorem handsOut_draw (readers : Readers) (way : Draw) :
    readers.scanner.HandsOut (readers.draw way).1 (readers.draw way).2.scanner := by
  cases way with
  | next => exact .one
  | tokenize => exact .all
  | beginWalk => exact .nothing
  | goOn number =>
      simp only [Readers.draw]
      cases readers.walks[number]? with
      | none => exact .nothing
      | some walk =>
          simp only [Walk.next?]
          split
          · exact .nothing
          · exact .one

theorem HandsOut.movesTo {scanner after : Scanner} {tokens : List Token}
    (h : scanner.HandsOut tokens after) : scanner.MovesTo after := by
  cases h with
  | nothing => exact movesTo_refl scanner
  | one => exact movesTo_next scanner
  | all => exact movesTo_tokenize scanner

/-- A use makes one step of one character, or it moves on in the text that is left. -/
theorem use_cases (readers : Readers) (use : Use) :
    (readers.use use).2.scanner = readers.scanner.step ∨
      readers.scanner.MovesTo (readers.use use).2.scanner := by
  cases use with
  | draw way => exact .inr (handsOut_draw readers way).movesTo
  | helper helper =>
      cases helper with
      | step => exact .inl rfl
      | lookahead => exact .inr (movesTo_refl _)
      | skipBlanks => exact .inr (movesTo_skipBlanks _)
      | word => exact .inr (movesTo_word _)
      | number => exact .inr (movesTo_number _)

/-! ### Positions after uses -/

section Uses

variable {source : String} {readers : Readers}

/-- A use keeps the position and the text that is left in step. -/
theorem StandsIn.use (h : readers.scanner.StandsIn source) (use : Use) :
    (readers.use use).2.scanner.StandsIn source := by
  rcases use_cases readers use with hstep | hmoves
  · exact hstep ▸ h.step
  · exact h.movesTo hmoves

theorem StandsIn.useAll (h : readers.scanner.StandsIn source) (uses : List Use) :
    (readers.useAll uses).2.scanner.StandsIn source := by
  induction uses generalizing readers with
  | nil => exact h
  | cons use rest ih => exact ih (h.use use)

theorem StandsIn.position_le_use (h : readers.scanner.StandsIn source) (use : Use) :
    readers.scanner.position ≤ (readers.use use).2.scanner.position := by
  rcases use_cases readers use with hstep | hmoves
  · rw [hstep]
    show readers.scanner.position ≤ readers.scanner.nextPosition
    exact h.nextPosition ▸ Nat.le_succ _
  · exact h.position_le hmoves

/-! ### Tokens after draws -/

/-- The first tokens of a source, as many as the count says, have been handed out, and the others
are still to come. -/
structure Awaits (source : String) (count : Nat) (scanner : Scanner) : Prop where
  standsIn : scanner.StandsIn source
  position_le : scanner.position ≤ source.toList.length
  row : ∀ index, Token.rowFrom scanner.rest index = Token.row source (count + index)

theorem awaits_ofSource (source : String) : (ofSource source).Awaits source 0 where
  standsIn := standsIn_ofSource source
  position_le := Nat.zero_le _
  row := fun index => by rw [Nat.zero_add, Token.row_eq_rowFrom, ofSource]

section Row

variable {count : Nat} {scanner after : Scanner}

theorem Awaits.map_rowFrom (h : scanner.Awaits source count) (more : Nat) :
    (List.range more).map (Token.rowFrom scanner.rest) =
      (List.range' count more).map (Token.row source) := by
  rw [List.range'_eq_map_range, List.map_map]
  exact List.map_congr_left fun index _ => h.row index

/-- The tokens that are still to come can be drawn one by one. -/
theorem Awaits.take (h : scanner.Awaits source count) (more : Nat) :
    (scanner.take more).1 = (List.range' count more).map (Token.row source) :=
  (take_eq more scanner).trans (h.map_rowFrom more)

theorem Awaits.next (h : scanner.Awaits source count) :
    scanner.next.1 = Token.row source count ∧ scanner.next.2.Awaits source (count + 1) := by
  have hmoves := movesTo_next scanner
  refine ⟨(rowFrom_next scanner 0).1.symm.trans (h.row 0), h.standsIn.movesTo hmoves,
    h.standsIn.position_le_length hmoves h.position_le, fun index => ?_⟩
  rw [← (rowFrom_next scanner index).2, h.row, Nat.add_comm index 1, Nat.add_assoc]

theorem Awaits.tokenize (h : scanner.Awaits source count) :
    ∃ more, scanner.tokenize.1 = (List.range' count more).map (Token.row source) ∧
      scanner.tokenize.2.Awaits source (count + more) := by
  have hmoves := movesTo_tokenize scanner
  refine ⟨_, (Token.list_append_endOfInput scanner.rest).trans (h.map_rowFrom _),
    h.standsIn.movesTo hmoves, h.standsIn.position_le_length hmoves h.position_le, fun index => ?_⟩
  -- Nothing is left, and behind its last token the row has nothing else either.
  have hbehind : (Token.list scanner.rest).length ≤
      (Token.list scanner.rest).length + 1 + index := by omega
  rw [Nat.add_assoc, ← h.row, Token.rowFrom_of_length_le hbehind, rest_tokenize]
  exact Token.rowFrom_nil index

/-- What is handed out comes next in the row of the source, and what is behind it is still to
come. -/
theorem Awaits.handsOut {tokens : List Token} (h : scanner.Awaits source count)
    (hout : scanner.HandsOut tokens after) :
    ∃ more, tokens = (List.range' count more).map (Token.row source) ∧
      after.Awaits source (count + more) := by
  cases hout with
  | nothing => exact ⟨0, rfl, h⟩
  | one => exact ⟨1, congrArg ([·]) h.next.1, h.next.2⟩
  | all => exact h.tokenize

end Row

/-- Several draws hand out what comes next in the row without a gap. -/
theorem Awaits.useAll {count : Nat} (h : readers.scanner.Awaits source count) (draws : List Draw) :
    ∃ more, (readers.useAll (draws.map .draw)).1 =
        (List.range' count more).map (Token.row source) ∧
      (readers.useAll (draws.map .draw)).2.scanner.Awaits source (count + more) := by
  induction draws generalizing readers count with
  | nil => exact ⟨0, rfl, h⟩
  | cons way rest ih =>
      obtain ⟨first, hfirst, hbehind⟩ := h.handsOut (handsOut_draw readers way)
      obtain ⟨others, hothers, hend⟩ := ih hbehind
      refine ⟨first + others, ?_, Nat.add_assoc _ _ _ ▸ hend⟩
      show (readers.draw way).1 ++ ((readers.draw way).2.useAll (rest.map .draw)).1 = _
      rw [hfirst, hothers, ← List.map_append, List.range'_append_1]

end Uses

/-! ## Any mixture of uses -/

/-- After each use in any row of uses of a scanner over a source, the next position is the one
behind its position, the position is not in front of where it was, the character at it is
the source's, if the source has one there, and the tokens that come next are those of a new
scanner over what the source has from there on, with the end of the input behind them forever.

If only tokens were drawn, by whatever ways and walks, then the tokens that were handed out
altogether are the first ones of the source's row, those behind them are still to come, and
the position is in the source or at its end. -/
theorem interleaved_uses (source : String) :
    (∀ (uses : List Use) (last : Use),
      let before := ((Readers.ofSource source).useAll uses).2
      let after := (before.use last).2.scanner
      after.nextPosition = after.position + 1 ∧
        before.scanner.position ≤ after.position ∧
        after.current? = source.toList[after.position]? ∧
        ∀ count, (after.take count).1 = (List.range count).map
          (Token.row (String.ofList (source.toList.drop after.position)))) ∧
    ∀ draws : List Draw,
      let drawn := (Readers.ofSource source).useAll (draws.map .draw)
      (∃ count, drawn.1 = (List.range count).map (Token.row source) ∧
        ∀ more, (drawn.2.scanner.take more).1 =
          (List.range' count more).map (Token.row source)) ∧
        drawn.2.scanner.position ≤ source.length := by
  constructor
  · intro uses last before after
    have hstart : (Readers.ofSource source).scanner.StandsIn source := standsIn_ofSource source
    have hbefore : before.scanner.StandsIn source := hstart.useAll uses
    have hafter : after.StandsIn source := hbefore.use last
    refine ⟨hafter.nextPosition, hbefore.position_le_use last, hafter.current?, fun count => ?_⟩
    rw [take_eq, hafter.rest, Token.row_eq_rowFrom, String.toList_ofList]
  · intro draws drawn
    have hstart : (Readers.ofSource source).scanner.Awaits source 0 := awaits_ofSource source
    obtain ⟨count, htokens, hend⟩ := hstart.useAll draws
    rw [← List.range_eq_range'] at htokens
    rw [Nat.zero_add] at hend
    rw [← String.length_toList]
    exact ⟨⟨count, htokens, hend.take⟩, hend.position_le⟩

end Scanner

end MonkeyFrontend
