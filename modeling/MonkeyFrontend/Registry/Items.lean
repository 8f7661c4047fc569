import MonkeyFrontend.Registry.Complaint
import MonkeyFrontend.Token.Reading

/-!
# Lexemes in items

A lexeme ought to be a text, but it may be given as a list or a map, whose
items then take the place of characters. The items of a map are the data
under the numbers from zero on, as many as it has entries. A number may be
missing, which is noticed only by a reading that gets that far.

An item of several characters is a letter or a digit if it lies, as a text,
between the first and the last letter or digit. An empty item ends the
lexeme. A word or a number is a part of the lexeme, cut out of the whole: a
part of a list is a list, while a map cannot be cut. Words cannot be read at
all, since a list cannot be looked up among the keywords.
-/

namespace MonkeyFrontend.Registry

/-- An item, or what stands in the way of having it. -/
abbrev Item := Except Obstacle Datum

/-- What takes the place of a text. -/
structure Row where
  /-- The items in their order. -/
  items : List Item
  /-- The part of the whole that neighbouring items make up. -/
  part : List Datum → Except Obstacle Datum

/-- The items of a list. -/
def Row.ofList (items : List Datum) : Row :=
  ⟨items.map .ok, fun part => .ok (.list part)⟩

/-- The items of a map. -/
def Row.ofMap (entries : List Entry) : Row :=
  ⟨(List.range entries.length).map fun (index : Nat) => Datum.under (.integer index) entries,
    fun _ => .error .notDivisible⟩

/-! ## Classes of items -/

/-- Whether an item stands for a blank. -/
def isBlankItem : Item → Bool
  | .ok (.text item) => [" ", "\t", "\r", "\n"].contains item
  | _ => false

/-- Whether a text lies between two others. -/
def liesBetween (low high item : String) : Bool :=
  decide (low ≤ item) && decide (item ≤ high)

/-- Whether an item stands for a letter. Only texts can be asked. -/
def isLetterItem : Datum → Except Obstacle Bool
  | .text item => .ok (liesBetween "a" "z" item || liesBetween "A" "Z" item || item == "_")
  | other => .error (.notComparable "<=" .text other.shape)

/-- Whether an item stands for a digit. Only texts can be asked. -/
def isDigitItem : Datum → Except Obstacle Bool
  | .text item => .ok (liesBetween "0" "9" item)
  | other => .error (.notComparable "<=" .text other.shape)

/-- The kind that an item spells alone. -/
def symbolItem? (item : String) : Option Kind :=
  match item.toList with
  | [c] => Kind.ofSymbol? c
  | _ => none

/-! ## Reading -/

/-- Cuts items after those of a class at their front. -/
def splitItems (isMember : Datum → Except Obstacle Bool) :
    List Item → Except Obstacle (List Datum × List Item)
  | [] => pure ([], [])
  | item :: rest => do
    let datum ← item
    if ← isMember datum then
      let (members, rest) ← splitItems isMember rest
      pure (datum :: members, rest)
    else
      pure ([], item :: rest)

/-- Cuts items after the number at their front. -/
def splitNumberItems (items : List Item) : Except Obstacle (List Datum × List Item) := do
  let (whole, rest) ← splitItems isDigitItem items
  match rest with
  | .ok (.text ".") :: rest =>
    let (fraction, rest) ← splitItems isDigitItem rest
    pure (whole ++ .text "." :: fraction, rest)
  | rest => pure (whole, rest)

/-- Reads the token that begins with an item, and gives it with the items
after it. -/
def Row.readItem (row : Row) (item : Datum) (rest : List Item) :
    Except Obstacle (Lexed × List Item) :=
  match item, rest with
  | .list _, _ => throw (.notKey .list)
  | .map _, _ => throw (.notKey .map)
  | .text "=", .ok (.text "=") :: rest => pure (⟨.equal, .text "=="⟩, rest)
  | .text "!", .ok (.text "=") :: rest => pure (⟨.notEqual, .text "!="⟩, rest)
  | .text text, rest =>
    match symbolItem? text with
    | some kind => pure (⟨kind, .text text⟩, rest)
    | none => do
      if ← isLetterItem (.text text) then
        let (letters, _) ← splitItems isLetterItem (.ok (.text text) :: rest)
        let word ← row.part letters
        throw (.notKey word.shape)
      else if ← isDigitItem (.text text) then
        let (digits, rest) ← splitNumberItems (.ok (.text text) :: rest)
        let number ← row.part digits
        pure (⟨.number, number⟩, rest)
      else
        pure (⟨.illegal, .text text⟩, rest)
  | other, _ => throw (.notComparable "<=" .text other.shape)

/-- At most `bound` tokens of a row's items, and the end after them. -/
def Row.readWithin (row : Row) : Nat → List Item → Except Obstacle (List Lexed)
  | 0, _ => pure [.endOfInput]
  | bound + 1, items =>
    match items.dropWhile isBlankItem with
    | [] => pure [.endOfInput]
    | .ok (.text "") :: _ => pure [.endOfInput]
    | item :: rest => do
      let datum ← item
      let (lexed, rest) ← row.readItem datum rest
      let others ← row.readWithin bound rest
      pure (lexed :: others)

/-- The tokens of a row, and the end after them. -/
def Row.read (row : Row) : Except Obstacle (List Lexed) :=
  row.readWithin (row.items.length + 1) row.items

end MonkeyFrontend.Registry
