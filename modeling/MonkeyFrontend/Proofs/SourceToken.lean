import MonkeyFrontend.Grammar.Expression
import MonkeyFrontend.Cursor

/-!
# Tokens of a source

Not every list of tokens is the token list of a source. No token in such a list
stands for the end of the input, so the reader stops where the list does.
And the numbers in it are made of ASCII digits and points.

The reader of tokens takes more texts for numbers than there are integers: a
number may have a fraction, and it may be of any length. The reader of
expressions then turns a number into an integer, and in doing so accepts decimal
digits of every script. For the numbers that occur in the tokens of a
source the two together are simple: the integers are the texts of ASCII
digits, not too many and not too large, with their decimal values.

## Main results

* `Token.kind_ne_endOfInput_of_mem_ofSource` — the end of the input is not among
  the tokens of a source.
* `Token.isNumeric_of_mem_ofSource` — numbers are made of ASCII digits and points.
* `readInteger_eq_ok_iff` — which texts of that kind are integers.
-/

namespace MonkeyFrontend

/-- A text of ASCII digits only, at most 4300 of them, whose decimal value is
`value` and fits into a signed word of 64 bits. -/
structure NamesInteger (literal : String) (value : Nat) : Prop where
  nonempty : literal.toList ≠ []
  digits : ∀ c ∈ literal.toList, isDigit c = true
  length_le : literal.toList.length ≤ 4300
  value_eq : value = Nat.ofDigitChars 10 literal.toList 0
  value_lt : value < 0x8000000000000000

namespace Numeral

/-- A row of ASCII digits has its decimal value. -/
theorem valueFrom?_of_digits {cs : List Char} (h : ∀ c ∈ cs, isDigit c = true) (value : Nat) :
    valueFrom? value cs = some (Nat.ofDigitChars 10 cs value) := by
  induction cs generalizing value with
  | nil => rw [valueFrom?, Nat.ofDigitChars_nil]
  | cons c cs ih =>
      have hc : c.isDigit = true := h c List.mem_cons_self
      rw [valueFrom?, digitValue?_of_isDigit hc, Option.bind_some, Nat.ofDigitChars_cons]
      exact ih (fun d hd => h d (List.mem_cons_of_mem c hd)) _

/-- A point is no digit in any script. -/
theorem digitValue?_point : digitValue? '.' = none := by decide

theorem valueFrom?_eq_none_of_point {cs : List Char} (h : '.' ∈ cs) (value : Nat) :
    valueFrom? value cs = none := by
  induction cs generalizing value with
  | nil => cases h
  | cons c cs ih =>
      rw [valueFrom?]
      rcases List.mem_cons.mp h with rfl | hmem
      · rw [digitValue?_point, Option.bind_none]
      · cases digitValue? c with
        | none => rfl
        | some digit => exact ih hmem _

end Numeral

/-! ## Integers among numbers -/

/-- A text of ASCII digits and points. -/
def IsNumeric (literal : String) : Prop :=
  ∀ c ∈ literal.toList, isDigit c = true ∨ c = '.'

theorem numeral_value?_eq_some_iff {literal : String} (h : IsNumeric literal) {value : Nat} :
    Numeral.value? literal = some value ↔
      literal.toList ≠ [] ∧ (∀ c ∈ literal.toList, isDigit c = true) ∧
        literal.toList.length ≤ Numeral.maxDigits ∧
          value = Nat.ofDigitChars 10 literal.toList 0 := by
  simp only [Numeral.value?]
  by_cases hpoint : '.' ∈ literal.toList
  · have hdigit : ¬ ∀ c ∈ literal.toList, isDigit c = true := by
      intro hall
      exact absurd (hall '.' hpoint) (by decide)
    rw [Numeral.valueFrom?_eq_none_of_point hpoint]
    simp [hdigit]
  · have hdigits : ∀ c ∈ literal.toList, isDigit c = true := by
      intro c hc
      rcases h c hc with hd | rfl
      · exact hd
      · exact absurd hc hpoint
    rw [Numeral.valueFrom?_of_digits hdigits]
    by_cases hbad : literal.toList.isEmpty || decide (Numeral.maxDigits < literal.toList.length)
    · rw [if_pos hbad]
      simp only [Bool.or_eq_true, List.isEmpty_iff, decide_eq_true_eq] at hbad
      constructor
      · intro hnone
        cases hnone
      · rintro ⟨hne, _, hle, _⟩
        rcases hbad with hnil | hlong
        · exact absurd hnil hne
        · omega
    · rw [if_neg hbad]
      simp only [Bool.or_eq_true, List.isEmpty_iff, decide_eq_true_eq, not_or] at hbad
      constructor
      · intro hsome
        exact ⟨hbad.1, hdigits, by omega, (Option.some.inj hsome).symm⟩
      · rintro ⟨_, _, _, rfl⟩
        rfl

/-- The integers among the texts of ASCII digits and points. -/
theorem readInteger_eq_ok_iff {literal : String} (h : IsNumeric literal) {value : Int} :
    readInteger literal = .ok value ↔ ∃ n : Nat, value = n ∧ NamesInteger literal n := by
  unfold readInteger
  split
  next hnone =>
    constructor
    · intro hok
      cases hok
    · rintro ⟨n, _, hn⟩
      have hsome : Numeral.value? literal = some n :=
        (numeral_value?_eq_some_iff h).mpr ⟨hn.nonempty, hn.digits, hn.length_le, hn.value_eq⟩
      rw [hnone] at hsome
      cases hsome
  next found hsome =>
    obtain ⟨hne, hdigits, hlength, hvalue⟩ := (numeral_value?_eq_some_iff h).mp hsome
    have hlow : minInteger ≤ (found : Int) := by
      unfold minInteger
      omega
    constructor
    · intro hok
      split at hok
      next hrange =>
        have hhigh : (found : Int) ≤ 0x7FFFFFFFFFFFFFFF := hrange.2
        refine ⟨found, (Except.ok.inj hok).symm, hne, hdigits, hlength, hvalue, ?_⟩
        omega
      · cases hok
    · rintro ⟨n, rfl, hn⟩
      have heq : found = n := hvalue.trans hn.value_eq.symm
      have hhigh : (found : Int) ≤ maxInteger := by
        have hlt := hn.value_lt
        unfold maxInteger
        omega
      rw [if_pos ⟨hlow, hhigh⟩, heq]

/-! ## Numbers among tokens -/

namespace Token

theorem splitNumber_isNumeric (text : List Char) :
    ∀ c ∈ (splitNumber text).1, isDigit c = true ∨ c = '.' := by
  have htake : ∀ (cs : List Char), ∀ c ∈ cs.takeWhile isDigit, isDigit c = true := fun cs =>
    List.all_eq_true.mp List.all_takeWhile
  intro c hc
  unfold splitNumber at hc
  split at hc
  next rest _ =>
    rcases List.mem_append.mp hc with hfirst | hsecond
    · exact .inl (htake _ c hfirst)
    · rcases List.mem_cons.mp hsecond with rfl | htail
      · exact .inr rfl
      · exact .inl (htake _ c htail)
  next => exact .inl (htake _ c hc)

/-- A word is a name or has the kind of a keyword. -/
theorem ofWord_ne {kind : Kind} (hkeyword : ∀ entry ∈ Kind.keywords, entry.2 ≠ kind)
    (hname : kind ≠ .name) (word : String) : Kind.ofWord word ≠ kind := by
  unfold Kind.ofWord
  cases hfound : Kind.keywords.lookup word with
  | none => exact hname.symm
  | some keyword =>
      obtain ⟨before, _, hkeywords, _⟩ := List.lookup_eq_some_iff.mp hfound
      have hmem : (word, keyword) ∈ Kind.keywords := by
        rw [hkeywords]
        simp
      exact hkeyword _ hmem

/-- No character spells a kind without a spelling. -/
theorem ofSymbol?_ne {kind : Kind} (hspelling : kind.spelling? = none) (c : Char) :
    Kind.ofSymbol? c ≠ some kind := by
  intro heq
  have hspelled := Kind.spelling?_ofSymbol? heq
  rw [hspelling] at hspelled
  cases hspelled

/-- A number that is read off a text is made of ASCII digits and points. -/
theorem isNumeric_readFrom {c : Char} {rest : List Char}
    (h : (readFrom c rest).1.kind = .number) : IsNumeric (readFrom c rest).1.literal := by
  unfold readFrom at h ⊢
  split at h
  · cases h
  · cases h
  · split at h
    next kind hkind =>
      have hnumber : kind = .number := h
      rw [hnumber] at hkind
      exact absurd hkind (ofSymbol?_ne rfl c)
    next =>
      split at h
      · exact absurd h (ofWord_ne (by decide) (by decide) _)
      next hletter =>
        rw [if_neg hletter]
        split at h
        next hdigit =>
          rw [if_pos hdigit]
          intro d hd
          rw [String.toList_ofList] at hd
          exact splitNumber_isNumeric _ d hd
        · cases h

/-- No token that is read off a text stands for the end of the input. -/
theorem readFrom_kind_ne_endOfInput (c : Char) (rest : List Char) :
    (readFrom c rest).1.kind ≠ .endOfInput := by
  unfold readFrom
  split
  · exact Kind.noConfusion
  · exact Kind.noConfusion
  · split
    next kind hkind =>
      show kind ≠ .endOfInput
      rintro rfl
      exact ofSymbol?_ne rfl c hkind
    next =>
      split
      · exact ofWord_ne (by decide) (by decide) _
      · split <;> exact Kind.noConfusion

/-- What holds of every token that is read off a text holds of the token list of a
text. -/
theorem forall_mem_list {motive : Token → Prop} (h : ∀ c rest, motive (readFrom c rest).1)
    (text : List Char) : ∀ token ∈ list text, motive token := by
  induction hsize : text.length using Nat.strongRecOn generalizing text with
  | ind size ih =>
      rw [list_eq]
      cases hnext : next? text with
      | none =>
          intro token hmem
          cases hmem
      | some read =>
          obtain ⟨first, rest⟩ := read
          intro token hmem
          rcases List.mem_cons.mp hmem with rfl | htail
          · unfold next? at hnext
            split at hnext
            · cases hnext
            next c tail _ =>
              have hread : readFrom c tail = (token, rest) := Option.some.inj hnext
              have hfirst := h c tail
              rwa [hread] at hfirst
          · exact ih _ (hsize ▸ next?_length hnext) rest rfl token htail

/-- In the tokens of a source, numbers are made of ASCII digits and points. -/
theorem isNumeric_of_mem_ofSource {source : String} {token : Token}
    (hmem : token ∈ ofSource source) (hkind : token.kind = .number) : IsNumeric token.literal :=
  forall_mem_list (motive := fun token => token.kind = .number → IsNumeric token.literal)
    (fun _ _ => isNumeric_readFrom) source.toList token hmem hkind

/-- The end of the input is not among the tokens of a source. -/
theorem kind_ne_endOfInput_of_mem_ofSource {source : String} {token : Token}
    (hmem : token ∈ ofSource source) : token.kind ≠ .endOfInput :=
  forall_mem_list (motive := fun token => token.kind ≠ .endOfInput) readFrom_kind_ne_endOfInput
    source.toList token hmem

end Token

end MonkeyFrontend
