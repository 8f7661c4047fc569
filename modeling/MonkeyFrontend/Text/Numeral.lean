/-!
# Numerals

Whole numbers written in decimal digits. A digit may come from any script
that has ten decimal digits: each such script lists its digits in a row
from zero to nine, so a table of the zeros is a table of all digits.

A numeral has at least one digit and at most `Numeral.maxDigits`. The upper
bound is a limit on length, not on value: leading zeros count.

## Main results

* `digitValue?_of_isDigit` — the table gives the ASCII digits their values.
-/

namespace MonkeyFrontend

/-- The code points of the digits zero, one for each row of decimal digits. -/
def digitZeros : List Nat :=
  [0x0030, 0x0660, 0x06F0, 0x07C0, 0x0966, 0x09E6, 0x0A66, 0x0AE6, 0x0B66, 0x0BE6, 0x0C66, 0x0CE6,
    0x0D66, 0x0DE6, 0x0E50, 0x0ED0, 0x0F20, 0x1040, 0x1090, 0x17E0, 0x1810, 0x1946, 0x19D0, 0x1A80,
    0x1A90, 0x1B50, 0x1BB0, 0x1C40, 0x1C50, 0xA620, 0xA8D0, 0xA900, 0xA9D0, 0xA9F0, 0xAA50, 0xABF0,
    0xFF10, 0x104A0, 0x10D30, 0x11066, 0x110F0, 0x11136, 0x111D0, 0x112F0, 0x11450, 0x114D0,
    0x11650, 0x116C0, 0x11730, 0x118E0, 0x11950, 0x11C50, 0x11D50, 0x11DA0, 0x16A60, 0x16AC0,
    0x16B50, 0x1D7CE, 0x1D7D8, 0x1D7E2, 0x1D7EC, 0x1D7F6, 0x1E140, 0x1E2F0, 0x1E950, 0x1FBF0]

/-- The value of a decimal digit. -/
def digitValue? (c : Char) : Option Nat :=
  digitZeros.findSome? fun first =>
    if first ≤ c.toNat ∧ c.toNat < first + 10 then some (c.toNat - first) else none

theorem digitValue?_of_isDigit {c : Char} (h : c.isDigit = true) :
    digitValue? c = some (c.toNat - '0'.toNat) := by
  have bounds : 0x30 ≤ c.toNat ∧ c.toNat < 0x30 + 10 := by
    simp only [Char.isDigit, Bool.and_eq_true, decide_eq_true_eq] at h
    have low : 48 ≤ c.val.toNat := UInt32.le_iff_toNat_le.mp h.1
    have high : c.val.toNat ≤ 57 := UInt32.le_iff_toNat_le.mp h.2
    show 48 ≤ c.val.toNat ∧ c.val.toNat < 58
    omega
  rw [digitValue?, digitZeros, List.findSome?_cons, if_pos bounds]
  rfl

namespace Numeral

/-- The largest number of digits that a numeral may have. -/
def maxDigits : Nat := 4300

/-- The value of a row of digits that follows digits of value `value`. -/
def valueFrom? (value : Nat) : List Char → Option Nat
  | [] => some value
  | c :: rest => (digitValue? c).bind fun digit => valueFrom? (10 * value + digit) rest

/-- The value of a numeral, if the text is one. -/
def value? (text : String) : Option Nat :=
  let digits := text.toList
  if digits.isEmpty || maxDigits < digits.length then none else valueFrom? 0 digits

end Numeral

end MonkeyFrontend
