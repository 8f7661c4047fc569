import MonkeyFrontend.Operators

/-!
# Tables of strengths

The grouping of operators is decided by one table, which says how strongly
each kind of token binds to the expression before it. The language has one
such table of its own, but nothing in the reader depends on its numbers:
any table works that gives the eight binary operators levels between
`equals` and `product`, lets a call bind as `call`, and says nothing about
other kinds. `Strengths` are those tables, and `Operators.dialect` is the
language with one of them in force.

What is proved about reading expressions is proved for every dialect. The
language itself is the dialect of its own table, by `rfl`.

## Main results

* `Operators.dialect_standard` — the language is a dialect.
* `Strengths.lowest_lt_precedence_iff` — the kinds that have a strength are
  the eight binary operators and the opening parenthesis.
* `Operators.standardInfixRule?_eq_none_iff` — those are also the kinds that have a
  rule, so an operator of a dialect is never active by half.
-/

namespace MonkeyFrontend

/-- Whether a kind is one of the eight operators that stand between two
operands. -/
def Kind.isBinary : Kind → Bool
  | .plus | .minus | .slash | .asterisk | .equal | .notEqual | .less | .greater => true
  | _ => false

/-! ## Levels -/

namespace Precedence

/-- The next stronger precedence, up to the strongest. -/
def next : Precedence → Precedence
  | lowest => equals
  | equals => lessGreater
  | lessGreater => sum
  | sum => product
  | product => prefixed
  | prefixed => call
  | call => call

/-- The loosest level of what is read above a given strength: one step up,
except that an operand of a prefix operator may begin with another one. -/
def operand : Precedence → Precedence
  | prefixed => prefixed
  | weakest => weakest.next

theorem le_refl (a : Precedence) : a ≤ a := Nat.le_refl a.level

theorem le_of_eq {a b : Precedence} (h : a = b) : a ≤ b := h ▸ le_refl a

theorem le_trans {a b c : Precedence} (hab : a ≤ b) (hbc : b ≤ c) : a ≤ c :=
  Nat.le_trans hab hbc

theorem not_lt {a b : Precedence} : ¬ a < b ↔ b ≤ a := Nat.not_lt

theorem le_call (a : Precedence) : a ≤ call := by
  cases a <;> decide

theorem le_next (a : Precedence) : a ≤ a.next := by
  cases a <;> decide

theorem eq_of_level_eq {a b : Precedence} (h : a.level = b.level) : a = b := by
  revert h
  cases a <;> cases b <;> decide

theorem level_next_of_lt {a b : Precedence} (h : a < b) : a.next.level = a.level + 1 := by
  revert h
  cases a <;> cases b <;> decide

theorem next_le_prefixed {level : Precedence} (h : level ≤ .product) : level.next ≤ .prefixed := by
  revert h
  cases level <;> decide

theorem eq_or_next_le {a b : Precedence} (h : a ≤ b) : a = b ∨ a.next ≤ b := by
  revert h
  cases a <;> cases b <;> decide

/-- A stronger level is at least the next one. -/
theorem next_le_of_lt {a b : Precedence} (h : a < b) : a.next ≤ b := by
  revert h
  cases a <;> cases b <;> decide

theorem le_operand (weakest : Precedence) : weakest ≤ weakest.operand := by
  cases weakest <;> decide

/-- What binds more strongly than `weakest` is at least an operand of it. -/
theorem operand_le_of_lt {weakest level : Precedence} (h : weakest < level) :
    weakest.operand ≤ level := by
  revert h
  cases weakest <;> cases level <;> decide

theorem operand_le_prefixed {weakest : Precedence} (h : weakest ≤ .prefixed) :
    weakest.operand ≤ .prefixed := by
  revert h
  cases weakest <;> decide

theorem lowest_lt_of_lt {weakest level : Precedence} (h : weakest < level) : lowest < level := by
  revert h
  cases weakest <;> cases level <;> decide

/-- On the levels of the binary operators, what holds operands of `weakest` is
stronger than it. -/
theorem lt_of_operand_le {weakest level : Precedence} (h : weakest.operand ≤ level)
    (hproduct : level ≤ .product) : weakest < level := by
  revert h hproduct
  cases weakest <;> cases level <;> decide

/-- Operands of binary operators lie one level above the operator. -/
theorem operand_of_le_product {level : Precedence} (h : level ≤ .product) :
    level.operand = level.next := by
  revert h
  cases level <;> decide

end Precedence

/-! ## Tables -/

/-- A table of strengths for the eight binary operators and for calls. -/
structure Strengths where
  /-- The strength of a kind, if it has one. -/
  table : Kind → Option Precedence
  /-- Every binary operator has a level between `equals` and `product`. -/
  binary : ∀ kind, kind.isBinary = true →
    ∃ level, table kind = some level ∧ .equals ≤ level ∧ level ≤ .product
  /-- The parenthesis that opens a call binds most strongly. -/
  openParen : table .openParen = some .call
  /-- No other kind has a strength. -/
  other : ∀ kind, kind.isBinary = false → kind ≠ .openParen → table kind = none

/-- The language with a given table of strengths, for any kind of reader. -/
def Operators.withStrengths {m : Type → Type} [Monad m] [Reading m] (strengths : Strengths) :
    Operators m :=
  { Operators.language with precedence? := strengths.table }

/-- The language with a given table of strengths, for parsers. -/
abbrev Operators.dialect (strengths : Strengths) : Operators :=
  withStrengths strengths

namespace Strengths

/-- The language's own table. -/
def standard : Strengths where
  table := Operators.standardPrecedence?
  binary := by
    intro kind h
    cases kind <;> first | exact ⟨_, rfl, by decide, by decide⟩ | cases h
  openParen := rfl
  other := by
    intro kind h hne
    cases kind <;> first | rfl | exact absurd rfl hne | cases h

variable (strengths : Strengths)

/-- The strength of a kind in a dialect; `lowest` if it has none. -/
def precedence (kind : Kind) : Precedence :=
  (Operators.dialect strengths).precedence kind

theorem precedence_eq (kind : Kind) :
    strengths.precedence kind = (strengths.table kind).getD .lowest := rfl

@[simp] theorem precedence_openParen : strengths.precedence .openParen = .call := by
  rw [precedence_eq, strengths.openParen, Option.getD_some]

/-- A binary operator's level lies between `equals` and `product`. -/
theorem precedence_of_isBinary {kind : Kind} (h : kind.isBinary = true) :
    .equals ≤ strengths.precedence kind ∧ strengths.precedence kind ≤ .product := by
  obtain ⟨level, found, low, high⟩ := strengths.binary kind h
  rw [precedence_eq, found, Option.getD_some]
  exact ⟨low, high⟩

theorem precedence_of_other {kind : Kind} (h : kind.isBinary = false) (hne : kind ≠ .openParen) :
    strengths.precedence kind = .lowest := by
  rw [precedence_eq, strengths.other kind h hne, Option.getD_none]

/-- The kinds with a strength are the binary operators and the opening
parenthesis. -/
theorem lowest_lt_precedence_iff {kind : Kind} :
    .lowest < strengths.precedence kind ↔ kind.isBinary = true ∨ kind = .openParen := by
  constructor
  · intro h
    by_cases hb : kind.isBinary = true
    · exact .inl hb
    · by_cases hp : kind = .openParen
      · exact .inr hp
      · rw [precedence_of_other strengths (by simpa using hb) hp] at h
        exact absurd h (Precedence.not_lt_lowest _)
  · rintro (hb | rfl)
    · have low := (precedence_of_isBinary strengths hb).1
      exact Nat.lt_of_lt_of_le (show Precedence.lowest < .equals by decide) low
    · rw [precedence_openParen]
      decide

/-- Nothing lies between `lowest` and the levels of the operators. -/
theorem precedence_le_lowest_iff {kind : Kind} :
    strengths.precedence kind ≤ .lowest ↔ kind.isBinary = false ∧ kind ≠ .openParen := by
  rw [← Precedence.not_lt, lowest_lt_precedence_iff]
  simp [not_or]

end Strengths

/-! ## Rules -/

namespace Operators

theorem dialect_standard : dialect .standard = standard := rfl

section Rules

variable {m : Type → Type} [Monad m] [Reading m] {kind : Kind}

theorem standardInfixRule?_of_isBinary (h : kind.isBinary = true) :
    standardInfixRule? kind = some (Grammar.binary (m := m)) := by
  cases kind <;> first | rfl | cases h

/-- The kinds without a rule are those that have no strength in a dialect. -/
theorem standardInfixRule?_eq_none_iff :
    (standardInfixRule? kind : Option (InfixRule m)) = none ↔
      kind.isBinary = false ∧ kind ≠ .openParen := by
  cases kind <;> simp [standardInfixRule?, Kind.isBinary]

end Rules

end Operators

end MonkeyFrontend
