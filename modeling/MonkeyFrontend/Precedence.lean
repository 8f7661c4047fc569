/-!
# Precedences

How strongly an operator holds on to its operands, in seven steps. The
order of two precedences is the order of their `level`s.
-/

namespace MonkeyFrontend

/-- The strength with which an operator binds, weakest first. -/
inductive Precedence where
  | lowest
  | equals
  | lessGreater
  | sum
  | product
  | prefixed
  | call
deriving DecidableEq, Inhabited

namespace Precedence

/-- Every precedence once, weakest first. -/
def all : List Precedence :=
  [lowest, equals, lessGreater, sum, product, prefixed, call]

/-- The place of a precedence in the order, counted from one. -/
def level : Precedence → Nat
  | lowest => 1
  | equals => 2
  | lessGreater => 3
  | sum => 4
  | product => 5
  | prefixed => 6
  | call => 7

instance : LT Precedence := ⟨fun a b => a.level < b.level⟩

instance : LE Precedence := ⟨fun a b => a.level ≤ b.level⟩

instance (a b : Precedence) : Decidable (a < b) :=
  inferInstanceAs (Decidable (a.level < b.level))

instance (a b : Precedence) : Decidable (a ≤ b) :=
  inferInstanceAs (Decidable (a.level ≤ b.level))

/-- Nothing is weaker than `lowest`. -/
theorem not_lt_lowest (a : Precedence) : ¬ a < lowest := by
  cases a <;> decide

/-- The name of a precedence. -/
def label : Precedence → String
  | lowest => "LOWEST"
  | equals => "EQUALS"
  | lessGreater => "LESSGREATER"
  | sum => "SUM"
  | product => "PRODUCT"
  | prefixed => "PREFIX"
  | call => "CALL"

/-- The precedence with a given name. -/
def ofLabel? (text : String) : Option Precedence :=
  all.find? fun precedence => precedence.label == text

end Precedence

end MonkeyFrontend
