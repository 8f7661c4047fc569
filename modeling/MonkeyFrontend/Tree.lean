import MonkeyFrontend.Token

/-!
# Trees

The syntax trees of Monkey programs. Every node keeps a token: the one that
its construct begins with, or for calls and binary operations the token of
the operator. The other fields are kept as they are given, so a tree can be
built whose fields disagree with its tokens; trees that come out of the
parser never do.

A `Block` is both the body of a conditional or a function and, as
`Statement.block`, a statement of its own. Programs written in Monkey have
no block statements; they occur in trees that are built by hand.

## Main results

* `Expr.same_iff`, `Statement.same_iff`, `Block.same_iff` — the structural
  comparison decides equality. The three `DecidableEq` instances and
  the one for `Program` are this fact.
-/

namespace MonkeyFrontend

/-- An occurrence of a name. -/
structure Name where
  token : Token
  value : String
deriving DecidableEq

mutual

/-- An expression. -/
inductive Expr where
  /-- A name, used for what it is bound to. -/
  | name (name : Name)
  /-- An integer. -/
  | integer (token : Token) (value : Int)
  /-- One of the two truth values. -/
  | boolean (token : Token) (value : Bool)
  /-- An operator before its operand. -/
  | unary (token : Token) (operator : String) (operand : Expr)
  /-- An operator between its operands. -/
  | binary (token : Token) (left : Expr) (operator : String) (right : Expr)
  /-- A choice between two blocks, the second of which may be absent. -/
  | conditional (token : Token) (condition : Expr) (consequence : Block)
    (alternative : Option Block)
  /-- A function with its parameters. -/
  | function (token : Token) (parameters : List Name) (body : Block)
  /-- A function applied to arguments. -/
  | call (token : Token) (callee : Expr) (arguments : List Expr)

/-- A statement. -/
inductive Statement where
  /-- Binds a name to a value. -/
  | binding (token : Token) (name : Name) (value : Expr)
  /-- Leaves the enclosing function with a value. -/
  | result (token : Token) (value : Expr)
  /-- An expression that stands alone. -/
  | expression (token : Token) (value : Expr)
  /-- A block that stands alone. -/
  | block (block : Block)

/-- Statements between braces. The token is the opening brace. -/
structure Block where
  token : Token
  statements : List Statement

end

/-- A whole program. -/
structure Program where
  statements : List Statement

/-! ## The token of a node -/

/-- The token that an expression keeps. -/
def Expr.token : Expr → Token
  | .name n => n.token
  | .integer token _ => token
  | .boolean token _ => token
  | .unary token _ _ => token
  | .binary token _ _ _ => token
  | .conditional token _ _ _ => token
  | .function token _ _ => token
  | .call token _ _ => token

/-- The token that a statement keeps. -/
def Statement.token : Statement → Token
  | .binding token _ _ => token
  | .result token _ => token
  | .expression token _ => token
  | .block b => b.token

/-- The text of the token that a program's first statement keeps. It is
empty for a program without statements. -/
def Program.literal (program : Program) : String :=
  match program.statements with
  | [] => ""
  | first :: _ => first.token.literal

/-! ## Structural comparison -/

mutual

/-- Whether two expressions agree in every token and every field. -/
def Expr.same : Expr → Expr → Bool
  | .name a, .name b => a == b
  | .integer t a, .integer u b => t == u && a == b
  | .boolean t a, .boolean u b => t == u && a == b
  | .unary t f a, .unary u g b => t == u && f == g && a.same b
  | .binary t a f c, .binary u b g d => t == u && a.same b && f == g && c.same d
  | .conditional t a b none, .conditional u c d none => t == u && a.same c && b.same d
  | .conditional t a b (some e), .conditional u c d (some f) =>
    t == u && a.same c && b.same d && e.same f
  | .function t ps a, .function u qs b => t == u && ps == qs && a.same b
  | .call t a as, .call u b bs => t == u && a.same b && Expr.sameList as bs
  | _, _ => false

/-- Whether two lists of expressions agree element by element. -/
def Expr.sameList : List Expr → List Expr → Bool
  | [], [] => true
  | a :: as, b :: bs => a.same b && Expr.sameList as bs
  | _, _ => false

/-- Whether two statements agree in every token and every field. -/
def Statement.same : Statement → Statement → Bool
  | .binding t a x, .binding u b y => t == u && a == b && x.same y
  | .result t x, .result u y => t == u && x.same y
  | .expression t x, .expression u y => t == u && x.same y
  | .block a, .block b => a.same b
  | _, _ => false

/-- Whether two lists of statements agree element by element. -/
def Statement.sameList : List Statement → List Statement → Bool
  | [], [] => true
  | a :: as, b :: bs => a.same b && Statement.sameList as bs
  | _, _ => false

/-- Whether two blocks agree in their tokens and their statements. -/
def Block.same : Block → Block → Bool
  | ⟨t, as⟩, ⟨u, bs⟩ => t == u && Statement.sameList as bs

end

mutual

theorem Expr.same_iff : ∀ a b : Expr, a.same b = true ↔ a = b
  | .name a, b => by cases b <;> simp [Expr.same]
  | .integer t a, b => by cases b <;> simp [Expr.same]
  | .boolean t a, b => by cases b <;> simp [Expr.same]
  | .unary t f a, b => by
    cases b <;> simp [Expr.same, Expr.same_iff a, and_assoc]
  | .binary t a f c, b => by
    cases b <;> simp [Expr.same, Expr.same_iff a, Expr.same_iff c, and_assoc]
  | .conditional t a c none, b => by
    cases b with
    | conditional u d e alternative =>
      cases alternative <;> simp [Expr.same, Expr.same_iff a, Block.same_iff c, and_assoc]
    | _ => simp [Expr.same]
  | .conditional t a c (some e), b => by
    cases b with
    | conditional u d f alternative =>
      cases alternative <;>
        simp [Expr.same, Expr.same_iff a, Block.same_iff c, Block.same_iff e, and_assoc]
    | _ => simp [Expr.same]
  | .function t ps a, b => by
    cases b <;> simp [Expr.same, Block.same_iff a, and_assoc]
  | .call t a as, b => by
    cases b <;> simp [Expr.same, Expr.same_iff a, Expr.sameList_iff as, and_assoc]

theorem Expr.sameList_iff : ∀ as bs : List Expr, Expr.sameList as bs = true ↔ as = bs
  | [], bs => by cases bs <;> simp [Expr.sameList]
  | a :: as, bs => by
    cases bs <;> simp [Expr.sameList, Expr.same_iff a, Expr.sameList_iff as]

theorem Statement.same_iff : ∀ a b : Statement, a.same b = true ↔ a = b
  | .binding t a x, b => by
    cases b <;> simp [Statement.same, Expr.same_iff x, and_assoc]
  | .result t x, b => by cases b <;> simp [Statement.same, Expr.same_iff x]
  | .expression t x, b => by cases b <;> simp [Statement.same, Expr.same_iff x]
  | .block a, b => by cases b <;> simp [Statement.same, Block.same_iff a]

theorem Statement.sameList_iff :
    ∀ as bs : List Statement, Statement.sameList as bs = true ↔ as = bs
  | [], bs => by cases bs <;> simp [Statement.sameList]
  | a :: as, bs => by
    cases bs <;> simp [Statement.sameList, Statement.same_iff a, Statement.sameList_iff as]

theorem Block.same_iff : ∀ a b : Block, a.same b = true ↔ a = b
  | ⟨t, as⟩, ⟨u, bs⟩ => by simp [Block.same, Statement.sameList_iff as]

end

instance : DecidableEq Expr := fun a b =>
  decidable_of_iff (a.same b = true) (Expr.same_iff a b)

instance : DecidableEq Statement := fun a b =>
  decidable_of_iff (a.same b = true) (Statement.same_iff a b)

instance : DecidableEq Block := fun a b =>
  decidable_of_iff (a.same b = true) (Block.same_iff a b)

deriving instance DecidableEq for Program

end MonkeyFrontend
