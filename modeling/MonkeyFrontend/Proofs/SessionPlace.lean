import MonkeyFrontend.Proofs.ScannerPosition
import MonkeyFrontend.Session

/-!
# The place of a session in its source

Whatever is done with a session, its window stands at an index of the row of tokens of its source,
and the index never gets smaller. The two tokens of the window are those of the row with this index
and the next one, the scanner hands out the row behind them, and the brace depth is what one counts
over the tokens in front of the window (`Window.StandsAt`). The depth does not know the first token
of the window yet.

All of this is kept up when a window advances (`Window.StandsAt.advance`), and advancing is all that
an operation can do to a window, whether it reads a construct from its first token on or is
performed somewhere in the middle of one, by rules that are the language's or any others
(`Session.reaches_operate`).

## Main results

* `Window.StandsAt.advanceBy` — the windows that are reached from one that stands somewhere.
* `Session.exists_indices` — the indices at which the operations of a session leave it.
* `Session.place_in_source` — a session stands at an index of the row of its source.
-/

namespace MonkeyFrontend

namespace Window

/-! ## Places in the row of tokens -/

/-- The number of open braces in front of the token with an index, counted from the start. -/
def openBraces (source : String) (index : Nat) : Int :=
  ((List.range index).map (Token.row source)).foldl bracesBehind 0

/-- A window stands at the token with an index in the row of tokens of a source. -/
structure StandsAt (source : String) (index : Nat) (window : Window) : Prop where
  current : window.current = Token.row source index
  peek : window.peek = Token.row source (index + 1)
  /-- The scanner has handed out both of these, and goes on behind them. -/
  awaits : window.scanner.Awaits source (index + 2)
  depth : window.depth = openBraces source index

theorem openBraces_succ (source : String) (index : Nat) :
    openBraces source (index + 1) =
      bracesBehind (openBraces source index) (Token.row source index) := by
  unfold openBraces
  rw [List.range_succ, List.map_append, List.foldl_append]
  rfl

/-- No closing brace is counted where no brace is open. -/
theorem bracesBehind_nonneg {depth : Int} (h : 0 ≤ depth) (token : Token) :
    0 ≤ bracesBehind depth token := by
  unfold bracesBehind
  split
  · omega
  · split <;> omega

theorem openBraces_nonneg (source : String) (index : Nat) : 0 ≤ openBraces source index := by
  induction index with
  | zero => exact Int.le_refl 0
  | succ index ih => exact openBraces_succ source index ▸ bracesBehind_nonneg ih _

theorem standsAt_ofSource (source : String) : (ofSource source).StandsAt source 0 := by
  obtain ⟨hcurrent, hscanner⟩ := (Scanner.awaits_ofSource source).next
  obtain ⟨hpeek, hscanner⟩ := hscanner.next
  exact ⟨hcurrent, hpeek, hscanner, rfl⟩

section StandsAt

variable {source : String} {index : Nat} {window : Window}

theorem StandsAt.advance (h : window.StandsAt source index) :
    window.advance.StandsAt source (index + 1) := by
  obtain ⟨hnext, hscanner⟩ := h.awaits.next
  refine ⟨h.peek, hnext, hscanner, ?_⟩
  show bracesBehind window.depth window.current = _
  rw [h.depth, h.current, openBraces_succ]

theorem StandsAt.advanceBy (h : window.StandsAt source index) (count : Nat) :
    (window.advanceBy count).StandsAt source (index + count) := by
  induction count generalizing window index with
  | zero => exact h
  | succ count ih =>
      rw [← Nat.add_assoc, Nat.add_right_comm]
      exact ih h.advance

/-- A window only moves to indices that are no smaller. -/
theorem StandsAt.reaches (h : window.StandsAt source index) {after : Window}
    (hreaches : window.Reaches after) : ∃ more, after.StandsAt source (index + more) := by
  obtain ⟨more, rfl⟩ := hreaches
  exact ⟨more, h.advanceBy more⟩

end StandsAt

end Window

/-! ## Operations of sessions -/

namespace Session

/-- Something that is done with a session. -/
inductive Operation where
  /-- The window moves one token forward. -/
  | advance
  /-- The next token is passed if it is of a kind, and otherwise reported. -/
  | expect (kind : Kind)
  /-- The rest of a statement is passed that began at a depth. -/
  | skip (home : Int)
  /-- An expression is read whose operators bind more strongly than given. -/
  | expression (weakest : Precedence)
  /-- A rule by which tokens begin expressions is followed, any rule. -/
  | follow (rule : PrefixRule Routine)
  /-- A rule by which tokens extend expressions is followed, any rule, with any expression. -/
  | followBehind (rule : InfixRule Routine) (left : Expr)
  | parameters
  | arguments
  | binding
  | result
  | expressionStatement
  | statement
  | block
  /-- The statements that are left are read. -/
  | program
  | setPrefixRule (kind : Kind) (rule : PrefixRule Routine)
  | setInfixRule (kind : Kind) (rule : InfixRule Routine)
  | setPrecedence (kind : Kind) (precedence : Option Precedence)

/-- The session after an operation. -/
def operate (session : Session) : Operation → Session
  | .advance => (session.perform fun _ => Reading.advance).2
  | .expect kind => (session.perform fun _ => Reading.expect kind).2
  | .skip home => (session.perform fun _ => Reading.skip home).2
  | .expression weakest => (session.perform fun grammar => grammar.expression weakest).2
  | .follow rule => (session.perform rule).2
  | .followBehind rule left => (session.perform fun grammar => rule grammar left).2
  | .parameters => (session.perform Grammar.parameters).2
  | .arguments => (session.perform Grammar.arguments).2
  | .binding => (session.perform Grammar.binding).2
  | .result => (session.perform Grammar.result).2
  | .expressionStatement => (session.perform Grammar.expressionStatement).2
  | .statement => (session.perform Grammar.statement).2
  | .block => (session.perform Grammar.block).2
  | .program => session.program.2
  | .setPrefixRule kind rule => session.change (·.setPrefixRule kind rule)
  | .setInfixRule kind rule => session.change (·.setInfixRule kind rule)
  | .setPrecedence kind precedence => session.change (·.setPrecedence kind precedence)

/-- The session after several operations in a row. -/
def operateAll (session : Session) (operations : List Operation) : Session :=
  operations.foldl operate session

theorem reaches_perform {α : Type} (session : Session) (construct : Grammar Routine → Routine α) :
    session.window.Reaches (session.perform construct).2.window :=
  (construct session.operators.grammar).reaches_rest session.reader

/-- An operation moves the window forward, if it moves it at all. -/
theorem reaches_operate (session : Session) (operation : Operation) :
    session.window.Reaches (session.operate operation).window := by
  cases operation with
  | setPrefixRule | setInfixRule | setPrecedence => exact .refl _
  | _ => exact reaches_perform session _

/-- What is expected and not found leaves the window as it is, and is recorded. -/
theorem operate_expect_of_none (session : Session) (kind : Kind)
    (h : (session.perform fun _ => Reading.expect kind).1 = none) :
    session.operate (.expect kind) =
      { session with reader :=
        ⟨session.window, session.diagnostics.record
          (Fault.unexpected kind session.window.peek.kind).message⟩ } := by
  have hexpect : (Reading.expect kind : Routine Unit).run session.reader =
      if session.window.peek.kind = kind then (some (), ⟨session.window.advance, session.diagnostics⟩)
      else (none, ⟨session.window, session.diagnostics.record
        (Fault.unexpected kind session.window.peek.kind).message⟩) := by
    show (if session.window.peek.kind = kind then Reading.advance else _ : Routine Unit).run _ = _
    split <;> rfl
  unfold operate perform at *
  simp only [hexpect] at *
  split at h
  · cases h
  next hne => rw [if_neg hne]

/-- The operations of a session leave it at indices that never get smaller. -/
theorem exists_indices (source : String) (operations : List Operation) {session : Session}
    {first : Nat} (h : session.window.StandsAt source first) :
    ∃ index : Nat → Nat, index 0 = first ∧ (∀ done, index done ≤ index (done + 1)) ∧
      ∀ done, (session.operateAll (operations.take done)).window.StandsAt source (index done) := by
  induction operations generalizing session first with
  | nil =>
      refine ⟨fun _ => first, rfl, fun _ => Nat.le_refl first, fun done => ?_⟩
      rw [List.take_nil]
      exact h
  | cons operation rest ih =>
      obtain ⟨more, hmoved⟩ := h.reaches (reaches_operate session operation)
      obtain ⟨index, hfirst, hle, hindex⟩ := ih hmoved
      refine ⟨fun done => Nat.casesOn done first index, rfl, ?_, ?_⟩
      · rintro (_ | done)
        · show first ≤ index 0
          rw [hfirst]
          exact Nat.le_add_right first more
        · exact hle done
      · rintro (_ | done)
        · exact h
        · exact hindex done

/-- After each of the operations of a session, whatever they are, its window stands at an index of
the row of tokens of its source, and the indices never get smaller. The scanner hands out the token
behind the two of the window next, and the windows further on show the rest of the row. The brace
depth is not negative. What is expected there and not found changes nothing about the window. -/
theorem place_in_source (source : String) (diagnostics? : Option Diagnostics)
    (operations : List Operation) :
    ∃ index : Nat → Nat, index 0 = 0 ∧ (∀ done, index done ≤ index (done + 1)) ∧
      ∀ done,
        let session := (Session.start source diagnostics?).operateAll (operations.take done)
        session.window.StandsAt source (index done) ∧
          session.window.scanner.next.1 = Token.row source (index done + 2) ∧
          (∀ count, (session.window.advanceBy count).current =
            Token.row source (index done + count)) ∧
          0 ≤ session.window.depth ∧
          ∀ kind, (session.perform fun _ => Reading.expect kind).1 = none →
            (session.operate (.expect kind)).window = session.window := by
  have hstart : (Session.start source diagnostics?).window.StandsAt source 0 :=
    Window.standsAt_ofSource source
  obtain ⟨index, hzero, hle, hindex⟩ := exists_indices source operations hstart
  refine ⟨index, hzero, hle, fun done => ?_⟩
  have hstands := hindex done
  refine ⟨hstands, hstands.awaits.next.1, fun count => (hstands.advanceBy count).current, ?_, ?_⟩
  · rw [hstands.depth]
    exact Window.openBraces_nonneg source (index done)
  · intro kind hnone
    rw [operate_expect_of_none _ kind hnone]
    rfl

end Session

end MonkeyFrontend
