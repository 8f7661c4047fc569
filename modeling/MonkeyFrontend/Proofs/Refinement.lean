import MonkeyFrontend.Proofs.SourceToken
import MonkeyFrontend.Proofs.Unfolding
import MonkeyFrontend.Session

/-!
# Routines do what parsers do

A window shows a cursor if its two tokens and those that its scanner will draw are the ones from
the cursor on, and the same number of braces is open (`Window.Shows`). Moving both forward keeps
this up. A routine follows a parser from a cursor on if, in front of every window that shows the
cursor and beside any diagnostics, it gives the value that the parser gives, leaves a window that
shows the place where the parser stops, and records the faults of the parser behind whatever was
recorded before (`Routine.Follows`). So it does not matter what the diagnostics held.

To follow is a simulation, so what the language's constructs do as routines is what they do as
parsers (`Simulation.following`). What is proved about parsers holds of sessions and of whole
sources that are read in them.

## Main results

* `Window.Shows.advance`, `Window.Shows.skip` — windows and cursors move together.
* `Simulation.following` — the steps of routines follow those of parsers.
* `Session.program_follows` — the statements that are left for a session.
* `parseInto_eq`, `parse_eq` — a whole source.
-/

namespace MonkeyFrontend

/-! ## Windows that show cursors -/

/-- A scanner draws the first token of those that are left, and leaves the others. -/
theorem Scanner.list_next (scanner : Scanner) :
    scanner.next.1 = (Token.list scanner.rest).headD .endOfInput ∧
      Token.list scanner.next.2.rest = (Token.list scanner.rest).tail := by
  rw [Token.list_eq scanner.rest]
  cases hnext : Token.next? scanner.rest with
  | none =>
      obtain ⟨htoken, hrest⟩ := next_of_none hnext
      rw [htoken, hrest, Token.list_eq]
      exact ⟨rfl, rfl⟩
  | some read =>
      obtain ⟨htoken, hrest⟩ := next_of_next? hnext
      rw [htoken, hrest]
      exact ⟨rfl, rfl⟩

/-- Every token takes a character at least. -/
theorem Token.length_list_le (text : List Char) : (list text).length ≤ text.length := by
  fun_induction list text with
  | case1 => exact Nat.zero_le _
  | case2 text token rest hnext ih =>
      have hshort := next?_length hnext
      rw [List.length_cons]
      omega

/-- Counting with natural numbers comes to the same as counting with integers. -/
theorem depthAfter_eq_bracesBehind (depth : Nat) (token : Token) :
    ((Cursor.depthAfter depth token : Nat) : Int) = bracesBehind depth token := by
  unfold Cursor.depthAfter bracesBehind
  split
  next hopen => rw [if_pos hopen, Int.natCast_add, Int.natCast_one]
  next hclose =>
    simp only [hclose, reduceCtorEq, if_false, true_and]
    split <;> omega
  next hopen hclose => rw [if_neg hopen, if_neg fun h => hclose h.1]

namespace Window

/-- A window shows the tokens from a cursor on, with as many open braces. -/
structure Shows (window : Window) (c : Cursor) : Prop where
  current : window.current = c.current
  peek : window.peek = c.peek
  /-- What the scanner draws comes behind the two tokens of the window. -/
  upcoming : Token.list window.scanner.rest = c.tokens.drop 2
  depth : window.depth = c.depth
  /-- The end of the input is not among the tokens in front of it. -/
  noEnd : ∀ token ∈ c.tokens, token.kind ≠ .endOfInput

variable {window : Window} {c : Cursor}

theorem shows_ofScanner {scanner : Scanner}
    (hnoEnd : ∀ token ∈ Token.list scanner.rest, token.kind ≠ .endOfInput) :
    (ofScanner scanner).Shows (.ofTokens (Token.list scanner.rest)) := by
  have hfirst := Scanner.list_next scanner
  have hsecond := Scanner.list_next scanner.next.2
  rw [hfirst.2] at hsecond
  exact
    { current := hfirst.1
      peek := hsecond.1
      upcoming := hsecond.2.trans (by rw [← List.drop_one, ← List.drop_one, List.drop_drop]; rfl)
      depth := rfl
      noEnd := hnoEnd }

theorem shows_ofSource (source : String) : (ofSource source).Shows (.ofSource source) :=
  shows_ofScanner fun _ hmem => Token.kind_ne_endOfInput_of_mem_ofSource hmem

theorem Shows.advance (h : window.Shows c) : window.advance.Shows c.advance := by
  have hnext := Scanner.list_next window.scanner
  rw [h.upcoming] at hnext
  exact
    { current := h.peek
      peek := hnext.1.trans (by simp [Cursor.peek, Cursor.advance, List.headD_eq_head?_getD])
      upcoming := hnext.2.trans (by simp [Cursor.advance])
      depth := by
        show bracesBehind window.depth window.current = _
        rw [h.depth, h.current, ← depthAfter_eq_bracesBehind]
        rfl
      noEnd := fun token hmem => h.noEnd token (List.mem_of_mem_tail hmem) }

theorem Shows.kind_eq_endOfInput_iff (h : window.Shows c) :
    window.current.kind = .endOfInput ↔ c.tokens = [] := by
  rw [h.current]
  exact ⟨fun hkind => Cursor.tokens_eq_nil_of_kind h.noEnd hkind,
    fun hnil => Cursor.current_of_tokens_eq_nil hnil ▸ rfl⟩

theorem Shows.endsStatement (h : window.Shows c) (home : Nat) :
    window.endsStatement home = Cursor.endsStatement home c.depth c.current := by
  have hdepth : ((c.depth : Int) == home) = (c.depth == home) := by
    rw [Bool.eq_iff_iff, beq_iff_eq, beq_iff_eq, Int.natCast_inj]
  simp [Window.endsStatement, Cursor.endsStatement, h.depth, h.current, hdepth]

/-- A broken statement is passed alike. -/
theorem Shows.skip (h : window.Shows c) (home : Nat) : (window.skip home).Shows (c.skip home) := by
  obtain ⟨tokens, depth⟩ := c
  induction tokens generalizing window depth with
  | nil =>
      rw [Window.skip, if_pos (h.kind_eq_endOfInput_iff.mpr rfl)]
      exact h
  | cons token rest ih =>
      have hkind : window.current.kind ≠ .endOfInput :=
        fun hend => List.cons_ne_nil _ _ (h.kind_eq_endOfInput_iff.mp hend)
      rw [Window.skip, if_neg hkind, h.endsStatement, Cursor.skip_cons]
      show (if Cursor.endsStatement home depth token then _ else _ : Window).Shows _
      split
      · exact h
      · exact ih _ h.advance

/-- The bound of a window is none too small. -/
theorem Shows.size_le_left (h : window.Shows c) : c.size ≤ window.left := by
  obtain ⟨tokens, depth⟩ := c
  have hweight : ∀ {token}, token ∈ tokens → weight token = 1 := fun hmem => if_neg (h.noEnd _ hmem)
  unfold left
  rw [h.current, h.peek]
  match tokens with
  | [] => exact Nat.zero_le _
  | [token] =>
      show 1 ≤ weight token + _ + _
      rw [hweight List.mem_cons_self]
      omega
  | first :: second :: rest =>
      have hrest := Token.length_list_le window.scanner.rest
      rw [h.upcoming] at hrest
      have hlength : rest.length ≤ window.scanner.rest.length := hrest
      show rest.length + 1 + 1 ≤ weight first + weight second + _
      rw [hweight List.mem_cons_self, hweight (List.mem_cons_of_mem _ List.mem_cons_self)]
      omega

end Window

/-! ## Routines that follow parsers -/

/-- Records faults in the order in which they were reported. -/
def Diagnostics.recordFaults (diagnostics : Diagnostics) (faults : List Fault) : Diagnostics :=
  diagnostics.recordAll (faults.map Fault.message)

theorem Diagnostics.recordFaults_append (diagnostics : Diagnostics) (first second : List Fault) :
    diagnostics.recordFaults (first ++ second) =
      (diagnostics.recordFaults first).recordFaults second := by
  unfold recordFaults recordAll
  rw [List.map_append, List.foldl_append]

/-- What a routine makes of one reader is what a run of a parser comes to: it gives the value,
leaves a window that shows the place where the run has stopped, and has recorded the faults. -/
structure Routine.Agrees {α : Type} (reader : Reader) (came : Option α × Reader)
    (outcome : Outcome α) : Prop where
  value : came.1 = outcome.value?
  window : came.2.window.Shows outcome.rest
  diagnostics : came.2.diagnostics = reader.diagnostics.recordFaults outcome.faults

/-- A routine does what a parser does from a cursor on, in front of every window that shows
the cursor and beside all diagnostics. -/
def Routine.Follows {α : Type} (c : Cursor) (routine : Routine α) (p : Parser α) : Prop :=
  ∀ reader : Reader, reader.window.Shows c → Agrees reader (routine.run reader) (p.run c)

namespace Routine

open MonkeyFrontend.Parser

variable {α β : Type} {c : Cursor}

theorem follows_andThen {routine : Routine α} {p : Parser α} {f : α → Routine β}
    {g : α → Parser β} (hfirst : Follows c routine p)
    (hnext : ∀ a, (p.run c).value? = some a → Follows (p.run c).rest (f a) (g a)) :
    Follows c (routine >>= f) (p >>= g) := by
  intro reader hshows
  obtain ⟨hvalue, hwindow, hdiagnostics⟩ := hfirst reader hshows
  cases hrun : routine.run reader with
  | mk value? rest =>
      rw [hrun] at hvalue hwindow hdiagnostics
      cases hp : (p.run c).value? with
      | none =>
          obtain rfl : value? = none := hvalue.trans hp
          rw [run_bind_of_value?_eq_none hp, Routine.run_bind_of_none hrun]
          exact ⟨rfl, hwindow, hdiagnostics⟩
      | some a =>
          obtain rfl : value? = some a := hvalue.trans hp
          obtain ⟨hvalue', hwindow', hdiagnostics'⟩ := hnext a hp rest hwindow
          rw [run_bind_of_value?_eq_some hp, Routine.run_bind_of_some hrun]
          refine ⟨hvalue', hwindow', hdiagnostics'.trans ?_⟩
          rw [hdiagnostics, ← Diagnostics.recordFaults_append]

theorem follows_look {view : Window → α} {other : Cursor → α}
    (h : ∀ window : Window, window.Shows c → view window = other c) :
    Follows c (Routine.look view) (Parser.look other) :=
  fun reader hshows => ⟨congrArg some (h reader.window hshows), hshows, rfl⟩

end Routine

/-- The steps of routines follow those of parsers. -/
def Simulation.following : Simulation Routine where
  Matches := Routine.Follows
  value _ _ := Routine.follows_look fun _ _ => rfl
  andThen := Routine.follows_andThen
  current _ := Routine.follows_look fun _ h => h.current
  peek _ := Routine.follows_look fun _ h => h.peek
  depth _ := Routine.follows_look fun _ h => h.depth
  advance _ := fun _ h => ⟨rfl, h.advance, rfl⟩
  skip _ home := fun _ h => ⟨rfl, h.skip home, rfl⟩
  fail _ := fun _ h => ⟨rfl, h, rfl⟩
  abort _ _ := fun _ h => ⟨rfl, h, rfl⟩
  attempt h := fun reader hshows =>
    have hagrees := h reader hshows
    ⟨congrArg some hagrees.value, hagrees.window, hagrees.diagnostics⟩
  bounded h heq := fun reader hshows => by
    have hbound := Nat.lt_succ_of_le hshows.size_le_left
    have hagrees := h _ hbound reader hshows
    rw [heq _ hbound] at hagrees
    exact hagrees

/-! ## Sessions and sources -/

/-- The statements that are left for a session are those that the parser finds from the place on
that the session's window shows, if the session's tables act like those of a dialect. -/
theorem Session.program_follows {session : Session} {strengths : Strengths} {c : Cursor}
    (hshows : session.window.Shows c) (hops : session.operators.ActsAlikeFrom strengths c) :
    let outcome := (Operators.dialect strengths).grammar.statements.run c
    session.program.1 = ⟨outcome.value?.getD []⟩ ∧
      session.program.2.window.Shows outcome.rest ∧
      session.program.2.diagnostics = session.diagnostics.recordFaults outcome.faults := by
  have halike := Operators.grammar_alikeOn .following session.operators strengths
  have hagrees := halike.statements hops session.reader hshows
  refine ⟨?_, hagrees.window, hagrees.diagnostics⟩
  simp only [Session.program, Session.perform, hagrees.value]

/-- The language's own tables act like those of the dialect that it is. -/
theorem Operators.actsAlikeFrom_language (c : Cursor) :
    (language : Operators Routine).ActsAlikeFrom .standard c :=
  fun _ _ => ⟨rfl, rfl⟩

/-- A session reads its source from the first token on, up to where the parser stops, and records
what is wrong with it behind what was recorded before. -/
theorem Session.program_start (source : String) (diagnostics? : Option Diagnostics) :
    let outcome := Operators.standard.grammar.statements.run (.ofSource source)
    let read := (start source diagnostics?).program
    read.1 = ⟨outcome.value?.getD []⟩ ∧ read.2.window.Shows outcome.rest ∧
      read.2.diagnostics = (diagnostics?.getD .empty).recordFaults outcome.faults := by
  have hshows : (start source diagnostics?).window.Shows (.ofSource source) :=
    Window.shows_ofSource source
  have hops : (start source diagnostics?).operators.ActsAlikeFrom .standard (.ofSource source) :=
    Operators.actsAlikeFrom_language _
  obtain ⟨hprogram, hrest, hdiagnostics⟩ := program_follows hshows hops
  rw [Operators.dialect_standard] at hprogram hrest hdiagnostics
  refine ⟨hprogram, hrest, ?_⟩
  rw [hdiagnostics]
  rfl

theorem parseInto_eq (diagnostics? : Option Diagnostics) (source : String) :
    parseInto diagnostics? source =
      (⟨(Operators.standard.grammar.statements.run (.ofSource source)).value?.getD []⟩,
        (diagnostics?.getD .empty).recordFaults
          (Operators.standard.grammar.statements.run (.ofSource source)).faults) := by
  obtain ⟨hprogram, _, hdiagnostics⟩ := Session.program_start source diagnostics?
  simp only [parseInto, hprogram, hdiagnostics]

theorem parse_eq (source : String) :
    parse source =
      (⟨(Operators.standard.grammar.statements.run (.ofSource source)).value?.getD []⟩,
        Diagnostics.empty.recordFaults
          (Operators.standard.grammar.statements.run (.ofSource source)).faults) :=
  parseInto_eq (some .empty) source

theorem parse_statements (source : String) :
    (parse source).1.statements =
      (Operators.standard.grammar.statements.run (.ofSource source)).value?.getD [] := by
  rw [parse_eq]

theorem parse_messages (source : String) :
    (parse source).2.messages =
      (Operators.standard.grammar.statements.run (.ofSource source)).faults.map Fault.message := by
  rw [parse_eq, Diagnostics.recordFaults, Diagnostics.messages_recordAll]
  rfl

end MonkeyFrontend
