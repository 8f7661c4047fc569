import MonkeyFrontend.Proofs.CleanConstruct
import MonkeyFrontend.Proofs.StatementCalls

/-!
# Where trees come from

A tree that the reader gives was put together from tokens, each part of it from the tokens
where that part was read. `ComesFrom` says so construct by construct, as a relation
between a place, a tree and a place. It is about sources with faults in them as much
as about others: among the statements of a program or a block there may be places at which
a call for a statement gave none, and nothing comes from there.

The relation is what the reader can do, said once. What is true of all trees that are read
follows from it by induction, without another look at the reader.

The reader is followed through its constructs by what their runs ensure if they give a
value (`Parser.Ensures`). That an expression inside a construct comes from where it was
read may be assumed, because it was read behind the construct's first token
(`Grammar.TracesFrom`).

## Main results

* `Parser.Ensures.bind`, `Parser.ensures_many`, `Parser.ensures_grow` — what sequences and
  loops ensure.
* `Grammar.TracesFrom.expressionIn` — one round of the reader gives trees that come from
  where they were read, if the expressions inside do.
* `Operators.comesFrom_program` — the statements of a program come from its source.
-/

namespace MonkeyFrontend

open Cursor

/-! ## What runs ensure -/

namespace Parser

variable {α β : Type} {c : Cursor}

/-- If the run from a place gives a value, then the value and the place where the run stops
are as `post` says. -/
def Ensures (p : Parser α) (c : Cursor) (post : α → Cursor → Prop) : Prop :=
  ∀ a, (p.run c).value? = some a → post a (p.run c).rest

theorem Ensures.pure {a : α} {post : α → Cursor → Prop} (h : post a c) :
    Ensures (pure a : Parser α) c post := by
  rintro _ ⟨⟩
  exact h

theorem ensures_abort {fault : Fault} {post : α → Cursor → Prop} :
    Ensures (abort fault : Parser α) c post := by
  intro a hvalue
  cases hvalue

/-- What a sequence ensures is ensured by its second part, wherever the first part stops. -/
theorem Ensures.bind {p : Parser α} {f : α → Parser β} {mid : α → Cursor → Prop}
    {post : β → Cursor → Prop} (hp : Ensures p c mid)
    (hf : ∀ a r, c.Reaches r → mid a r → Ensures (f a) r post) : Ensures (p >>= f) c post := by
  intro b hvalue
  obtain ⟨a, hfirst, hsecond, hrest⟩ := value?_bind hvalue
  rw [hrest]
  exact hf a _ (p.reaches_rest c) (hp a hfirst) b hsecond

theorem Ensures.of_run_eq {p q : Parser α} {d : Cursor} {post : α → Cursor → Prop}
    (h : Ensures q d post) (hrun : p.run c = q.run d) : Ensures p c post := by
  unfold Ensures
  rw [hrun]
  exact h

variable {post : β → Cursor → Prop}

theorem ensures_current_bind {f : Token → Parser β} (h : Ensures (f c.current) c post) :
    Ensures (current >>= f) c post :=
  h.of_run_eq (run_current_bind f c)

theorem ensures_peek_bind {f : Token → Parser β} (h : Ensures (f c.peek) c post) :
    Ensures (peek >>= f) c post :=
  h.of_run_eq (run_peek_bind f c)

theorem ensures_advance_bind {f : Unit → Parser β} (h : Ensures (f ()) c.advance post) :
    Ensures (advance >>= f) c post :=
  h.of_run_eq (run_advance_bind f c)

theorem ensures_expect_bind {kind : Kind} {f : Unit → Parser β}
    (h : c.peek.kind = kind → Ensures (f ()) c.advance post) :
    Ensures (expect kind >>= f) c post := by
  unfold expect Reading.expect
  rw [bind_assoc]
  apply ensures_peek_bind
  split
  next hkind => exact ensures_advance_bind (h hkind)
  next =>
    have habort : Ensures (abort (.unexpected kind c.peek.kind) : Parser Unit) c fun _ _ => False :=
      ensures_abort
    exact habort.bind fun _ _ _ hfalse => hfalse.elim

/-- A round adds to what a loop finds: nothing at its end, and elsewhere an item in front of
what is found from there on. -/
def Contributes (found : Cursor → List α → Cursor → Prop) (c : Cursor) :
    Option α → Cursor → Prop
  | none, r => found c [] r
  | some a, m => ∀ rest r, found m rest r → found c (a :: rest) r

/-- A loop finds what its rounds contribute. -/
theorem ensures_many {item : Parser (Option α)} {found : Cursor → List α → Cursor → Prop}
    (hround : Progresses item)
    (hitem : ∀ r, c.Reaches r → Ensures item r (Contributes found r)) :
    Ensures (many item) c (found c) := by
  induction hsize : c.size using Nat.strongRecOn generalizing c with
  | ind size ih =>
      rw [many_eq hround]
      intro all hvalue
      obtain ⟨o, hfirst, hsecond, hrest⟩ := value?_bind hvalue
      have hreach := item.reaches_rest c
      have hmid := hitem c (.refl c) o hfirst
      rw [hrest]
      cases o with
      | none =>
          cases hsecond
          exact hmid
      | some a =>
          have hshort := hround c a hfirst
          have hbehind := ih _ (hsize ▸ hshort) (fun r hr => hitem r (hreach.trans hr)) rfl
          exact (hbehind.bind fun rest k _ hfound => .pure (hmid rest k hfound)) all hsecond

/-- What the steps of a growth keep is ensured of what has grown. -/
theorem ensures_grow {step : α → Parser (Option α)} {keeps : α → Cursor → Prop}
    (hround : ∀ a, Progresses (step a)) {value : α}
    (hstep : ∀ a r, c.Reaches r → keeps a r → Ensures (step a) r fun o k => keeps (o.getD a) k)
    (hstart : keeps value c) : Ensures (grow step value) c keeps := by
  induction hsize : c.size using Nat.strongRecOn generalizing c value with
  | ind size ih =>
      rw [grow_eq hround]
      intro result hvalue
      obtain ⟨o, hfirst, hsecond, hrest⟩ := value?_bind hvalue
      have hreach := (step value).reaches_rest c
      have hkeeps := hstep value c (.refl c) hstart o hfirst
      rw [hrest]
      cases o with
      | none =>
          cases hsecond
          exact hkeeps
      | some grown =>
          have hshort := hround value c grown hfirst
          exact ih _ (hsize ▸ hshort) (fun a r hr => hstep a r (hreach.trans hr)) hkeeps rfl
            result hsecond

end Parser

/-! ## Trees and places -/

theorem Cursor.reaches_pastSemicolon (c : Cursor) : c.Reaches c.pastSemicolon := by
  unfold pastSemicolon
  split
  · exact reaches_advance c
  · exact .refl c

/-- A tree, or a row of trees. -/
inductive Fragment where
  | expression (tree : Expr)
  /-- What stands between the parentheses of a function. -/
  | names (names : List Name)
  /-- The names behind the first one, each with its comma. -/
  | moreNames (names : List Name)
  /-- What stands between the parentheses of a call. -/
  | arguments (trees : List Expr)
  /-- The arguments behind the first one, each with its comma. -/
  | moreArguments (trees : List Expr)
  | statement (tree : Statement)
  /-- Statements of a program or of a block. -/
  | statements (trees : List Statement)
  | block (tree : Block)

/-- A fragment comes from the tokens between two places. The second place is the one of the
last token, except for a row of statements, where it is the one behind them. Parentheses
around names and arguments belong to them. A statement is what a call for one gives at its
first token. -/
inductive ComesFrom (grammar : Grammar) : Cursor → Fragment → Cursor → Prop
  | name {c : Cursor} :
    c.current.kind = .name →
      ComesFrom grammar c (.expression (.name ⟨c.current, c.current.literal⟩)) c
  | integer {c : Cursor} {value : Int} :
    c.current.kind = .number → readInteger c.current.literal = .ok value →
      ComesFrom grammar c (.expression (.integer c.current value)) c
  | boolean {c : Cursor} :
    c.current.kind = .trueWord ∨ c.current.kind = .falseWord →
      ComesFrom grammar c (.expression (.boolean c.current (c.current.kind == .trueWord))) c
  | unary {c r : Cursor} {operand : Expr} :
    c.current.kind = .bang ∨ c.current.kind = .minus →
      ComesFrom grammar c.advance (.expression operand) r →
        ComesFrom grammar c (.expression (.unary c.current c.current.literal operand)) r
  | binary {c m r : Cursor} {left right : Expr} :
    ComesFrom grammar c (.expression left) m → m.peek.kind.isBinary = true →
      ComesFrom grammar m.advance.advance (.expression right) r →
        ComesFrom grammar c (.expression (.binary m.peek left m.peek.literal right)) r
  | grouped {c m : Cursor} {inner : Expr} :
    c.current.kind = .openParen → ComesFrom grammar c.advance (.expression inner) m →
      m.peek.kind = .closeParen → ComesFrom grammar c (.expression inner) m.advance
  | conditional {c m r : Cursor} {condition : Expr} {consequence : Block} :
    c.current.kind = .ifWord → c.peek.kind = .openParen →
      ComesFrom grammar c.advance.advance (.expression condition) m →
      m.peek.kind = .closeParen →
      ComesFrom grammar m.advance.advance (.block consequence) r →
        ComesFrom grammar c (.expression (.conditional c.current condition consequence none)) r
  | conditionalElse {c m k r : Cursor} {condition : Expr} {consequence alternative : Block} :
    c.current.kind = .ifWord → c.peek.kind = .openParen →
      ComesFrom grammar c.advance.advance (.expression condition) m →
      m.peek.kind = .closeParen →
      ComesFrom grammar m.advance.advance (.block consequence) k →
      k.peek.kind = .elseWord → ComesFrom grammar k.advance.advance (.block alternative) r →
        ComesFrom grammar c
          (.expression (.conditional c.current condition consequence (some alternative))) r
  | function {c m r : Cursor} {names : List Name} {body : Block} :
    c.current.kind = .fnWord → ComesFrom grammar c.advance (.names names) m →
      ComesFrom grammar m.advance (.block body) r →
        ComesFrom grammar c (.expression (.function c.current names body)) r
  | call {c m r : Cursor} {callee : Expr} {trees : List Expr} :
    ComesFrom grammar c (.expression callee) m →
      ComesFrom grammar m.advance (.arguments trees) r →
        ComesFrom grammar c (.expression (.call m.peek callee trees)) r
  | noNames {c : Cursor} :
    c.current.kind = .openParen → c.peek.kind = .closeParen →
      ComesFrom grammar c (.names []) c.advance
  | names {c m : Cursor} {rest : List Name} :
    c.current.kind = .openParen → c.peek.kind = .name →
      ComesFrom grammar c.advance (.moreNames rest) m → m.peek.kind = .closeParen →
        ComesFrom grammar c (.names (⟨c.peek, c.peek.literal⟩ :: rest)) m.advance
  | noMoreNames {c : Cursor} : ComesFrom grammar c (.moreNames []) c
  | moreNames {c r : Cursor} {rest : List Name} :
    c.peek.kind = .comma → c.advance.peek.kind = .name →
      ComesFrom grammar c.advance.advance (.moreNames rest) r →
        ComesFrom grammar c
          (.moreNames (⟨c.advance.peek, c.advance.peek.literal⟩ :: rest)) r
  | noArguments {c : Cursor} :
    c.current.kind = .openParen → c.peek.kind = .closeParen →
      ComesFrom grammar c (.arguments []) c.advance
  | arguments {c k m : Cursor} {tree : Expr} {rest : List Expr} :
    c.current.kind = .openParen → ComesFrom grammar c.advance (.expression tree) k →
      ComesFrom grammar k (.moreArguments rest) m → m.peek.kind = .closeParen →
        ComesFrom grammar c (.arguments (tree :: rest)) m.advance
  | noMoreArguments {c : Cursor} : ComesFrom grammar c (.moreArguments []) c
  | moreArguments {c k r : Cursor} {tree : Expr} {rest : List Expr} :
    c.peek.kind = .comma → ComesFrom grammar c.advance.advance (.expression tree) k →
      ComesFrom grammar k (.moreArguments rest) r →
        ComesFrom grammar c (.moreArguments (tree :: rest)) r
  | binding {c m : Cursor} {value : Expr} :
    grammar.called c = some (.binding c.current ⟨c.peek, c.peek.literal⟩ value) →
    c.current.kind = .letWord → c.peek.kind = .name → c.advance.peek.kind = .assign →
      ComesFrom grammar c.advance.advance.advance (.expression value) m →
        ComesFrom grammar c (.statement (.binding c.current ⟨c.peek, c.peek.literal⟩ value))
          m.pastSemicolon
  | result {c m : Cursor} {value : Expr} :
    grammar.called c = some (.result c.current value) →
    c.current.kind = .returnWord → ComesFrom grammar c.advance (.expression value) m →
      ComesFrom grammar c (.statement (.result c.current value)) m.pastSemicolon
  | expression {c m : Cursor} {value : Expr} :
    grammar.called c = some (.expression c.current value) →
    ComesFrom grammar c (.expression value) m →
      ComesFrom grammar c (.statement (.expression c.current value)) m.pastSemicolon
  | noStatements {c : Cursor} : ComesFrom grammar c (.statements []) c
  | kept {c m r : Cursor} {tree : Statement} {rest : List Statement} :
    ComesFrom grammar c (.statement tree) m → ComesFrom grammar m.advance (.statements rest) r →
        ComesFrom grammar c (.statements (tree :: rest)) r
  | dropped {c m r : Cursor} {trees : List Statement} :
    grammar.called c = none → c.Reaches m → ComesFrom grammar m (.statements trees) r →
      ComesFrom grammar c (.statements trees) r
  | block {c r : Cursor} {trees : List Statement} :
    c.current.kind = .openBrace → ComesFrom grammar c.advance (.statements trees) r →
      r.current.kind = .closeBrace → ComesFrom grammar c (.block ⟨c.current, trees⟩) r

theorem ComesFrom.reaches {grammar : Grammar} {c r : Cursor} {fragment : Fragment}
    (h : ComesFrom grammar c fragment r) : c.Reaches r := by
  induction h with
  | name _ | integer _ _ | boolean _ | noMoreNames | noMoreArguments | noStatements =>
      exact .refl _
  | unary _ _ ih => exact (reaches_advance _).trans ih
  | binary _ _ _ ihleft ihright => exact (ihleft.trans ⟨2, rfl⟩).trans ihright
  | grouped _ _ _ ih => exact ((reaches_advance _).trans ih).trans (reaches_advance _)
  | conditional _ _ _ _ _ ihcondition ihthen =>
      have hbrace := (Reaches.trans ⟨2, rfl⟩ ihcondition).trans ⟨2, rfl⟩
      exact hbrace.trans ihthen
  | conditionalElse _ _ _ _ _ _ _ ihcondition ihthen ihelse =>
      have hbrace := (Reaches.trans ⟨2, rfl⟩ ihcondition).trans ⟨2, rfl⟩
      exact ((hbrace.trans ihthen).trans ⟨2, rfl⟩).trans ihelse
  | function _ _ _ ihnames ihbody =>
      exact (((reaches_advance _).trans ihnames).trans (reaches_advance _)).trans ihbody
  | call _ _ ihcallee ihtrees => exact (ihcallee.trans (reaches_advance _)).trans ihtrees
  | noNames _ _ | noArguments _ _ => exact reaches_advance _
  | names _ _ _ _ ih => exact ((reaches_advance _).trans ih).trans (reaches_advance _)
  | moreNames _ _ _ ih => exact Reaches.trans ⟨2, rfl⟩ ih
  | arguments _ _ _ _ ihtree ihrest =>
      exact (((reaches_advance _).trans ihtree).trans ihrest).trans (reaches_advance _)
  | moreArguments _ _ _ ihtree ihrest => exact (Reaches.trans ⟨2, rfl⟩ ihtree).trans ihrest
  | binding _ _ _ _ _ ih => exact (Reaches.trans ⟨3, rfl⟩ ih).trans (reaches_pastSemicolon _)
  | result _ _ _ ih => exact ((reaches_advance _).trans ih).trans (reaches_pastSemicolon _)
  | expression _ _ ih => exact ih.trans (reaches_pastSemicolon _)
  | kept _ _ ihtree ihrest => exact (ihtree.trans (reaches_advance _)).trans ihrest
  | dropped _ hreach _ ih => exact hreach.trans ih
  | block _ _ _ ih => exact (reaches_advance _).trans ih

theorem ComesFrom.openParen_of_arguments {grammar : Grammar} {c r : Cursor} {trees : List Expr}
    (h : ComesFrom grammar c (.arguments trees) r) : c.current.kind = .openParen := by
  cases h with
  | noArguments hopen _ => exact hopen
  | arguments hopen _ _ _ => exact hopen

/-! ## Loops of statements -/

/-- A loop that goes on behind the statements that it was given, and somewhere later where
it was given none. -/
structure StatementLoop.Follows (loop : StatementLoop) (grammar : Grammar) : Prop where
  kept : ∀ {c tree}, grammar.called c = some tree →
    loop.onward c = (grammar.statement.run c).rest.advance
  reaches : ∀ {c}, ¬ loop.stops c → c.Reaches (loop.onward c)

namespace Grammar

theorem follows_programLoop (grammar : Grammar) : grammar.programLoop.Follows grammar where
  kept _ := rfl
  reaches hopen := (grammar.rounds_programItem.before_onward hopen).1

theorem follows_blockLoop (grammar : Grammar) : grammar.blockLoop.Follows grammar where
  kept hcalled := if_neg (by simp [hcalled])
  reaches hopen := (grammar.rounds_blockItem.before_onward hopen).1

end Grammar

/-! ## Constructs -/

/-- From this place on, the expressions that a grammar gives come from where they were
read. -/
def Grammar.TracesFrom (grammar : Grammar) (c : Cursor) : Prop :=
  ∀ r, c.Reaches r → ∀ weakest, Parser.Ensures (grammar.expression weakest) r
    fun tree k => ComesFrom grammar r (.expression tree) k

namespace Grammar

open MonkeyFrontend.Parser

theorem ensures_optionalSemicolon_bind {β : Type} {f : Unit → Parser β} {c : Cursor}
    {post : β → Cursor → Prop} (h : Ensures (f ()) c.pastSemicolon post) :
    Ensures (optionalSemicolon >>= f) c post := by
  unfold optionalSemicolon
  rw [bind_assoc]
  apply ensures_peek_bind
  unfold pastSemicolon at h
  split
  next hkind =>
    rw [if_pos hkind] at h
    exact ensures_advance_bind h
  next hkind =>
    rw [if_neg hkind] at h
    rwa [pure_bind]

namespace TracesFrom

variable {grammar : Grammar} {c r : Cursor}

theorem reaches (h : grammar.TracesFrom c) (hr : c.Reaches r) : grammar.TracesFrom r :=
  fun k hk => h k (hr.trans hk)

/-- What is traced from the next place on is traced from the place behind any later one. -/
theorem beyond (h : grammar.TracesFrom c.advance) (hr : c.Reaches r) :
    grammar.TracesFrom r.advance :=
  h.reaches hr.advance

/-! ### Statements -/

theorem binding (h : grammar.TracesFrom c) (hkind : c.current.kind = .letWord) :
    Ensures grammar.binding c fun tree k =>
      grammar.called c = some tree → ComesFrom grammar c (.statement tree) k := by
  apply ensures_current_bind
  refine ensures_expect_bind fun hname => ?_
  apply ensures_current_bind
  refine ensures_expect_bind fun hassign => ?_
  apply ensures_advance_bind
  refine (h _ ⟨3, rfl⟩ .lowest).bind fun value m _ hvalue => ?_
  exact ensures_optionalSemicolon_bind
    (.pure fun hcalled => .binding hcalled hkind hname hassign hvalue)

theorem result (h : grammar.TracesFrom c) (hkind : c.current.kind = .returnWord) :
    Ensures grammar.result c fun tree k =>
      grammar.called c = some tree → ComesFrom grammar c (.statement tree) k := by
  apply ensures_current_bind
  apply ensures_advance_bind
  refine (h _ (reaches_advance c) .lowest).bind fun value m _ hvalue => ?_
  exact ensures_optionalSemicolon_bind (.pure fun hcalled => .result hcalled hkind hvalue)

theorem expressionStatement (h : grammar.TracesFrom c) :
    Ensures grammar.expressionStatement c fun tree k =>
      grammar.called c = some tree → ComesFrom grammar c (.statement tree) k := by
  apply ensures_current_bind
  refine (h _ (.refl c) .lowest).bind fun value m _ hvalue => ?_
  exact ensures_optionalSemicolon_bind (.pure fun hcalled => .expression hcalled hvalue)

/-- A statement comes from the place at which it was called for. -/
theorem statement (h : grammar.TracesFrom c) {tree : Statement}
    (hcalled : grammar.called c = some tree) :
    ComesFrom grammar c (.statement tree) (grammar.statement.run c).rest := by
  have hvalue := (grammar.run_statement_called c).1.symm.trans hcalled
  rw [run_statement_of_some hvalue]
  generalize hkind : c.current.kind = kind at hvalue ⊢
  unfold statementFrom at hvalue ⊢
  split at hvalue
  · exact h.binding hkind tree hvalue hcalled
  · exact h.result hkind tree hvalue hcalled
  · exact h.expressionStatement tree hvalue hcalled

/-! ### Rows of statements -/

theorem statements {loop : StatementLoop} (hloop : loop.Follows grammar) {places : List Cursor}
    (hcalls : loop.Calls c places r) (h : grammar.TracesFrom c) :
    ComesFrom grammar c (.statements (places.filterMap grammar.called)) r := by
  induction hcalls with
  | done _ => exact .noStatements
  | @call c finish places hopen _ ih =>
      have hreaches := hloop.reaches hopen
      have hrest := ih (h.reaches hreaches)
      cases hcalled : grammar.called c with
      | none =>
          rw [List.filterMap_cons_none hcalled]
          exact .dropped hcalled hreaches hrest
      | some tree =>
          rw [List.filterMap_cons_some hcalled]
          rw [hloop.kept hcalled] at hrest
          exact .kept (h.statement hcalled) hrest

theorem block (h : grammar.TracesFrom c.advance) (hkind : c.current.kind = .openBrace) :
    Ensures grammar.block c fun tree k => ComesFrom grammar c (.block tree) k := by
  obtain ⟨places, finish, hcalls⟩ := grammar.rounds_blockItem.exists_calls c.advance
  have hrow := statements (grammar.follows_blockLoop) hcalls h
  have hstops : finish.current.kind = .closeBrace ∨ finish.current.kind = .endOfInput :=
    hcalls.stops
  intro tree hvalue
  rw [grammar.run_block_of_calls hcalls] at hvalue ⊢
  split at hvalue
  · cases hvalue
  next hopen =>
    rw [if_neg hopen]
    cases hvalue
    exact .block hkind hrow (hstops.resolve_right hopen)

/-! ### Names and arguments -/

theorem nextParameter (c : Cursor) :
    Ensures nextParameter c
      (Contributes (fun c names r => ComesFrom grammar c (.moreNames names) r) c) := by
  apply ensures_peek_bind
  split
  next hcomma =>
    apply ensures_advance_bind
    unfold parameter
    rw [bind_assoc]
    refine ensures_expect_bind fun hname => ?_
    rw [bind_assoc]
    apply ensures_current_bind
    exact .pure fun rest k hrest => .moreNames hcomma hname hrest
  next => exact .pure .noMoreNames

theorem parameters (hkind : c.current.kind = .openParen) :
    Ensures grammar.parameters c fun names k => ComesFrom grammar c (.names names) k := by
  apply ensures_peek_bind
  split
  next hclose => exact ensures_advance_bind (.pure (.noNames hkind hclose))
  next =>
    unfold parameter
    rw [bind_assoc]
    refine ensures_expect_bind fun hname => ?_
    rw [bind_assoc]
    apply ensures_current_bind
    rw [pure_bind]
    have hrest : Ensures (many Grammar.nextParameter) c.advance
        fun names k => ComesFrom grammar c.advance (.moreNames names) k :=
      ensures_many progresses_nextParameter fun r _ => nextParameter r
    refine hrest.bind fun rest m _ hmore => ?_
    exact ensures_expect_bind fun hclose => .pure (.names hkind hname hmore hclose)

theorem nextArgument (h : grammar.TracesFrom c.advance) :
    Ensures grammar.nextArgument c
      (Contributes (fun c trees r => ComesFrom grammar c (.moreArguments trees) r) c) := by
  apply ensures_peek_bind
  split
  next hcomma =>
    apply ensures_advance_bind
    apply ensures_advance_bind
    refine (h _ (reaches_advance _) .lowest).bind fun tree m _ htree => ?_
    exact .pure fun rest k hrest => .moreArguments hcomma htree hrest
  next => exact .pure .noMoreArguments

theorem arguments (h : grammar.TracesFrom c.advance) (hkind : c.current.kind = .openParen) :
    Ensures grammar.arguments c fun trees k => ComesFrom grammar c (.arguments trees) k := by
  apply ensures_peek_bind
  split
  next hclose => exact ensures_advance_bind (.pure (.noArguments hkind hclose))
  next =>
    apply ensures_advance_bind
    refine (h _ (.refl _) .lowest).bind fun tree k hk htree => ?_
    have hrest : Ensures (many grammar.nextArgument) k
        fun trees m => ComesFrom grammar k (.moreArguments trees) m :=
      ensures_many (progresses_nextArgument grammar) fun r hr =>
        (h.reaches (hk.trans (hr.trans (reaches_advance r)))).nextArgument
    refine hrest.bind fun rest m _ hmore => ?_
    exact ensures_expect_bind fun hclose => .pure (.arguments hkind htree hmore hclose)

/-! ### Expressions -/

theorem unary (h : grammar.TracesFrom c.advance)
    (hkind : c.current.kind = .bang ∨ c.current.kind = .minus) :
    Ensures grammar.unary c fun tree k => ComesFrom grammar c (.expression tree) k := by
  apply ensures_current_bind
  apply ensures_advance_bind
  refine (h _ (.refl _) .prefixed).bind fun operand m _ hoperand => ?_
  exact .pure (.unary hkind hoperand)

theorem grouped (h : grammar.TracesFrom c.advance) (hkind : c.current.kind = .openParen) :
    Ensures grammar.grouped c fun tree k => ComesFrom grammar c (.expression tree) k := by
  apply ensures_advance_bind
  refine (h _ (.refl _) .lowest).bind fun inner m _ hinner => ?_
  exact ensures_expect_bind fun hclose => .pure (.grouped hkind hinner hclose)

/-- The block behind an `else` is there if and only if the `else` is. -/
theorem alternative (h : grammar.TracesFrom c.advance) :
    Ensures grammar.alternative c fun o k =>
      match o with
      | none => k = c
      | some tree =>
        c.peek.kind = .elseWord ∧ ComesFrom grammar c.advance.advance (.block tree) k := by
  apply ensures_peek_bind
  split
  next hword =>
    apply ensures_advance_bind
    refine ensures_expect_bind fun hopen => ?_
    have hinside : grammar.TracesFrom c.advance.advance.advance := h.reaches ⟨2, rfl⟩
    exact (hinside.block hopen).bind fun tree k _ htree => .pure ⟨hword, htree⟩
  next => exact .pure rfl

theorem conditional (h : grammar.TracesFrom c.advance) (hkind : c.current.kind = .ifWord) :
    Ensures grammar.conditional c fun tree k => ComesFrom grammar c (.expression tree) k := by
  apply ensures_current_bind
  refine ensures_expect_bind fun hopen => ?_
  apply ensures_advance_bind
  refine (h _ (reaches_advance _) .lowest).bind fun condition m hm hcondition => ?_
  refine ensures_expect_bind fun hclose => ?_
  refine ensures_expect_bind fun hbrace => ?_
  have hthen : grammar.TracesFrom m.advance.advance.advance :=
    h.reaches (((reaches_advance _).trans hm).trans ⟨3, rfl⟩)
  refine (hthen.block hbrace).bind fun consequence k hk hconsequence => ?_
  have helse := (hthen.reaches hk.advance).alternative
  refine helse.bind fun o r _ ho => .pure ?_
  cases o with
  | none =>
      obtain rfl : r = k := ho
      exact .conditional hkind hopen hcondition hclose hconsequence
  | some tree => exact .conditionalElse hkind hopen hcondition hclose hconsequence ho.1 ho.2

theorem function (h : grammar.TracesFrom c.advance) (hkind : c.current.kind = .fnWord) :
    Ensures grammar.function c fun tree k => ComesFrom grammar c (.expression tree) k := by
  apply ensures_current_bind
  refine ensures_expect_bind fun hopen => ?_
  refine (parameters (c := c.advance) hopen).bind fun names m hm hnames => ?_
  refine ensures_expect_bind fun hbrace => ?_
  have hbody : grammar.TracesFrom m.advance.advance := h.reaches (hm.trans ⟨2, rfl⟩)
  refine (hbody.block hbrace).bind fun body k _ htree => ?_
  exact .pure (.function hkind hnames htree)

theorem prefixRule (h : grammar.TracesFrom c.advance) {rule : PrefixRule}
    (hrule : Operators.standardPrefixRule? c.current.kind = some rule) :
    Ensures (rule grammar) c fun tree k => ComesFrom grammar c (.expression tree) k := by
  generalize hkind : c.current.kind = kind at hrule
  unfold Operators.standardPrefixRule? at hrule
  split at hrule <;> cases hrule
  · exact ensures_current_bind (.pure (.name hkind))
  · apply ensures_current_bind
    split
    next value hvalue => exact .pure (.integer hkind hvalue)
    next => exact ensures_abort
  · exact ensures_current_bind (.pure (.boolean (.inl hkind)))
  · exact ensures_current_bind (.pure (.boolean (.inr hkind)))
  · exact h.unary (.inl hkind)
  · exact h.unary (.inr hkind)
  · exact h.grouped hkind
  · exact h.conditional hkind
  · exact h.function hkind

/-- What an operator or a call makes of an expression comes from where the expression
comes from. -/
theorem infixRule {left : Expr} {m : Cursor} (hleft : ComesFrom grammar c (.expression left) m)
    (h : grammar.TracesFrom m.advance.advance) {rule : InfixRule}
    (hrule : Operators.standardInfixRule? m.peek.kind = some rule) :
    Ensures (rule grammar left) m.advance
      fun tree k => ComesFrom grammar c (.expression tree) k := by
  by_cases hopen : m.peek.kind = .openParen
  · rw [hopen] at hrule
    cases hrule
    apply ensures_current_bind
    refine (h.arguments hopen).bind fun trees k _ htrees => ?_
    exact .pure (.call hleft htrees)
  · by_cases hbinary : m.peek.kind.isBinary = true
    · rw [Operators.standardInfixRule?_of_isBinary hbinary] at hrule
      cases hrule
      apply ensures_current_bind
      apply ensures_advance_bind
      refine (h _ (.refl _) _).bind fun right k _ hright => ?_
      exact .pure (.binary hleft hbinary hright)
    · rw [Operators.standardInfixRule?_eq_none_iff.mpr ⟨by simpa using hbinary, hopen⟩] at hrule
      cases hrule

variable {strengths : Strengths}

/-- An expression that grows still comes from where it began. -/
theorem extend {left : Expr} {m : Cursor} (hleft : ComesFrom grammar c (.expression left) m)
    (h : grammar.TracesFrom m.advance) (weakest : Precedence) :
    Ensures ((Operators.dialect strengths).extend grammar weakest left) m
      fun o k => ComesFrom grammar c (.expression (o.getD left)) k := by
  apply ensures_peek_bind
  split
  · exact .pure hleft
  · split
    next => exact .pure hleft
    next rule hrule =>
      apply ensures_advance_bind
      have hinfix := infixRule hleft (h.reaches (reaches_advance _)) hrule
      exact hinfix.bind fun tree k _ htree => .pure htree

/-- One round of the reader gives trees that come from where they were read, if the
expressions behind the first token do. -/
theorem expressionIn (h : grammar.TracesFrom c.advance) (weakest : Precedence) :
    Ensures ((Operators.dialect strengths).expressionIn grammar weakest) c
      fun tree k => ComesFrom grammar c (.expression tree) k := by
  apply ensures_current_bind
  split
  · exact ensures_abort
  next rule hrule =>
    refine (h.prefixRule hrule).bind fun left m hm hleft => ?_
    exact ensures_grow (Operators.progresses_extend strengths grammar weakest)
      (fun tree r hr htree => extend htree (h.beyond (hm.trans hr)) weakest) hleft

end TracesFrom

end Grammar

/-! ## Programs -/

namespace Operators

variable (strengths : Strengths)

/-- Whatever expressions the reader gives come from where they were read. -/
theorem tracesFrom (c : Cursor) : (dialect strengths).grammar.TracesFrom c := by
  -- On the number of tokens left: expressions inside an expression lie behind its first token.
  induction hsize : c.size using Nat.strongRecOn generalizing c with
  | ind size ih =>
      intro r hr weakest
      show Parser.Ensures ((dialect strengths).expression weakest) r _
      rw [expression_eq]
      by_cases hnil : r.tokens = []
      · have hrun := run_expressionIn_of_tokens_eq_nil strengths (dialect strengths).grammar
          weakest hnil
        intro tree hvalue
        rw [hrun] at hvalue
        cases hvalue
      · have hshort : r.advance.size < size :=
          hsize ▸ Nat.lt_of_lt_of_le (size_advance_lt hnil) hr.size_le
        have hinner : (dialect strengths).grammar.TracesFrom r.advance := ih _ hshort _ rfl
        exact hinner.expressionIn weakest

/-- The statements of a program come from its source, up to the place where its loop
stops. -/
theorem comesFrom_program (c : Cursor) :
    ∃ trees finish,
      ((dialect strengths).grammar.statements.run c).value? = some trees ∧
        ComesFrom (dialect strengths).grammar c (.statements trees) finish := by
  obtain ⟨places, finish, hcalls⟩ :=
    (dialect strengths).grammar.rounds_programItem.exists_calls c
  refine ⟨_, finish, ?_, Grammar.TracesFrom.statements (Grammar.follows_programLoop _) hcalls
    (tracesFrom strengths c)⟩
  rw [Grammar.run_statements_of_calls _ hcalls]

end Operators

end MonkeyFrontend
