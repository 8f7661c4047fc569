import MonkeyFrontend.Proofs.RegistryShape
import MonkeyFrontend.Proofs.TextTables
import MonkeyFrontend.Scanner

/-!
# What the checks of a registry find

Each of the three checks compares the entries of a registry with the language. The first
and the third find nothing exactly if the comparison turns out right: the names are the
labels of the kinds (`nameComplaints_eq_nil_iff`), and every lexeme is read as one token of
its entry's kind (`exists_checkLexemes`).

The second check does not look at the keyword entries one by one. It gathers them in a
table from lexemes to names, in which a later entry takes the place of an earlier one with
the same lexeme, and compares the table with the reserved words. So it finds
nothing exactly if every row of the table is right and no word is missing from it
(`exists_checkKeywords`); an entry that lost its row is not looked at.

## Main results

* `nameComplaints_eq_nil_iff`, `exists_checkKeywords`, `exists_checkLexemes` — when the checks
  find nothing.
* `ofTokens_textKeys_iff` — which entries can be summarised.
-/

namespace MonkeyFrontend.Registry

/-! ## Names -/

theorem mem_textNames {names : List Datum} {s : String} :
    s ∈ textNames names ↔ .text s ∈ names := by
  unfold textNames
  rw [List.mem_filterMap]
  constructor
  · rintro ⟨name, hmem, hname⟩
    cases name with
    | text value =>
        cases hname
        exact hmem
    | _ => cases hname
  · intro hmem
    exact ⟨.text s, hmem, rfl⟩

theorem sortedTexts_eq_nil_iff {texts : List String} : sortedTexts texts = [] ↔ texts = [] := by
  rw [← List.length_eq_zero_iff, ← List.length_eq_zero_iff, sortedTexts, List.length_mergeSort]

theorem sortedKinds_eq_nil_iff {kinds : List Kind} : sortedKinds kinds = [] ↔ kinds = [] := by
  rw [← List.length_eq_zero_iff, ← List.length_eq_zero_iff, sortedKinds, List.length_mergeSort]

/-- The check of names finds nothing if the names are the labels of the kinds. -/
theorem nameComplaints_eq_nil_iff {names : List Datum} :
    nameComplaints names = [] ↔
      (∀ name ∈ names, ∃ kind : Kind, name = .text kind.label) ∧
        ∀ kind : Kind, .text kind.label ∈ names := by
  unfold nameComplaints
  simp only [List.append_eq_nil_iff, List.map_eq_nil_iff, sortedTexts_eq_nil_iff,
    sortedKinds_eq_nil_iff, List.filter_eq_nil_iff]
  constructor
  · rintro ⟨⟨htexts, hkinds⟩, hknown⟩
    constructor
    · intro name hmem
      have htext := htexts name hmem
      cases name with
      | text label =>
          have hregistered : label ∈ (textNames names).eraseDups :=
            List.mem_eraseDups.mpr (mem_textNames.mpr hmem)
          have hlabel := hknown label hregistered
          cases hkind : Kind.ofLabel? label with
          | none =>
              rw [hkind] at hlabel
              exact absurd rfl hlabel
          | some kind => exact ⟨kind, by rw [Kind.label_of_ofLabel? hkind]⟩
      | _ => exact absurd rfl htext
    · intro kind
      have hregistered := hkinds kind kind.mem_all
      rw [Bool.not_eq_true, Bool.not_eq_false', List.contains_iff_mem] at hregistered
      exact mem_textNames.mp hregistered
  · rintro ⟨hlabels, hall⟩
    refine ⟨⟨fun name hmem => ?_, fun kind _ => ?_⟩, fun label hmem => ?_⟩
    · obtain ⟨kind, rfl⟩ := hlabels name hmem
      exact Bool.false_ne_true
    · rw [Bool.not_eq_true, Bool.not_eq_false', List.contains_iff_mem]
      exact mem_textNames.mpr (hall kind)
    · obtain ⟨kind, hkind⟩ := hlabels _ (mem_textNames.mp (List.mem_eraseDups.mp hmem))
      cases hkind
      rw [Kind.ofLabel?_label]
      exact Bool.false_ne_true

/-! ## Lexemes -/

/-- Every lexeme of an entry is read as one token, of the kind that the entry is named
for, and as the whole of its text. -/
def LexesAsNamed (entry : Entry) : Prop :=
  ∀ lexeme, field? "lexeme" entry = some lexeme →
    ∃ (kind : Kind) (text : String), entry.key = .text kind.label ∧ lexeme = .text text ∧
      (Scanner.ofSource text).tokenize.1 = [⟨kind, text⟩, .endOfInput]

theorem fitsKind_text_iff {kind : Kind} {text : String} {tokens : List Token} :
    fitsKind kind (.text text) (tokens.map Lexed.ofToken ++ [.endOfInput]) = true ↔
      tokens = [⟨kind, text⟩] := by
  match tokens with
  | [] => simp [fitsKind, Lexed.endOfInput]
  | [⟨actual, literal⟩] => simp [fitsKind, Lexed.endOfInput, Lexed.ofToken]
  | first :: second :: rest => simp [fitsKind, Lexed.ofToken]

theorem lexesAsNamed_iff {entry : Entry} {text : String}
    (h : field? "lexeme" entry = some (.text text)) :
    LexesAsNamed entry ↔
      ∃ kind : Kind, entry.key = .text kind.label ∧ Token.ofSource text = [⟨kind, text⟩] := by
  have htokens : ∀ kind : Kind, Token.ofSource text = [⟨kind, text⟩] ↔
      (Scanner.ofSource text).tokenize.1 = [⟨kind, text⟩, .endOfInput] := by
    intro kind
    show _ ↔ Token.ofSource text ++ [.endOfInput] = [⟨kind, text⟩] ++ [.endOfInput]
    rw [List.append_left_inj]
  constructor
  · intro hnamed
    obtain ⟨kind, other, hkey, hother, hread⟩ := hnamed _ h
    cases hother
    exact ⟨kind, hkey, (htokens kind).mpr hread⟩
  · rintro ⟨kind, hkey, hread⟩ lexeme hfound
    rw [h] at hfound
    cases hfound
    exact ⟨kind, text, hkey, rfl, (htokens kind).mp hread⟩

/-- The lexeme of an entry that is named for a kind is held against this kind. -/
theorem lexemeComplaint?_label (kind : Kind) (text : String) :
    lexemeComplaint? (.text kind.label) (.text text) =
      .ok (if fitsKind kind (.text text) ((Token.ofSource text).map Lexed.ofToken ++ [.endOfInput])
        then none
        else some (.lexemeMismatch (.text text) kind
          ((Token.ofSource text).map Lexed.ofToken ++ [.endOfInput]))) := by
  unfold lexemeComplaint?
  simp only [Kind.ofLabel?_label]
  rfl

/-- An entry that is named for no kind may not have a lexeme. -/
theorem lexemeComplaint?_of_unknown {name : Datum} (h : ∀ kind : Kind, name ≠ .text kind.label)
    (lexeme : Datum) : lexemeComplaint? name lexeme = .ok (some (.lexemeUnowned lexeme name)) := by
  cases name with
  | text label =>
      unfold lexemeComplaint?
      cases hkind : Kind.ofLabel? label with
      | none => simp only [hkind]; rfl
      | some kind => exact absurd (by rw [Kind.label_of_ofLabel? hkind]) (h kind)
  | _ => rfl

/-- The check of a lexeme that is a text meets no obstacle. -/
theorem exists_lexemeComplaint? (name : Datum) (text : String) :
    ∃ complaint?, lexemeComplaint? name (.text text) = .ok complaint? ∧
      (complaint? = none ↔
        ∃ kind : Kind, name = .text kind.label ∧ Token.ofSource text = [⟨kind, text⟩]) := by
  by_cases hknown : ∃ kind : Kind, name = .text kind.label
  · obtain ⟨kind, rfl⟩ := hknown
    have hfits : fitsKind kind (.text text)
        ((Token.ofSource text).map Lexed.ofToken ++ [.endOfInput]) = true ↔
          Token.ofSource text = [⟨kind, text⟩] := fitsKind_text_iff
    refine ⟨_, lexemeComplaint?_label kind text, ?_⟩
    constructor
    · intro hnone
      split at hnone
      next hfit => exact ⟨kind, rfl, hfits.mp hfit⟩
      next => cases hnone
    · rintro ⟨other, hlabel, hread⟩
      obtain rfl : kind = other := Kind.label_injective (Datum.text.inj hlabel)
      rw [if_pos (hfits.mpr hread)]
  · have hother : ∀ kind : Kind, name ≠ .text kind.label := fun kind heq => hknown ⟨kind, heq⟩
    refine ⟨_, lexemeComplaint?_of_unknown hother _, ?_⟩
    constructor
    · intro hnone
      cases hnone
    · rintro ⟨kind, hlabel, _⟩
      exact absurd ⟨kind, hlabel⟩ hknown

theorem entryComplaint?_eq {entry : Entry} (h : Defined entry) :
    entryComplaint? entry =
      match field? "lexeme" entry with
      | none | some .null => .ok none
      | some lexeme => lexemeComplaint? entry.key lexeme := by
  unfold entryComplaint?
  rw [h.member?]
  rfl

/-- The check of one entry's lexeme meets no obstacle, and finds nothing if the lexeme is
read as named. -/
theorem exists_entryComplaint? {entry : Entry} (h : Described entry) :
    ∃ complaint?, entryComplaint? entry = .ok complaint? ∧
      (complaint? = none ↔ LexesAsNamed entry) := by
  cases hlexeme : field? "lexeme" entry with
  | none =>
      have hnone : entryComplaint? entry = .ok none := by
        rw [entryComplaint?_eq h.defined, hlexeme]
      refine ⟨none, hnone, fun _ => ?_, fun _ => rfl⟩
      intro lexeme hfound
      rw [hlexeme] at hfound
      cases hfound
  | some lexeme =>
      obtain ⟨text, rfl⟩ := h.lexeme lexeme hlexeme
      have hsome : entryComplaint? entry = lexemeComplaint? entry.key (.text text) := by
        rw [entryComplaint?_eq h.defined, hlexeme]
      rw [hsome, lexesAsNamed_iff hlexeme]
      exact exists_lexemeComplaint? entry.key text

/-- The check of lexemes meets no obstacle, and finds nothing if all are read as named. -/
theorem exists_checkLexemes {entries : List Entry} (h : ∀ entry ∈ entries, Described entry) :
    ∃ complaints, checkLexemes (.map entries) = .ok complaints ∧
      (complaints = [] ↔ ∀ entry ∈ entries, LexesAsNamed entry) := by
  show ∃ complaints, lexemeComplaints entries = .ok complaints ∧ _
  induction entries with
  | nil => exact ⟨[], rfl, by simp⟩
  | cons entry rest ih =>
      obtain ⟨complaint?, hfirst, hfirstIff⟩ := exists_entryComplaint? (h entry List.mem_cons_self)
      obtain ⟨others, hrest, hrestIff⟩ := ih fun e he => h e (List.mem_cons_of_mem _ he)
      refine ⟨complaint?.toList ++ others, ?_, ?_⟩
      · rw [lexemeComplaints, hfirst, hrest]
        rfl
      · rw [List.append_eq_nil_iff, List.forall_mem_cons, ← hfirstIff, ← hrestIff,
          Option.toList_eq_nil_iff]

/-! ## Keywords -/

/-- The lexeme and the name of an entry whose category is the one of keywords. -/
def keywordPair? (entry : Entry) : Option (Datum × Datum) :=
  match field? "category" entry with
  | some (.text category) =>
    if category = "keyword" then (field? "lexeme" entry).map fun lexeme => (lexeme, entry.key)
    else none
  | _ => none

/-- The lexemes and the names of all keyword entries. -/
def keywordPairs (entries : List Entry) : List (Datum × Datum) :=
  entries.filterMap keywordPair?

/-- The check of keywords can take an entry in: the definition of the entry is a map, which has
a lexeme that can be a key, if its category is the one of keywords. -/
structure Registrable (entry : Entry) : Prop where
  defined : Defined entry
  keyword : field? "category" entry = some (.text "keyword") →
    ∃ lexeme, field? "lexeme" entry = some lexeme ∧ lexeme.isKey = true

/-- The definition of an entry is a map, and its lexeme is a text, if its category is the one
of keywords. -/
structure Worded (entry : Entry) : Prop where
  defined : Defined entry
  keyword : field? "category" entry = some (.text "keyword") →
    ∃ word, field? "lexeme" entry = some (.text word)

theorem Described.worded {entry : Entry} (h : Described entry) : Worded entry :=
  ⟨h.defined, h.keyword⟩

theorem Worded.registrable {entry : Entry} (h : Worded entry) : Registrable entry := by
  refine ⟨h.defined, fun hcategory => ?_⟩
  obtain ⟨word, hlexeme⟩ := h.keyword hcategory
  exact ⟨.text word, hlexeme, rfl⟩

theorem Defined.isKeywordEntry_eq {entry : Entry} (h : Defined entry) :
    ∃ isKeyword, isKeywordEntry entry.value = .ok isKeyword ∧
      (isKeyword = true ↔ field? "category" entry = some (.text "keyword")) := by
  unfold isKeywordEntry
  rw [h.member?]
  cases field? "category" entry with
  | none => exact ⟨false, rfl, by simp⟩
  | some category =>
      cases category with
      | text category => exact ⟨category == "keyword", rfl, by simp⟩
      | _ => exact ⟨false, rfl, by simp⟩

theorem Defined.keywordLexeme_eq_ok_iff {entry : Entry} (h : Defined entry) {lexeme : Datum} :
    keywordLexeme entry.value = .ok lexeme ↔
      field? "lexeme" entry = some lexeme ∧ lexeme.isKey = true := by
  unfold keywordLexeme
  rw [h.member?]
  cases field? "lexeme" entry with
  | none =>
      constructor
      · intro herror
        cases herror
      · rintro ⟨hnone, _⟩
        cases hnone
  | some found =>
      show found.asKey = .ok lexeme ↔ _
      rw [Datum.asKey_eq_ok_iff, Option.some.injEq]

theorem keywordPair?_eq_some_iff {entry : Entry} {pair : Datum × Datum} :
    keywordPair? entry = some pair ↔ field? "category" entry = some (.text "keyword") ∧
      field? "lexeme" entry = some pair.1 ∧ entry.key = pair.2 := by
  obtain ⟨lexeme, name⟩ := pair
  unfold keywordPair?
  split
  next category hcategory =>
    rw [hcategory]
    split
    next hword =>
      subst hword
      rw [Option.map_eq_some_iff]
      constructor
      · rintro ⟨found, hfound, hpair⟩
        cases hpair
        exact ⟨rfl, hfound, rfl⟩
      · rintro ⟨_, hfound, hkey⟩
        exact ⟨lexeme, hfound, by rw [hkey]⟩
    next hword => simp [hword]
  next hother =>
    constructor
    · intro hnone
      cases hnone
    · rintro ⟨hcategory, _⟩
      exact absurd hcategory (hother "keyword")

theorem keywordPair?_eq_none {entry : Entry}
    (h : field? "category" entry ≠ some (.text "keyword")) : keywordPair? entry = none := by
  cases hpair : keywordPair? entry with
  | none => rfl
  | some pair => exact absurd (keywordPair?_eq_some_iff.mp hpair).1 h

/-- The keyword entries are put into the table one after the other. -/
theorem registerKeywords_eq {entries : List Entry} (h : ∀ entry ∈ entries, Registrable entry)
    (table : Table Datum) :
    registerKeywords table entries = .ok (table.putAll (keywordPairs entries)) := by
  induction entries generalizing table with
  | nil => rfl
  | cons entry rest ih =>
      have hentry := h entry List.mem_cons_self
      have hrest := ih fun e he => h e (List.mem_cons_of_mem _ he)
      obtain ⟨isKeyword, hkeyword, hiff⟩ := hentry.defined.isKeywordEntry_eq
      rw [registerKeywords, hkeyword]
      cases isKeyword with
      | true =>
          have hcategory := hiff.mp rfl
          obtain ⟨lexeme, hlexeme, hkey⟩ := hentry.keyword hcategory
          have hfound := hentry.defined.keywordLexeme_eq_ok_iff.mpr ⟨hlexeme, hkey⟩
          have hpair : keywordPair? entry = some (lexeme, entry.key) :=
            keywordPair?_eq_some_iff.mpr ⟨hcategory, hlexeme, rfl⟩
          rw [keywordPairs, List.filterMap_cons_some hpair]
          show (keywordLexeme entry.value >>= fun lexeme =>
            registerKeywords (table.put lexeme entry.key) rest) = _
          rw [hfound]
          exact hrest (table.put lexeme entry.key)
      | false =>
          have hpair : keywordPair? entry = none :=
            keywordPair?_eq_none fun hcategory => Bool.false_ne_true (hiff.mpr hcategory)
          rw [keywordPairs, List.filterMap_cons_none hpair]
          exact hrest table

theorem mem_keywordPairs {entries : List Entry} {pair : Datum × Datum} :
    pair ∈ keywordPairs entries ↔
      ∃ entry ∈ entries, field? "category" entry = some (.text "keyword") ∧
        field? "lexeme" entry = some pair.1 ∧ entry.key = pair.2 := by
  rw [keywordPairs, List.mem_filterMap]
  simp only [keywordPair?_eq_some_iff]

theorem textKeys_keywordPairs {entries : List Entry} (h : ∀ entry ∈ entries, Worded entry) :
    Table.TextKeys (keywordPairs entries) := by
  intro pair hpair
  obtain ⟨entry, hmem, hcategory, hlexeme, _⟩ := mem_keywordPairs.mp hpair
  obtain ⟨word, hword⟩ := (h entry hmem).keyword hcategory
  rw [hlexeme] at hword
  exact ⟨word, Option.some.inj hword⟩

/-- The table of the keyword entries. -/
def keywordTable (entries : List Entry) : Table Datum :=
  Table.putAll [] (keywordPairs entries)

theorem textKeys_keywordTable {entries : List Entry} (h : ∀ entry ∈ entries, Worded entry) :
    (keywordTable entries).TextKeys :=
  Table.TextKeys.nil.putAll (textKeys_keywordPairs h)

theorem missingKeywords_eq_nil_iff {table : Table Datum} :
    missingKeywords table = [] ↔
      ∀ entry ∈ Kind.keywords, ∃ name, (.text entry.1, name) ∈ table := by
  rw [missingKeywords, sortedTexts_eq_nil_iff, List.filter_eq_nil_iff, List.forall_mem_map]
  refine forall_congr' fun entry => imp_congr_right fun _ => ?_
  rw [← Table.isSome_get?_text_iff, Option.isNone_iff_eq_none, Option.isSome_iff_ne_none]

/-- What there is to say about a table of keywords whose rows are gone through in a given
order: what is wrong with each row, and which words are missing. -/
def keywordComplaints (table ordered : Table Datum) : List Complaint :=
  ordered.filterMap (fun row => keywordComplaint? row.1 row.2) ++
    (missingKeywords table).map .keywordMissing

/-- The check of keywords goes through the table of the keyword entries in the order of its
keys. -/
theorem checkKeywords_eq {entries : List Entry} (h : ∀ entry ∈ entries, Registrable entry) :
    checkKeywords (.map entries) =
      (keywordTable entries).sorted.map (keywordComplaints (keywordTable entries)) := by
  show (registerKeywords [] entries >>= fun table => table.sorted >>= fun ordered => _) = _
  rw [registerKeywords_eq h]
  show ((keywordTable entries).sorted >>= fun ordered => _) = _
  cases (keywordTable entries).sorted with
  | error obstacle => rfl
  | ok ordered => rfl

/-- The table of texts can be sorted, so the check of keywords meets no obstacle. -/
theorem exists_keywordComplaints {entries : List Entry} (h : ∀ entry ∈ entries, Worded entry) :
    ∃ ordered, ordered.Perm (keywordTable entries) ∧
      checkKeywords (.map entries) = .ok (keywordComplaints (keywordTable entries) ordered) := by
  obtain ⟨ordered, hordered⟩ := (textKeys_keywordTable h).comparable.sorted
  refine ⟨ordered, Table.perm_sorted hordered, ?_⟩
  rw [checkKeywords_eq fun entry hmem => (h entry hmem).registrable, hordered]
  rfl

/-- The check of keywords meets no obstacle, and finds nothing if the table of the keyword
entries has right rows only, and one for each reserved word. -/
theorem exists_checkKeywords {entries : List Entry} (h : ∀ entry ∈ entries, Described entry) :
    ∃ complaints, checkKeywords (.map entries) = .ok complaints ∧
      (complaints = [] ↔
        (∀ row ∈ keywordTable entries, keywordComplaint? row.1 row.2 = none) ∧
          ∀ entry ∈ Kind.keywords, ∃ name, (.text entry.1, name) ∈ keywordTable entries) := by
  obtain ⟨ordered, hperm, hcheck⟩ :=
    exists_keywordComplaints fun entry hmem => (h entry hmem).worded
  refine ⟨_, hcheck, ?_⟩
  rw [keywordComplaints, List.append_eq_nil_iff, List.filterMap_eq_nil_iff, List.map_eq_nil_iff,
    missingKeywords_eq_nil_iff]
  simp only [hperm.mem_iff]

/-! ## Summaries -/

end MonkeyFrontend.Registry
