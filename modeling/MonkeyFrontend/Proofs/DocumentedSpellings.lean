import MonkeyFrontend.Proofs.Nodes
import MonkeyFrontend.Proofs.PassingRegistry

/-!
# The spellings that a passing registry documents

A registry ought to give the spelling of every kind that is written in one way, and no lexeme
for the other kinds. That is not quite what a validation makes sure of. Whether an entry has
to have a lexeme depends on the category that the entry declares itself
(`isSome_lexeme_iff`), and only the keyword entries are held against the kinds. A lexeme that
is there is read as the kind of its entry, so it is the spelling of the kind if there is one.
But an operator may be declared special, and then it has no lexeme, and a name may be
declared an operator, and then it has one.

So a passing registry documents the keywords and the end of the input, and it documents the
other kinds if their entries declare a category of the right sort.

## Main results

* `documents_iff_isSome` — when an entry documents the kind that it is named for.
* `passing_documents_spellings_iff` — what a passing registry documents.
-/

namespace MonkeyFrontend.Registry

/-- The entry of a kind gives the text that the tokens of the kind have, and no text if they
can have several. -/
def Documents (entry : Entry) (kind : Kind) : Prop :=
  entry.key = .text kind.label ∧ field? "lexeme" entry = kind.spelling?.map .text

/-- The entry of every kind documents it. -/
def DocumentsSpellings (entries : List Entry) : Prop :=
  ∀ kind : Kind, ∃ entry ∈ entries, Documents entry kind

/-- An entry declares a category whose members have one spelling. -/
def DeclaresSpelling (entry : Entry) : Prop :=
  ∃ category ∈ ["operator", "delimiter", "keyword"],
    field? "category" entry = some (.text category)

/-- An entry declares a category of the right sort for its kind. -/
def DeclaresAsNamed (entry : Entry) : Prop :=
  ∀ kind : Kind, entry.key = .text kind.label →
    (DeclaresSpelling entry ↔ kind.spelling?.isSome = true)

/-! ## Entries -/

/-- A definition of the documented shape has a lexeme exactly if it declares a category whose
members have one spelling. -/
theorem isSome_lexeme_iff {entry : Entry} (h : Defines entry) :
    (field? "lexeme" entry).isSome = true ↔ DeclaresSpelling entry := by
  obtain ⟨fields, hfields, hdefinition⟩ := h
  rw [field?_of_map hfields, ← hasSome_iff, hdefinition.spelled]
  unfold DeclaresSpelling
  rw [field?_of_map hfields]
  constructor
  · rintro ⟨_, hfound, category, hmem, rfl⟩
    exact ⟨category, hmem, hfound⟩
  · rintro ⟨category, hmem, hfound⟩
    exact ⟨_, hfound, category, hmem, rfl⟩

/-- An entry whose lexeme is read as named documents its kind if it has a lexeme for a kind with
a spelling, and none for a kind without one. -/
theorem documents_iff_isSome {entry : Entry} {kind : Kind} (h : LexesAsNamed entry)
    (hkey : entry.key = .text kind.label) :
    Documents entry kind ↔
      ((field? "lexeme" entry).isSome = true ↔ kind.spelling?.isSome = true) := by
  unfold Documents
  rw [and_iff_right hkey]
  cases hlexeme : field? "lexeme" entry with
  | none => cases kind.spelling? <;> simp
  | some lexeme =>
      obtain ⟨other, text, hother, rfl, _⟩ := h lexeme hlexeme
      obtain ⟨found, hfound, hread⟩ := (lexesAsNamed_iff hlexeme).mp h
      obtain rfl : found = kind :=
        Kind.label_injective (Datum.text.inj (hfound.symm.trans hkey))
      cases hspelling : found.spelling? with
      | none => simp
      | some spelling =>
          -- The lexeme is read as a token of the kind, and such tokens are spelled in one way.
          have hmem : (⟨found, text⟩ : Token) ∈ Token.ofSource text := by
            rw [hread]
            exact List.mem_cons_self
          have htoken := Token.eq_of_kind hmem rfl hspelling
          have htext : text = spelling := congrArg Token.literal htoken
          simp [htext]

/-- No lexeme is read as the end of the input. -/
theorem documents_endOfInput {entry : Entry} (h : LexesAsNamed entry)
    (hkey : entry.key = .text Kind.endOfInput.label) : Documents entry .endOfInput := by
  refine ⟨hkey, ?_⟩
  show field? "lexeme" entry = none
  refine Option.eq_none_iff_forall_ne_some.mpr fun lexeme hlexeme => ?_
  obtain ⟨_, text, _, rfl, _⟩ := h lexeme hlexeme
  obtain ⟨kind, hname, hread⟩ := (lexesAsNamed_iff hlexeme).mp h
  obtain rfl : kind = .endOfInput :=
    Kind.label_injective (Datum.text.inj (hname.symm.trans hkey))
  have hmem : (⟨.endOfInput, text⟩ : Token) ∈ Token.ofSource text := by
    rw [hread]
    exact List.mem_cons_self
  exact Token.kind_ne_endOfInput_of_mem_ofSource hmem rfl

/-! ## Registries -/

section Registries

variable {entries : List Entry}

theorem eq_of_key_eq (hkeys : entries.Pairwise fun a b => a.key ≠ b.key) {a b : Entry}
    (ha : a ∈ entries) (hb : b ∈ entries) (h : a.key = b.key) : a = b := by
  induction entries with
  | nil => cases ha
  | cons first rest ih =>
      obtain ⟨hfirst, hrest⟩ := List.pairwise_cons.mp hkeys
      rcases List.mem_cons.mp ha with rfl | harest
      · rcases List.mem_cons.mp hb with rfl | hbrest
        · rfl
        · exact absurd h (hfirst b hbrest)
      · rcases List.mem_cons.mp hb with rfl | hbrest
        · exact absurd h.symm (hfirst a harest)
        · exact ih hrest harest hbrest

theorem exists_word_of_keyword {kind : Kind} (h : kind.category = .keyword) :
    ∃ word, (word, kind) ∈ Kind.keywords := by
  have hall : ∀ kind ∈ Kind.all, kind.category = .keyword →
      ∃ entry ∈ Kind.keywords, entry.2 = kind := by decide
  obtain ⟨⟨word, _⟩, hword, rfl⟩ := hall kind kind.mem_all h
  exact ⟨word, hword⟩

/-- The keyword entries are the reserved words, so the entry of a reserved word has it for its
lexeme. -/
theorem documents_keyword (h : DescribesKinds entries)
    (hkeys : entries.Pairwise fun a b => a.key ≠ b.key) {entry : Entry} (hmem : entry ∈ entries)
    {kind : Kind} (hkey : entry.key = .text kind.label) (hkeyword : kind.category = .keyword) :
    Documents entry kind := by
  obtain ⟨word, hword⟩ := exists_word_of_keyword hkeyword
  have hpair : (.text word, .text kind.label) ∈ keywordPairs entries :=
    h.keywords.symm.subset (text_mem_reservedPairs.mpr hword)
  obtain ⟨other, hother, _, hlexeme, hname⟩ := mem_keywordPairs.mp hpair
  obtain rfl := eq_of_key_eq hkeys hother hmem (hname.trans hkey.symm)
  refine ⟨hkey, ?_⟩
  rw [hlexeme, Kind.spelling?_of_mem_keywords hword]
  rfl

/-- The entries of a registry that passes describe the language, and all of their definitions have
the documented shape. -/
theorem describesKinds_of_passing {request : Request} {registry : Datum} {schema : Schema}
    (htokens : request.tokens = .content registry) (hschema : request.schema = .content schema)
    (hfollows : schema.Follows registryDocument) (hchecks : request.checksSchema = true)
    (hdistinct : ∀ entries, tokensOf registry = .ok (.map entries) → DistinctKeys entries)
    (hpass : (validate request).result = .ok 0) :
    ∃ entries, tokensOf registry = .ok (.map entries) ∧ DistinctKeys entries ∧
      DescribesKinds entries ∧ ∀ entry ∈ entries, Defines entry := by
  obtain ⟨findings, hof, hcode⟩ := (result_validate_eq_ok_iff htokens hschema).mp hpass
  rw [exitCode_eq_zero_iff, Findings.all, List.append_eq_nil_iff, Findings.messages,
    List.map_eq_nil_iff, List.append_eq_nil_iff, List.append_eq_nil_iff] at hcode
  obtain ⟨hdepartures, ⟨hnames, hkeywords⟩, hlexemes⟩ := hcode
  have haccepts : schema.check registry = .ok [] := by
    have hcheck := hof.departures
    rw [hdepartures, hchecks] at hcheck
    exact hcheck
  obtain ⟨entries, hentries, hdefines⟩ :=
    exists_entries_of_admits (hfollows.check_eq_nil_iff.mp haccepts)
  have hfound : findings.tokens = .map entries := Except.ok.inj (hof.tokens.symm.trans hentries)
  have hdescribed : ∀ entry ∈ entries, Described entry :=
    fun entry hmem => (hdefines entry hmem).described
  -- What the checks found is nothing, which is what the entries' descriptions amount to.
  obtain ⟨keywords, hcheckKeywords, hkeywordsIff⟩ := exists_checkKeywords hdescribed
  obtain ⟨lexemes, hcheckLexemes, hlexemesIff⟩ := exists_checkLexemes hdescribed
  have hofNames := hof.names
  have hofKeywords := hof.keywords
  have hofLexemes := hof.lexemes
  rw [hfound, hnames] at hofNames
  rw [hfound, hkeywords, hcheckKeywords] at hofKeywords
  rw [hfound, hlexemes, hcheckLexemes] at hofLexemes
  have hdescribes := (describesKinds_iff hdescribed (hdistinct entries hentries)).mpr
    ⟨Except.ok.inj hofNames, hkeywordsIff.mp (Except.ok.inj hofKeywords),
      hlexemesIff.mp (Except.ok.inj hofLexemes)⟩
  exact ⟨entries, hentries, hdistinct entries hentries, hdescribes, hdefines⟩

end Registries

/-- In a registry that passes, with a schema that follows the document, there is an entry for every
kind. The entries of the keywords and
of the end of the input document their kinds. Any other entry does so exactly if the category
that it declares is of the right sort for its kind, so all kinds are documented exactly if all
entries declare such categories. -/
theorem passing_documents_spellings_iff {request : Request} {registry : Datum} {schema : Schema}
    (htokens : request.tokens = .content registry) (hschema : request.schema = .content schema)
    (hfollows : schema.Follows registryDocument) (hchecks : request.checksSchema = true)
    (hdistinct : ∀ entries, tokensOf registry = .ok (.map entries) → DistinctKeys entries)
    (hpass : (validate request).result = .ok 0) :
    ∃ entries, tokensOf registry = .ok (.map entries) ∧
      (∀ kind : Kind, ∃ entry ∈ entries, entry.key = .text kind.label) ∧
      (∀ entry ∈ entries, ∀ kind : Kind, entry.key = .text kind.label →
        (kind.category = .keyword ∨ kind = .endOfInput → Documents entry kind) ∧
          (Documents entry kind ↔ DeclaresAsNamed entry)) ∧
      (DocumentsSpellings entries ↔ ∀ entry ∈ entries, DeclaresAsNamed entry) := by
  obtain ⟨entries, hentries, hkeys, hdescribes, hdefines⟩ :=
    describesKinds_of_passing htokens hschema hfollows hchecks hdistinct hpass
  have hkeys := hkeys.key_ne hdescribes.named
  have hdocuments : ∀ entry ∈ entries, ∀ kind : Kind, entry.key = .text kind.label →
      (Documents entry kind ↔ DeclaresAsNamed entry) := by
    intro entry hmem kind hkey
    rw [documents_iff_isSome (hdescribes.lexemes entry hmem) hkey,
      isSome_lexeme_iff (hdefines entry hmem)]
    constructor
    · intro hdeclares other hother
      obtain rfl : kind = other := Kind.label_injective (Datum.text.inj (hkey.symm.trans hother))
      exact hdeclares
    · intro hdeclares
      exact hdeclares kind hkey
  refine ⟨entries, hentries, hdescribes.complete, fun entry hmem kind hkey => ⟨?_, ?_⟩, ?_⟩
  · rintro (hkeyword | rfl)
    · exact documents_keyword hdescribes hkeys hmem hkey hkeyword
    · exact documents_endOfInput (hdescribes.lexemes entry hmem) hkey
  · exact hdocuments entry hmem kind hkey
  · constructor
    · intro hall entry hmem
      obtain ⟨kind, hkey⟩ := hdescribes.named entry hmem
      obtain ⟨other, hother, hdocumented⟩ := hall kind
      obtain rfl := eq_of_key_eq hkeys hother hmem (hdocumented.1.trans hkey.symm)
      exact (hdocuments other hmem kind hkey).mp hdocumented
    · intro hall kind
      obtain ⟨entry, hmem, hkey⟩ := hdescribes.complete kind
      exact ⟨entry, hmem, (hdocuments entry hmem kind hkey).mpr (hall entry hmem)⟩

/-- The standard registry declares the categories of the kinds. -/
theorem declaresAsNamed_standard (kind : Kind) :
    DeclaresAsNamed ⟨.text kind.label, definitionOf kind⟩ := by
  intro other hother
  obtain rfl : kind = other := Kind.label_injective (Datum.text.inj hother)
  have hsort : categoryName kind.category ∈ ["operator", "delimiter", "keyword"] ↔
      kind.spelling?.isSome = true := by
    cases kind <;> decide
  have hcategory : field? "category" ⟨.text kind.label, definitionOf kind⟩ =
      some (.text (categoryName kind.category)) := rfl
  unfold DeclaresSpelling
  rw [hcategory, ← hsort]
  simp

theorem passing_documents_spellings_iff_standard :
    finder.Follows registryDocument ∧ (validateContent standard).result = .ok 0 ∧
      (∀ entries, tokensOf standard = .ok (.map entries) → DistinctKeys entries) ∧
      ∃ entries, tokensOf standard = .ok (.map entries) ∧ DocumentsSpellings entries := by
  have hpass : (validateContent standard).result = .ok 0 :=
    result_eq_ok_of_toOption (by decide +kernel)
  refine ⟨finder_follows, hpass, fun _ => distinctKeys_standard, ?_⟩
  obtain ⟨entries, hentries, _, _, hdocuments⟩ :=
    passing_documents_spellings_iff rfl rfl finder_follows rfl (fun _ => distinctKeys_standard) hpass
  refine ⟨entries, hentries, hdocuments.mpr fun entry hmem => ?_⟩
  cases hentries
  obtain ⟨field, hfield, rfl⟩ := List.mem_map.mp hmem
  obtain ⟨kind, _, rfl⟩ := List.mem_map.mp hfield
  exact declaresAsNamed_standard kind

/-- If the plus sign is declared special, and has no lexeme, nothing is found. -/
theorem passing_registry_without_plus_sign :
    finder.Follows registryDocument ∧
      (validateContent (standardBut .plus (.ofFields [("category", .text "special")]))).result =
        .ok 0 ∧
      ∃ entries,
        tokensOf (standardBut .plus (.ofFields [("category", .text "special")])) =
          .ok (.map entries) ∧
        ¬ ∃ entry ∈ entries, Documents entry .plus := by
  refine ⟨finder_follows, result_eq_ok_of_toOption (by decide +kernel), _, rfl, ?_⟩
  rintro ⟨entry, hmem, hkey, hlexeme⟩
  obtain ⟨field, hfield, rfl⟩ := List.mem_map.mp hmem
  obtain ⟨kind, _, rfl⟩ := List.mem_map.mp hfield
  obtain rfl : kind = .plus := Kind.label_injective (Datum.text.inj hkey)
  cases hlexeme

end MonkeyFrontend.Registry
