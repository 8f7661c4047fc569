import MonkeyFrontend.Proofs.MaximalMunch
import MonkeyFrontend.Proofs.SchemaDocument

/-!
# The documented shape of registries

What a registry has to look like can be said without a schema. It is a map of a version and a
map of tokens. The version is two numerals with a point between them; the names of tokens are
written in capital letters and underscores; and the definition of a token has one of five categories
and may have a description, and a lexeme exactly if its category is one whose tokens are always
spelled the same (`IsRegistry`).

The schema says the same with more words and more cases. It speaks of what is under a name
where nothing may be there, of texts where names may be something else, and of lexemes
where a category may be missing. Those cases are settled one by one here, and so is what its
patterns accept: both of them look at one line, behind which the text may end or have one
line feed.

## Main results

* `accepts_version_iff`, `accepts_name_iff` — the patterns, character by character.
* `admits_definitionDocument_iff` — the definition of a token.
* `check_accepts_documented_shape` — the registries that the schema has nothing to say about.
-/

namespace MonkeyFrontend.Registry

/-! ## Texts -/

/-- One digit or more. -/
def IsNumeral (text : List Char) : Prop :=
  text ≠ [] ∧ ∀ c ∈ text, IsNumberCharacter c

/-- Two numerals with a point between them. -/
def IsVersion (text : List Char) : Prop :=
  ∃ whole fraction, IsNumeral whole ∧ IsNumeral fraction ∧ text = whole ++ '.' :: fraction

/-- A capital letter of the ASCII alphabet. -/
def IsCapital (c : Char) : Prop :=
  'A' ≤ c ∧ c ≤ 'Z'

/-- A capital letter, and capital letters and underscores behind it. -/
def IsName (text : List Char) : Prop :=
  ∃ first rest, IsCapital first ∧ (∀ c ∈ rest, IsCapital c ∨ c = '_') ∧ text = first :: rest

/-- A text of some form, with one line feed behind it or without. -/
def OnOneLine (form : List Char → Prop) (text : String) : Prop :=
  ∃ body, form body ∧ (text.toList = body ∨ text.toList = body ++ ['\n'])

theorem onOneLine_iff {form : List Char → Prop} (hform : ∀ body, form body → '\n' ∉ body)
    (text : String) : OnOneLine form text ↔ form (Pattern.withoutNewline text.toList) := by
  unfold Pattern.withoutNewline
  constructor
  · rintro ⟨body, hbody, hplain | hended⟩
    · have hlast : text.toList.getLast? ≠ some '\n' := fun hlast =>
        hform body hbody (hplain ▸ List.mem_of_getLast? hlast)
      rw [if_neg hlast, hplain]
      exact hbody
    · rw [hended, List.getLast?_concat, if_pos rfl, List.dropLast_concat]
      exact hbody
  · intro h
    split at h
    next hlast =>
      obtain ⟨body, hbody⟩ := List.getLast?_eq_some_iff.mp hlast
      rw [hbody, List.dropLast_concat] at h
      exact ⟨body, h, .inr hbody⟩
    next => exact ⟨_, h, .inl rfl⟩

theorem isVersion_iff {text : List Char} : Pattern.isVersion text = true ↔ IsVersion text := by
  have hdigit : ∀ c, c.isDigit = true ↔ IsNumberCharacter c := fun c => isDigit_eq_true_iff
  unfold Pattern.isVersion
  constructor
  · intro h
    simp only at h
    split at h
    next fraction hdrop =>
      simp only [Bool.and_eq_true, Bool.not_eq_true', List.isEmpty_eq_false_iff, List.all_eq_true] at h
      obtain ⟨⟨hwhole, hfraction⟩, hdigits⟩ := h
      refine ⟨_, fraction, ⟨hwhole, fun c hc => ?_⟩, ⟨hfraction, fun c hc => ?_⟩, ?_⟩
      · exact (hdigit c).mp (List.all_eq_true.mp List.all_takeWhile c hc)
      · exact (hdigit c).mp (hdigits c hc)
      · rw [← hdrop, List.takeWhile_append_dropWhile]
    next => cases h
  · rintro ⟨whole, fraction, ⟨hwhole, hdigits⟩, ⟨hfraction, hmore⟩, rfl⟩
    have hall : ∀ c ∈ whole, c.isDigit = true := fun c hc => (hdigit c).mpr (hdigits c hc)
    have htake : (whole ++ '.' :: fraction).takeWhile Char.isDigit = whole := by
      rw [List.takeWhile_append_of_pos hall]
      exact List.append_nil whole
    have hdrop : (whole ++ '.' :: fraction).dropWhile Char.isDigit = '.' :: fraction :=
      List.dropWhile_append_of_pos hall
    simp only [htake, hdrop, Bool.and_eq_true, Bool.not_eq_true', List.isEmpty_eq_false_iff,
      List.all_eq_true]
    exact ⟨⟨hwhole, hfraction⟩, fun c hc => (hdigit c).mpr (hmore c hc)⟩

theorem isName_iff {text : List Char} : Pattern.isName text = true ↔ IsName text := by
  have hcapital : ∀ c : Char, c.isUpper = true ↔ IsCapital c := fun c => decide_eq_true_iff
  cases text with
  | nil =>
      constructor
      · intro h
        cases h
      · rintro ⟨_, _, _, _, h⟩
        cases h
  | cons first rest =>
      simp only [Pattern.isName, Bool.and_eq_true, List.all_eq_true, Bool.or_eq_true, beq_iff_eq,
        hcapital]
      constructor
      · rintro ⟨hfirst, hrest⟩
        exact ⟨first, rest, hfirst, hrest, rfl⟩
      · rintro ⟨_, _, hfirst, hrest, h⟩
        cases h
        exact ⟨hfirst, hrest⟩

theorem IsVersion.no_newline {text : List Char} (h : IsVersion text) : '\n' ∉ text := by
  obtain ⟨whole, fraction, ⟨_, hwhole⟩, ⟨_, hfraction⟩, rfl⟩ := h
  have hdigit : ¬ IsNumberCharacter '\n' := by
    unfold IsNumberCharacter
    decide
  rw [List.mem_append, List.mem_cons]
  rintro (hmem | hpoint | hmem)
  · exact hdigit (hwhole _ hmem)
  · cases hpoint
  · exact hdigit (hfraction _ hmem)

theorem IsName.no_newline {text : List Char} (h : IsName text) : '\n' ∉ text := by
  obtain ⟨first, rest, hfirst, hrest, rfl⟩ := h
  have hcapital : ¬ IsCapital '\n' := by
    unfold IsCapital
    decide
  rw [List.mem_cons]
  rintro (rfl | hmem)
  · exact hcapital hfirst
  · rcases hrest _ hmem with hother | hother
    · exact hcapital hother
    · cases hother

/-- The forms of the patterns, character by character. -/
theorem accepts_version_iff (text : String) :
    Pattern.version.accepts text = true ↔ OnOneLine IsVersion text := by
  rw [onOneLine_iff fun _ => IsVersion.no_newline]
  exact isVersion_iff

theorem accepts_name_iff (text : String) :
    Pattern.name.accepts text = true ↔ OnOneLine IsName text := by
  rw [onOneLine_iff fun _ => IsName.no_newline]
  exact isName_iff

/-! ## Shapes -/

/-- The fields of the definition of a token. -/
structure IsDefinition (fields : List Entry) : Prop where
  /-- There are no other fields. -/
  names : ∀ field ∈ fields, IsOneOf ["category", "lexeme", "description"] field.key
  category : Has "category"
    (IsOneOf ["special", "literal", "operator", "delimiter", "keyword"]) fields
  description : MayHave "description" (fun datum => ∃ text, datum = .text text) fields
  lexeme : MayHave "lexeme" (fun datum => ∃ text, text ≠ "" ∧ datum = .text text) fields
  /-- Tokens that are always spelled the same say how, and no others do. -/
  spelled : HasSome "lexeme" fields ↔
    Has "category" (IsOneOf ["operator", "delimiter", "keyword"]) fields

/-- The entries of the map of tokens. -/
structure IsTokenMap (entries : List Entry) : Prop where
  ne_nil : entries ≠ []
  /-- A name that is no text may be anything. -/
  names : ∀ entry ∈ entries, ∀ name, entry.key = .text name → OnOneLine IsName name
  definitions : ∀ entry ∈ entries, ∃ fields, entry.value = .map fields ∧ IsDefinition fields

/-- The fields of a registry. -/
structure IsRegistry (fields : List Entry) : Prop where
  /-- There are no other fields. -/
  names : ∀ field ∈ fields, IsOneOf ["version", "tokens"] field.key
  version : Has "version" (fun datum => ∃ text, datum = .text text ∧ OnOneLine IsVersion text) fields
  tokens : Has "tokens" (fun datum => ∃ entries, datum = .map entries ∧ IsTokenMap entries) fields

/-! ## What the document admits -/

section Document

variable {datum : Datum} {fields : List Entry}

theorem exists_map_of_admits (h : (Constraint.hasShape .map).Admits datum) :
    ∃ fields, datum = .map fields := by
  cases datum with
  | map fields => exact ⟨fields, rfl⟩
  | _ => cases h

theorem admits_text_iff :
    (Constraint.hasShape .text).Admits datum ↔ ∃ text, datum = .text text := by
  cases datum <;> simp [Datum.shape]

/-- A text of which something is said is a text that has what is said of texts. -/
theorem admits_text_and_iff {constraint : Constraint} {good : String → Prop}
    (h : ∀ text, constraint.Admits (.text text) ↔ good text) :
    (Constraint.all [.hasShape .text, constraint]).Admits datum ↔
      ∃ text, datum = .text text ∧ good text := by
  rw [Constraint.admits_all]
  simp only [List.forall_mem_cons]
  constructor
  · rintro ⟨hshape, hconstraint, _⟩
    obtain ⟨text, rfl⟩ := admits_text_iff.mp hshape
    exact ⟨text, rfl, (h text).mp hconstraint⟩
  · rintro ⟨text, rfl, hgood⟩
    exact ⟨rfl, (h text).mpr hgood, List.forall_mem_nil _⟩

theorem admits_lexeme_iff :
    (Constraint.all [.hasShape .text, .minLength 1]).Admits datum ↔
      ∃ text, text ≠ "" ∧ datum = .text text := by
  have hlength : ∀ text : String,
      (Constraint.minLength 1).Admits (.text text) ↔ text ≠ "" := by
    simp [one_le_length_iff]
  exact (admits_text_and_iff hlength).trans (exists_congr fun _ => and_comm)

theorem admits_version_iff :
    (Constraint.all [.hasShape .text, .matching .version]).Admits datum ↔
      ∃ text, datum = .text text ∧ OnOneLine IsVersion text := by
  apply admits_text_and_iff
  simp [accepts_version_iff]

theorem admits_name_iff :
    (Constraint.matching .name).Admits datum ↔
      ∀ name, datum = .text name → OnOneLine IsName name :=
  forall₂_congr fun name _ => accepts_name_iff name

/-- A lexeme is required or excluded, and which of the two the category says, if there is one. -/
theorem admits_lexemeRule_iff (h : HasSome "category" fields) :
    (Constraint.cases (.under "category" (.oneOf ["operator", "delimiter", "keyword"]))
        (.required "lexeme") (.except (.required "lexeme"))).Admits (.map fields) ↔
      (HasSome "lexeme" fields ↔
        Has "category" (IsOneOf ["operator", "delimiter", "keyword"]) fields) := by
  have hcategory : Has "category" (IsOneOf ["operator", "delimiter", "keyword"]) fields ↔
      (Constraint.under "category" (.oneOf ["operator", "delimiter", "keyword"])).Admits
        (.map fields) := by
    rw [has_iff, Constraint.admits_under_map, and_iff_right h]
    rfl
  rw [hcategory, ← Constraint.admits_required_map]
  constructor
  · rintro ⟨hrequired, hexcluded⟩
    exact ⟨fun hlexeme => Classical.byContradiction fun hnot => hexcluded hnot hlexeme, hrequired⟩
  · intro hiff
    exact ⟨hiff.mpr, fun hnot hlexeme => hnot (hiff.mp hlexeme)⟩

theorem admits_definitionDocument_iff :
    definitionDocument.Admits datum ↔ ∃ fields, datum = .map fields ∧ IsDefinition fields := by
  rw [definitionDocument, Constraint.admits_all]
  simp only [List.forall_mem_cons]
  constructor
  · rintro ⟨hshape, hrequired, hnames, hcategory, hlexeme, hdescription, hrule, _⟩
    obtain ⟨fields, rfl⟩ := exists_map_of_admits hshape
    rw [Constraint.admits_required_map] at hrequired
    rw [Constraint.admits_elsewhere_nothing_map] at hnames
    rw [Constraint.admits_under_map] at hcategory hlexeme hdescription
    refine ⟨fields, rfl, ?_⟩
    exact
      { names := hnames
        category := has_iff.mpr ⟨hrequired, hcategory⟩
        description := fun found hfound => admits_text_iff.mp (hdescription found hfound)
        lexeme := fun found hfound => admits_lexeme_iff.mp (hlexeme found hfound)
        spelled := (admits_lexemeRule_iff hrequired).mp hrule }
  · rintro ⟨fields, rfl, h⟩
    obtain ⟨hrequired, hcategory⟩ := has_iff.mp h.category
    refine ⟨rfl, Constraint.admits_required_map.mpr hrequired,
      Constraint.admits_elsewhere_nothing_map.mpr h.names,
      Constraint.admits_under_map.mpr hcategory, Constraint.admits_under_map.mpr ?_,
      Constraint.admits_under_map.mpr ?_, (admits_lexemeRule_iff hrequired).mpr h.spelled,
      List.forall_mem_nil _⟩
    · exact fun found hfound => admits_lexeme_iff.mpr (h.lexeme found hfound)
    · exact fun found hfound => admits_text_iff.mpr (h.description found hfound)

theorem admits_tokenMap_iff :
    (Constraint.all [.hasShape .map, .minEntries 1, .keys (.matching .name),
        .elsewhere [] definitionDocument]).Admits datum ↔
      ∃ entries, datum = .map entries ∧ IsTokenMap entries := by
  rw [Constraint.admits_all]
  simp only [List.forall_mem_cons]
  constructor
  · rintro ⟨hshape, hsome, hnames, hdefinitions, _⟩
    obtain ⟨entries, rfl⟩ := exists_map_of_admits hshape
    rw [Constraint.admits_keys_map] at hnames
    rw [Constraint.admits_elsewhere_nil_map] at hdefinitions
    refine ⟨entries, rfl, ?_⟩
    exact
      { ne_nil := Constraint.admits_minEntries_one_map.mp hsome
        names := fun entry hmem => admits_name_iff.mp (hnames entry hmem)
        definitions := fun entry hmem => admits_definitionDocument_iff.mp (hdefinitions entry hmem) }
  · rintro ⟨entries, rfl, h⟩
    refine ⟨rfl, Constraint.admits_minEntries_one_map.mpr h.ne_nil, Constraint.admits_keys_map.mpr ?_,
      Constraint.admits_elsewhere_nil_map.mpr ?_, List.forall_mem_nil _⟩
    · exact fun entry hmem => admits_name_iff.mpr (h.names entry hmem)
    · exact fun entry hmem => admits_definitionDocument_iff.mpr (h.definitions entry hmem)

theorem admits_registryDocument_iff :
    registryDocument.Admits datum ↔ ∃ fields, datum = .map fields ∧ IsRegistry fields := by
  rw [registryDocument, Constraint.admits_all]
  simp only [List.forall_mem_cons]
  constructor
  · rintro ⟨hshape, hversion, htokens, hnames, hversions, hentries, _⟩
    obtain ⟨fields, rfl⟩ := exists_map_of_admits hshape
    rw [Constraint.admits_required_map] at hversion htokens
    rw [Constraint.admits_elsewhere_nothing_map] at hnames
    rw [Constraint.admits_under_map] at hversions hentries
    refine ⟨fields, rfl, ?_⟩
    exact
      { names := hnames
        version := has_iff.mpr
          ⟨hversion, fun found hfound => admits_version_iff.mp (hversions found hfound)⟩
        tokens := has_iff.mpr
          ⟨htokens, fun found hfound => admits_tokenMap_iff.mp (hentries found hfound)⟩ }
  · rintro ⟨fields, rfl, h⟩
    obtain ⟨hversion, hversions⟩ := has_iff.mp h.version
    obtain ⟨htokens, hentries⟩ := has_iff.mp h.tokens
    refine ⟨rfl, Constraint.admits_required_map.mpr hversion,
      Constraint.admits_required_map.mpr htokens,
      Constraint.admits_elsewhere_nothing_map.mpr h.names, Constraint.admits_under_map.mpr ?_,
      Constraint.admits_under_map.mpr ?_, List.forall_mem_nil _⟩
    · exact fun found hfound => admits_version_iff.mpr (hversions found hfound)
    · exact fun found hfound => admits_tokenMap_iff.mpr (hentries found hfound)

end Document

/-- A schema that follows the document has, where it is looked at, nothing to say about a registry,
whatever datum that is, exactly if the registry is a map of a version and a map of tokens as they
are documented. -/
theorem check_accepts_documented_shape {schema : Schema} (h : schema.Follows registryDocument)
    (registry : Datum) :
    schema.checkIf true registry = .ok [] ↔ ∃ fields, registry = .map fields ∧ IsRegistry fields :=
  h.check_eq_nil_iff.trans admits_registryDocument_iff

theorem check_accepts_documented_shape_standard :
    finder.Follows registryDocument ∧ finder.checkIf true standard = .ok [] ∧
      ∃ fields, standard = .map fields ∧ IsRegistry fields := by
  have hcheck : finder.checkIf true standard = .ok [] :=
    finder_follows.check_eq_nil_iff.mpr registryDocument_admits_standard
  exact ⟨finder_follows, hcheck, (check_accepts_documented_shape finder_follows standard).mp hcheck⟩

end MonkeyFrontend.Registry
