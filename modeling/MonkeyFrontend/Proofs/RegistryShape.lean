import MonkeyFrontend.Proofs.DocumentedShape
import MonkeyFrontend.Registry.Validation

/-!
# Registries that have the right shape

Where a registry has the documented shape, the checks that come after the one of its shape meet no
obstacle: there is a map of tokens, the definition of a token is a map, its category is a text, and
its lexeme, if it has one, is a text, which a keyword has (`exists_entries_of_admits`). What the
checks ask of an entry is said by `field?`, which cannot fail.

## Main results

* `Defines.described` — a definition of the documented shape is as the checks need it.
* `exists_entries_of_admits` — the entries of a registry of the documented shape.
-/

namespace MonkeyFrontend.Registry

/-- The datum that the definition of an entry has under a name. -/
def field? (name : String) (entry : Entry) : Option Datum :=
  match entry.value with
  | .map fields => Entry.find? name fields
  | _ => none

theorem field?_of_map {entry : Entry} {fields : List Entry} (h : entry.value = .map fields)
    (name : String) : field? name entry = Entry.find? name fields := by
  rw [field?, h]

/-- The definition of an entry is as the checks need it. -/
structure Described (entry : Entry) : Prop where
  member? : ∀ name, entry.value.member? name = .ok (field? name entry)
  category : ∃ category, field? "category" entry = some (.text category)
  lexeme : ∀ lexeme, field? "lexeme" entry = some lexeme → ∃ text, lexeme = .text text
  keyword : field? "category" entry = some (.text "keyword") →
    ∃ text, field? "lexeme" entry = some (.text text)

/-- The definition of an entry is a map. -/
def Defined (entry : Entry) : Prop :=
  ∃ fields, entry.value = .map fields

theorem Defined.member? {entry : Entry} (h : Defined entry) (name : String) :
    entry.value.member? name = .ok (field? name entry) := by
  obtain ⟨fields, hfields⟩ := h
  rw [field?_of_map hfields, hfields]
  rfl

/-- Only in a map something can be looked up. -/
theorem defined_of_member? {entry : Entry} {name : String} {found : Option Datum}
    (h : entry.value.member? name = .ok found) : Defined entry := by
  unfold Defined
  cases hvalue : entry.value with
  | map fields => exact ⟨fields, rfl⟩
  | _ =>
      rw [hvalue] at h
      cases h

theorem Described.defined {entry : Entry} (h : Described entry) : Defined entry :=
  defined_of_member? (h.member? "category")

/-- The definition of an entry has the documented shape. -/
def Defines (entry : Entry) : Prop :=
  ∃ fields, entry.value = .map fields ∧ IsDefinition fields

/-- A definition of the documented shape is as the checks need it. -/
theorem Defines.described {entry : Entry} (h : Defines entry) : Described entry := by
  obtain ⟨fields, hfields, hdefinition⟩ := h
  have hfield := field?_of_map hfields
  obtain ⟨_, hcategory, text, _, rfl⟩ := hdefinition.category
  have hlexeme : ∀ lexeme, field? "lexeme" entry = some lexeme → ∃ text, lexeme = .text text := by
    intro lexeme hfound
    obtain ⟨text, _, htext⟩ := hdefinition.lexeme lexeme (hfield "lexeme" ▸ hfound)
    exact ⟨text, htext⟩
  exact
    { member? := Defined.member? ⟨fields, hfields⟩
      category := ⟨text, (hfield "category").trans hcategory⟩
      lexeme := hlexeme
      keyword := fun hkeyword => by
        -- Keywords are among the categories whose members have one spelling.
        have hspelled : HasSome "lexeme" fields := hdefinition.spelled.mpr
          ⟨_, (hfield "category").symm.trans hkeyword, "keyword", by decide, rfl⟩
        obtain ⟨lexeme, hfound, _⟩ := hspelled
        have hfound : field? "lexeme" entry = some lexeme := (hfield "lexeme").trans hfound
        obtain ⟨word, rfl⟩ := hlexeme lexeme hfound
        exact ⟨word, hfound⟩ }

/-- In a registry that the document admits there is a map of tokens, and all definitions in it have
the documented shape. -/
theorem exists_entries_of_admits {registry : Datum} (h : registryDocument.Admits registry) :
    ∃ entries, tokensOf registry = .ok (.map entries) ∧ ∀ entry ∈ entries, Defines entry := by
  obtain ⟨fields, rfl, hregistry⟩ := admits_registryDocument_iff.mp h
  obtain ⟨_, htokens, entries, rfl, hentries⟩ := hregistry.tokens
  refine ⟨entries, ?_, hentries.definitions⟩
  have hmember : (Datum.map fields).member? "tokens" = .ok (some (.map entries)) :=
    congrArg Except.ok htokens
  rw [tokensOf, hmember]
  rfl

end MonkeyFrontend.Registry
