import MonkeyFrontend.Registry.Finder
import MonkeyFrontend.Registry.Standard

/-!
# What schemas accept

What a document admits is read off it constraint by constraint. This module has one lemma for each
kind of constraint, about maps as far as it is about maps (`Constraint.admits_all` and what
follows it). A constraint that is about what is under a name admits maps without the name, so what
is said about a name that is missing counts as kept, also where one constraint decides which other
one is to hold.

A schema that follows a document has nothing to report about the data that the document admits, and
about no others (`Schema.Follows.check_eq_nil_iff`). There is such a schema for registries.
`violations` searches a registry for what departs from its document, place by place, and
finds nothing exactly where the document admits the registry.

## Main results

* `Schema.Follows.check_eq_nil_iff` — the data that are not reported.
* `violations_eq_nil_iff` — what departs from nothing.
* `finder_follows` — a schema for registries.
-/

namespace MonkeyFrontend.Registry

/-! ## What is under a name -/

section Names

variable {name : String} {good : Datum → Prop} {fields : List Entry}

theorem has_iff : Has name good fields ↔ HasSome name fields ∧ MayHave name good fields := by
  constructor
  · rintro ⟨datum, hfound, hgood⟩
    refine ⟨⟨datum, hfound, trivial⟩, fun other hother => ?_⟩
    rw [hfound] at hother
    exact Option.some.inj hother ▸ hgood
  · rintro ⟨⟨datum, hfound, _⟩, hgood⟩
    exact ⟨datum, hfound, hgood datum hfound⟩

theorem hasSome_iff : HasSome name fields ↔ (Entry.find? name fields).isSome = true := by
  rw [Option.isSome_iff_exists]
  exact exists_congr fun _ => iff_of_eq (and_true _)

end Names

/-! ## Constraints -/

namespace Constraint

theorem admits_all {constraints : List Constraint} {datum : Datum} :
    (all constraints).Admits datum ↔ ∀ constraint ∈ constraints, constraint.Admits datum := by
  induction constraints with
  | nil => simp [all]
  | cons first rest ih =>
      rw [List.forall_mem_cons, ← ih]
      rfl

theorem not_admits_nothing (datum : Datum) : ¬ nothing.Admits datum :=
  fun h => h trivial

section Maps

variable {name : String} {fields : List Entry} {constraint : Constraint}

theorem admits_required_map : (required name).Admits (.map fields) ↔ HasSome name fields := by
  simp

theorem admits_under_map :
    (under name constraint).Admits (.map fields) ↔ MayHave name constraint.Admits fields := by
  simp

theorem admits_keys_map :
    (keys constraint).Admits (.map fields) ↔ ∀ field ∈ fields, constraint.Admits field.key := by
  simp

theorem admits_elsewhere_map {names : List String} :
    (elsewhere names constraint).Admits (.map fields) ↔
      ∀ field ∈ fields, ¬ IsOneOf names field.key → constraint.Admits field.value := by
  simp

/-- Nothing may be under other names if there are none. -/
theorem admits_elsewhere_nothing_map {names : List String} :
    (elsewhere names nothing).Admits (.map fields) ↔ ∀ field ∈ fields, IsOneOf names field.key := by
  rw [admits_elsewhere_map]
  refine forall₂_congr fun field _ => ⟨fun h => ?_, fun h hnot => absurd h hnot⟩
  exact Classical.byContradiction fun hnot => not_admits_nothing field.value (h hnot)

/-- Where no names are excluded, all values are meant. -/
theorem admits_elsewhere_nil_map :
    (elsewhere [] constraint).Admits (.map fields) ↔
      ∀ field ∈ fields, constraint.Admits field.value := by
  rw [admits_elsewhere_map]
  refine forall₂_congr fun field _ => ⟨fun h => h ?_, fun h _ => h⟩
  rintro ⟨text, hmem, _⟩
  cases hmem

theorem admits_minEntries_one_map : (minEntries 1).Admits (.map fields) ↔ fields ≠ [] := by
  cases fields <;> simp

end Maps

end Constraint

/-! ## Schemas -/

theorem Judgment.report_eq_nil_iff {judgment : Judgment} :
    judgment.report = [] ↔ judgment = .accepted := by
  cases judgment <;> simp [Judgment.report]

theorem Schema.check_eq_ok_iff {schema : Schema} {datum : Datum} {lines : List String} :
    schema.check datum = .ok lines ↔
      ∃ judgment, schema.judge datum = .ok judgment ∧ judgment.report = lines := by
  unfold Schema.check
  cases schema.judge datum <;> simp [bind, Except.bind, pure, Except.pure]

/-- A datum is not reported if the document admits it, and only then. -/
theorem Schema.Follows.check_eq_nil_iff {schema : Schema} {document : Constraint}
    (h : schema.Follows document) {datum : Datum} :
    schema.check datum = .ok [] ↔ document.Admits datum := by
  rw [← h datum, Schema.check_eq_ok_iff]
  simp only [Judgment.report_eq_nil_iff, exists_eq_right]

/-! ## What departs from nothing -/

section Violations

variable {path : List Datum} {fields : List Entry} {key datum : Datum} {name : String}

/-- What departs from nothing under a name is admitted there. -/
theorem violationsUnder_eq_nil_iff {find : Datum → List Violation} {constraint : Constraint}
    (h : ∀ {datum}, find datum = [] ↔ constraint.Admits datum) :
    ((Entry.find? name fields).map find).getD [] = [] ↔
      (Constraint.under name constraint).Admits (.map fields) := by
  rw [Constraint.admits_under_map]
  unfold MayHave
  cases Entry.find? name fields <;> simp [h]

theorem missing_eq_nil_iff {violation : Violation} :
    (if (Entry.find? name fields).isNone then [violation] else []) = [] ↔
      (Constraint.required name).Admits (.map fields) := by
  rw [Constraint.admits_required_map, hasSome_iff]
  cases Entry.find? name fields <;> simp

theorem extraViolation_eq_nil_iff {allowed : List String} :
    extraViolation path allowed fields = [] ↔
      (Constraint.elsewhere allowed .nothing).Admits (.map fields) := by
  rw [Constraint.admits_elsewhere_nothing_map, extraViolation]
  simp only [ite_eq_left_iff, List.isEmpty_iff, List.cons_ne_self, imp_false, Classical.not_not,
    List.filter_eq_nil_iff, List.forall_mem_map]
  refine forall₂_congr fun field _ => ?_
  cases field.key <;> simp [IsOneOf]

theorem textViolation_eq_nil_iff :
    textViolation path datum = [] ↔ (Constraint.hasShape .text).Admits datum := by
  cases datum <;> simp [textViolation, Datum.shape]

theorem categoryViolations_eq_nil_iff :
    categoryViolations path datum = [] ↔ (Constraint.oneOf Defect.categories).Admits datum := by
  cases datum <;> simp [categoryViolations, IsOneOf]

theorem one_le_length_iff {text : String} : 1 ≤ text.length ↔ text ≠ "" := by
  rw [Nat.one_le_iff_ne_zero, ne_eq, String.length_eq_zero_iff]

theorem lexemeViolations_eq_nil_iff :
    lexemeViolations path datum = [] ↔
      (Constraint.all [.hasShape .text, .minLength 1]).Admits datum := by
  simp only [Constraint.admits_all, List.forall_mem_cons, Constraint.Admits, one_le_length_iff]
  cases datum with
  | text value => by_cases hempty : value = "" <;>
      simp [lexemeViolations, textViolation, Datum.shape, hempty]
  | _ => simp [lexemeViolations, textViolation, Datum.shape]

theorem versionViolations_eq_nil_iff :
    versionViolations datum = [] ↔
      (Constraint.all [.hasShape .text, .matching .version]).Admits datum := by
  cases datum <;>
    simp [versionViolations, textViolation, Constraint.admits_all, Datum.shape]

theorem nameViolations_eq_nil_iff :
    nameViolations datum = [] ↔ (Constraint.matching .name).Admits datum := by
  cases datum <;> simp [nameViolations]

theorem hasSpelling_iff :
    hasSpelling datum = true ↔
      (Constraint.oneOf ["operator", "delimiter", "keyword"]).Admits datum := by
  cases datum <;> simp [hasSpelling, IsOneOf]

/-- A definition without a category is treated like one whose category has spellings. -/
theorem lexemeRuleViolations_eq_nil_iff :
    lexemeRuleViolations path fields = [] ↔
      (Constraint.cases (.under "category" (.oneOf ["operator", "delimiter", "keyword"]))
        (.required "lexeme") (.except (.required "lexeme"))).Admits (.map fields) := by
  have hspelled : ((Entry.find? "category" fields).map hasSpelling).getD true = true ↔
      (Constraint.under "category" (.oneOf ["operator", "delimiter", "keyword"])).Admits
        (.map fields) := by
    rw [Constraint.admits_under_map]
    unfold MayHave
    cases Entry.find? "category" fields <;> simp [hasSpelling_iff]
  rw [Constraint.Admits, Constraint.Admits, Constraint.admits_required_map, hasSome_iff, ← hspelled]
  unfold lexemeRuleViolations
  cases ((Entry.find? "category" fields).map hasSpelling).getD true <;>
    cases Entry.find? "lexeme" fields <;> simp

/-- The definition of a token departs from nothing if the document admits it, and only then. -/
theorem definitionViolations_eq_nil_iff :
    definitionViolations key datum = [] ↔ definitionDocument.Admits datum := by
  rw [definitionDocument, Constraint.admits_all]
  simp only [List.forall_mem_cons]
  cases datum with
  | map fields =>
      simp only [definitionViolations, List.append_eq_nil_iff, missing_eq_nil_iff,
        extraViolation_eq_nil_iff, lexemeRuleViolations_eq_nil_iff,
        violationsUnder_eq_nil_iff categoryViolations_eq_nil_iff,
        violationsUnder_eq_nil_iff lexemeViolations_eq_nil_iff,
        violationsUnder_eq_nil_iff textViolation_eq_nil_iff]
      constructor
      · rintro ⟨⟨⟨⟨⟨hrequired, hnames⟩, hrule⟩, hcategory⟩, hlexeme⟩, hdescription⟩
        exact ⟨rfl, hrequired, hnames, hcategory, hlexeme, hdescription, hrule, List.forall_mem_nil _⟩
      · rintro ⟨_, hrequired, hnames, hcategory, hlexeme, hdescription, hrule, _⟩
        exact ⟨⟨⟨⟨⟨hrequired, hnames⟩, hrule⟩, hcategory⟩, hlexeme⟩, hdescription⟩
  | _ => simp [definitionViolations, Datum.shape]

theorem tokensViolations_eq_nil_iff :
    tokensViolations datum = [] ↔
      (Constraint.all [.hasShape .map, .minEntries 1, .keys (.matching .name),
        .elsewhere [] definitionDocument]).Admits datum := by
  rw [Constraint.admits_all]
  simp only [List.forall_mem_cons]
  cases datum with
  | map entries =>
      have hentries : (if entries.isEmpty then [(⟨[.text "tokens"], .empty (.map entries)⟩ : Violation)]
          else []) = [] ↔ (Constraint.minEntries 1).Admits (.map entries) := by
        rw [Constraint.admits_minEntries_one_map]
        cases entries <;> simp
      simp only [tokensViolations, List.append_eq_nil_iff, List.flatMap_eq_nil_iff, hentries,
        nameViolations_eq_nil_iff, definitionViolations_eq_nil_iff, Constraint.admits_keys_map,
        Constraint.admits_elsewhere_nil_map]
      constructor
      · rintro ⟨⟨hsome, hnames⟩, hdefinitions⟩
        exact ⟨rfl, hsome, hnames, hdefinitions, List.forall_mem_nil _⟩
      · rintro ⟨_, hsome, hnames, hdefinitions, _⟩
        exact ⟨⟨hsome, hnames⟩, hdefinitions⟩
  | _ => simp [tokensViolations, Datum.shape]

/-- A registry departs from nothing if the document admits it, and only then. -/
theorem violations_eq_nil_iff : violations datum = [] ↔ registryDocument.Admits datum := by
  rw [registryDocument, Constraint.admits_all]
  simp only [List.forall_mem_cons]
  cases datum with
  | map fields =>
      simp only [violations, missingViolation, List.append_eq_nil_iff, missing_eq_nil_iff,
        extraViolation_eq_nil_iff, violationsUnder_eq_nil_iff versionViolations_eq_nil_iff,
        violationsUnder_eq_nil_iff tokensViolations_eq_nil_iff]
      constructor
      · rintro ⟨⟨⟨⟨hversion, htokens⟩, hnames⟩, hversions⟩, hentries⟩
        exact ⟨rfl, hversion, htokens, hnames, hversions, hentries, List.forall_mem_nil _⟩
      · rintro ⟨_, hversion, htokens, hnames, hversions, hentries, _⟩
        exact ⟨⟨⟨⟨hversion, htokens⟩, hnames⟩, hversions⟩, hentries⟩
  | _ => simp [violations, Datum.shape]

end Violations

/-- The finder of violations accepts the registries that their document admits. -/
theorem finder_follows : finder.Follows registryDocument := by
  intro datum
  rw [← violations_eq_nil_iff]
  show Violation.judgment (violations datum) = _ ↔ _
  cases violations datum with
  | nil => exact ⟨fun _ => rfl, fun _ => rfl⟩
  | cons first rest =>
      -- Out of several violations one is reported, or there is an obstacle to choosing it.
      cases hfound : Violation.mostRelevant first rest <;>
        simp [Violation.judgment, hfound, bind, Except.bind, pure, Except.pure]

/-- The document admits the registry of the language. -/
theorem registryDocument_admits_standard : registryDocument.Admits standard := by
  have hnone : (violations standard).isEmpty = true := by decide +kernel
  exact violations_eq_nil_iff.mp (List.isEmpty_iff.mp hnone)

end MonkeyFrontend.Registry
