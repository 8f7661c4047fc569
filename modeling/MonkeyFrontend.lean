import MonkeyFrontend.Scanner
import MonkeyFrontend.Verdict
import MonkeyFrontend.Main
import MonkeyFrontend.Proofs.Acceptance
import MonkeyFrontend.Proofs.MaximalMunch
import MonkeyFrontend.Proofs.Nesting
import MonkeyFrontend.Proofs.RoundTrip
import MonkeyFrontend.Proofs.Provenance
import MonkeyFrontend.Proofs.Listing
import MonkeyFrontend.Proofs.Nodes
import MonkeyFrontend.Proofs.Termination
import MonkeyFrontend.Proofs.PassingRegistry
import MonkeyFrontend.Proofs.BlockEnd
import MonkeyFrontend.Proofs.KeywordTables
import MonkeyFrontend.Proofs.ValidationEnd
import MonkeyFrontend.Proofs.DocumentedSpellings
import MonkeyFrontend.Proofs.SortedKeys
import MonkeyFrontend.Proofs.ValidationReports
import MonkeyFrontend.Proofs.RegistryLexemes
import MonkeyFrontend.Proofs.Separators
import MonkeyFrontend.Proofs.SharedDiagnostics
import MonkeyFrontend.Proofs.ActiveEntries
import MonkeyFrontend.Proofs.ScannerPosition
import MonkeyFrontend.Proofs.DocumentedShape
import MonkeyFrontend.Proofs.SessionPlace
