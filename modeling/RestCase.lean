import RestCase.Case.ResultReading
import RestCase.Case.Writing
import RestCase.Main
import RestCase.Proofs.Case.Building
import RestCase.Proofs.Case.Gathering
import RestCase.Proofs.Case.RoundTrip
import RestCase.Proofs.Command.Verdict
import RestCase.Proofs.Condition.Unquoted
import RestCase.Proofs.Extraction.Confirmation
import RestCase.Proofs.Extraction.LastWrite
import RestCase.Proofs.Json.Trees
import RestCase.Proofs.Path.Definiteness
import RestCase.Proofs.Path.Traversal
import RestCase.Proofs.Pattern.WholeMatch
import RestCase.Proofs.Report.Markup
import RestCase.Proofs.Report.RoundTrip
import RestCase.Proofs.Run.Accounts
import RestCase.Proofs.Run.Anonymity
import RestCase.Proofs.Run.Cleanup
import RestCase.Proofs.Run.Commuting
import RestCase.Proofs.Run.Phases
import RestCase.Proofs.Run.Requests
import RestCase.Proofs.Run.Retrying
import RestCase.Proofs.Run.Secrets
import RestCase.Proofs.Template.Idempotence
import RestCase.Proofs.Template.Payload
import RestCase.Proofs.Url.Directory
import RestCase.Proofs.Verification.Independence
import RestCase.Proofs.Verification.IntegerOrder
import RestCase.Proofs.Verification.Order
import RestCase.Proofs.Verification.Shortcuts
