import CrossReference.Proofs.Bytes.Ahead
import CrossReference.Proofs.Chain.Hidden
import CrossReference.Proofs.Chain.Nearest
import CrossReference.Proofs.Chain.Visited
import CrossReference.Proofs.Chain.Windows
import CrossReference.Proofs.Filter.Base85
import CrossReference.Proofs.Filter.Predicted
import CrossReference.Proofs.Filter.WhiteSpace
import CrossReference.Proofs.Object.Comments
import CrossReference.Proofs.Object.Members
import CrossReference.Proofs.Object.Nesting
import CrossReference.Proofs.Object.StreamText
import CrossReference.Proofs.Recovery.Accounts
import CrossReference.Proofs.Resolve.Collecting
import CrossReference.Proofs.Resolve.Exclusions
import CrossReference.Proofs.Resolve.Failure
import CrossReference.Proofs.Resolve.Inside
import CrossReference.Proofs.Resolve.Limit
import CrossReference.Proofs.Resolve.Located
import CrossReference.Proofs.Resolve.Recovered
import CrossReference.Proofs.Resolve.Repair
import CrossReference.Proofs.Resolve.Tolerance
import CrossReference.Proofs.Resolve.Trailer
import CrossReference.Proofs.Resolve.Update
import CrossReference.Proofs.Scan.Agreement
import CrossReference.Proofs.Section.Arithmetic
import CrossReference.Proofs.Section.DeclaredCounts
import CrossReference.Proofs.Section.Decoded
import CrossReference.Proofs.Section.Layouts
import CrossReference.Proofs.Section.Probe
import CrossReference.Proofs.Section.TextTable
import CrossReference.Proofs.Section.UnknownRecords
import CrossReference.Proofs.Table.Changes
import CrossReference.Proofs.Token.Literal
import CrossReference.Proofs.Trailer.Changes
