import PolicyDelta.Text.Integer
import PolicyDelta.Policy.Scope
import PolicyDelta.Policy.Reader
import PolicyDelta.Equivalence
import PolicyDelta.RuleIndex.Build
import PolicyDelta.PermissionSplit
import PolicyDelta.Change.Render
import PolicyDelta.Change.Json
import PolicyDelta.Session
import PolicyDelta.Report.Format
import PolicyDelta.RuleIndex.Store
import PolicyDelta.Bzip2
import PolicyDelta.PolicyFile
import PolicyDelta.CommandLine.Options
import PolicyDelta.CallTrace
import PolicyDelta.Main
import PolicyDelta.Proofs.Permissions
import PolicyDelta.Proofs.Defaults
import PolicyDelta.Proofs.Provenance
import PolicyDelta.Proofs.Meaning
import PolicyDelta.Proofs.Contents
import PolicyDelta.Proofs.Readable
import PolicyDelta.Proofs.Standing
import PolicyDelta.Proofs.Verdict
import PolicyDelta.Proofs.Alike
import PolicyDelta.Proofs.Rewriting
import PolicyDelta.Proofs.Translation
import PolicyDelta.Proofs.Mirror
import PolicyDelta.Proofs.Locality
import PolicyDelta.Proofs.References
import PolicyDelta.Proofs.Escapes
import PolicyDelta.Proofs.Identities
import PolicyDelta.Proofs.Lines
import PolicyDelta.Proofs.ReadBack
import PolicyDelta.Proofs.Separation
import PolicyDelta.Proofs.ContentText
import PolicyDelta.Proofs.Lifecycle
import PolicyDelta.Proofs.Arguments
import PolicyDelta.Proofs.Runs
import PolicyDelta.Proofs.Diagnostics
import PolicyDelta.Proofs.TypeChanges
import PolicyDelta.Proofs.Tally
import PolicyDelta.Proofs.Transparency
import PolicyDelta.Proofs.Merging
import PolicyDelta.Proofs.Layout
import PolicyDelta.Proofs.Legible
import PolicyDelta.Proofs.BareNames
import PolicyDelta.Proofs.Entries
import PolicyDelta.Proofs.Printing
import PolicyDelta.Proofs.Detection
import PolicyDelta.Proofs.Sections
import PolicyDelta.Proofs.TypePatch
import PolicyDelta.Proofs.KeyOrder
