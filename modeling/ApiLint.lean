import ApiLint.Main
import ApiLint.Proofs.Graph.Trail
import ApiLint.Proofs.Walk.Reports
import ApiLint.Proofs.Walk.Paths
import ApiLint.Proofs.Document.Outline
import ApiLint.Proofs.Document.Reading
import ApiLint.Proofs.Document.Aliases
import ApiLint.Proofs.Document.Layout
import ApiLint.Proofs.Document.Rendering
import ApiLint.Proofs.Pointer
import ApiLint.Proofs.Walk.Inline
import ApiLint.Proofs.Document.WellFormed
import ApiLint.Proofs.Matching.Departures
import ApiLint.Proofs.Rule.Builtin
import ApiLint.Proofs.Lint.Walks
import ApiLint.Proofs.Lint.Findings
import ApiLint.Proofs.Lint.TypeMismatch
import ApiLint.Proofs.Lint.Coverage
import ApiLint.Proofs.Document.Address
import ApiLint.Proofs.Document.Envelope
import ApiLint.Proofs.Matching.Rejected
import ApiLint.Proofs.Lint.Addresses
import ApiLint.Proofs.Graph.Reach
import ApiLint.Proofs.Graph.Defects
import ApiLint.Proofs.Walk.Calls
import ApiLint.Proofs.Walk.Reached
import ApiLint.Proofs.Document.Sound
import ApiLint.Proofs.Lint.Walkable
import ApiLint.Proofs.Document.Failures
import ApiLint.Proofs.Lint.Failures
import ApiLint.Proofs.Raw.Parts
import ApiLint.Proofs.Raw.Rekeying
import ApiLint.Proofs.Document.Rekeying
import ApiLint.Proofs.Lint.Rekeying
import ApiLint.Proofs.Document.Chains
import ApiLint.Proofs.Document.Correspondence
import ApiLint.Proofs.Matching.Echoes
import ApiLint.Proofs.Walk.Rules
import ApiLint.Proofs.Raw.Redirecting
import ApiLint.Proofs.Document.Redirecting
import ApiLint.Proofs.Document.References
import ApiLint.Proofs.Document.Transfer
import ApiLint.Proofs.Document.Renaming
import ApiLint.Proofs.Rule.Selection
import ApiLint.Proofs.Lint.Components
import ApiLint.Proofs.Lint.Locality
import ApiLint.Proofs.Lint.Renaming
import ApiLint.Proofs.Lint.Aliases
import ApiLint.Proofs.Walk.Rejection
import ApiLint.Proofs.Matching.Faults
import ApiLint.Proofs.Rule.Faults
import ApiLint.Proofs.Rule.Discriminators
import ApiLint.Proofs.Lint.Discriminators
import ApiLint.Proofs.Lint.Envelopes
import ApiLint.Proofs.Walk.Rebasing
import ApiLint.Proofs.Document.Relocation
import ApiLint.Proofs.Lint.Families
import ApiLint.Proofs.Rule.Sessions
import ApiLint.Proofs.Rule.Sharing
import ApiLint.Proofs.Document.Issues
import ApiLint.Proofs.Yaml.Places
import ApiLint.Proofs.Lint.Positions
import ApiLint.Proofs.Json.Documents
import ApiLint.Proofs.Matching.Relaxing
import ApiLint.Proofs.Lint.Files
import ApiLint.Proofs.Matching.Hints
import ApiLint.Proofs.Number.Nearest
import ApiLint.Proofs.Document.Pointers
import ApiLint.Proofs.Document.Following
import ApiLint.Proofs.Location
import ApiLint.Proofs.Yaml.Making
import ApiLint.Proofs.Yaml.Covering
import ApiLint.Proofs.Document.Shapes
import ApiLint.Proofs.Yaml.Faults
import ApiLint.Proofs.Yaml.Unmade
import ApiLint.Proofs.Document.Unread
import ApiLint.Proofs.Document.IssueOrder
import ApiLint.Proofs.Version
import ApiLint.Proofs.Command.Endings
import ApiLint.Proofs.Context
import ApiLint.Proofs.Walk.Restoring
import ApiLint.Proofs.Log.Streams
import ApiLint.Proofs.Files.Paths
import ApiLint.Proofs.Files.Search
import ApiLint.Proofs.Lint.Commands
