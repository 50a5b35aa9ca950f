import ContentStore.Text.Ascii
import ContentStore.Text.Quoted
import ContentStore.Keyed.Ordered
import ContentStore.Keyed.Sorted
import ContentStore.Double.Notation
import ContentStore.Json.Basic
import ContentStore.Json.Text
import ContentStore.Json.Record
import ContentStore.Id.Proto
import ContentStore.Id.Mapping
import ContentStore.Schema.Structure
import ContentStore.Schema.Json
import ContentStore.Content.Issue
import ContentStore.Content.FileValue
import ContentStore.Content.Format
import ContentStore.Content.Validator
import ContentStore.Content.Walk
import ContentStore.Content.Reference
import ContentStore.Entity.Json
import ContentStore.Store.Memory
import ContentStore.Engine.Config
import ContentStore.Engine.Install
import ContentStore.Proofs.Engine.Runs
import ContentStore.Proofs.Engine.Exact
import ContentStore.Proofs.Store.Memory
import ContentStore.Proofs.Content.Conformance
import ContentStore.Proofs.Engine.PackCheck
import ContentStore.Proofs.Engine.Consistency
import ContentStore.Proofs.Content.Positions
import ContentStore.Proofs.Content.Invariance
import ContentStore.Proofs.Engine.PackFailures
import ContentStore.Proofs.Engine.FixedIds
import ContentStore.Proofs.Content.Traversal
import ContentStore.Proofs.Content.Scanning
import ContentStore.Proofs.Content.Attachments
import ContentStore.Proofs.Engine.FilesStored
import ContentStore.Proofs.Content.Redirects
import ContentStore.Proofs.Engine.Agrees
import ContentStore.Proofs.Engine.MirroredDocuments
import ContentStore.Proofs.Engine.PackBase
import ContentStore.Proofs.Engine.Staged
import ContentStore.Proofs.Engine.CategoryForest
import ContentStore.Proofs.Store.Isolation
import ContentStore.Proofs.Engine.Renumbered
import ContentStore.Proofs.Content.Locality
import ContentStore.Proofs.Content.IssuePaths
import ContentStore.Proofs.Entity.Text
import ContentStore.Proofs.Content.InStep
import ContentStore.Proofs.Schema.Passes
import ContentStore.Proofs.Content.Refinements
import ContentStore.Proofs.Engine.Batch
import ContentStore.Proofs.Schema.Cycles
import ContentStore.Proofs.Id.Namespaces
import ContentStore.Proofs.Engine.MissingTargets
import ContentStore.Proofs.Schema.DeclarationOrder
import ContentStore.Proofs.Content.Literals
import ContentStore.Proofs.Content.PlainFormats
import ContentStore.Proofs.Content.Acceptance
import ContentStore.Proofs.Content.Nesting
import ContentStore.Proofs.Engine.Config
