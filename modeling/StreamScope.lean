import StreamScope.Access.Basic
import StreamScope.Access.Caller
import StreamScope.Access.Grants
import StreamScope.Ascending
import StreamScope.Backend
import StreamScope.CommandLine.Arguments
import StreamScope.CommandLine.Fixture
import StreamScope.CommandLine.Program
import StreamScope.CommandLine.Report
import StreamScope.Double
import StreamScope.Duration
import StreamScope.Forest.Basic
import StreamScope.Forest.Building
import StreamScope.Forest.Index
import StreamScope.Forest.Lineage
import StreamScope.Forest.Walk
import StreamScope.Json.Basic
import StreamScope.Json.Parser
import StreamScope.Json.Printer
import StreamScope.Json.Typed
import StreamScope.Main
import StreamScope.Permission
import StreamScope.Query.Clause
import StreamScope.Query.Conventions
import StreamScope.Query.Error
import StreamScope.Query.Fault
import StreamScope.Query.LegacyPrefixes
import StreamScope.Query.Marker
import StreamScope.Query.Parameter
import StreamScope.Query.RawClause
import StreamScope.Query.Validation
import StreamScope.Registry
import StreamScope.Resolver.Basic
import StreamScope.Resolver.Config
import StreamScope.Resolver.Error
import StreamScope.Scope.Expanded
import StreamScope.Scope.Permitted
import StreamScope.Scope.Predicate
import StreamScope.Scope.Resolved
import StreamScope.Stream
import StreamScope.Text.CharClass
import StreamScope.Text.Quoted
import StreamScope.Text.Reader
import StreamScope.Toml.Document
import StreamScope.Toml.Parser
import StreamScope.Proofs.Access.Levels
import StreamScope.Proofs.Forest.Ancestry
import StreamScope.Proofs.Forest.Chain
import StreamScope.Proofs.Forest.Descent
import StreamScope.Proofs.InMemory
import StreamScope.Proofs.Outcome
import StreamScope.Proofs.Resolver.Course
import StreamScope.Proofs.Resolver.Forbidden
import StreamScope.Proofs.Resolver.Forced
import StreamScope.Proofs.Resolver.Readable
import StreamScope.Proofs.Scope.Entitlement
import StreamScope.Proofs.Scope.Meaning
import StreamScope.Proofs.Scope.Narrowing
import StreamScope.Proofs.Scope.Reach
import StreamScope.Proofs.Forest.Nearest
import StreamScope.Proofs.Scope.Success
import StreamScope.Proofs.Scope.Mention
import StreamScope.Proofs.Access.Widening
import StreamScope.Proofs.Resolver.Wildcard
import StreamScope.Proofs.Resolver.Named
import StreamScope.Proofs.Scope.Overlap
import StreamScope.Proofs.Scope.Reduction
import StreamScope.Proofs.Resolver.Hidden
import StreamScope.Proofs.Scope.Marked
import StreamScope.Proofs.Query.Grammar
import StreamScope.Proofs.Scope.Lookups
import StreamScope.Proofs.Resolver.Isolation
import StreamScope.Proofs.Forest.Traversal
import StreamScope.Proofs.Resolver.Confinement
import StreamScope.Proofs.Resolver.Enumeration
import StreamScope.Proofs.Repetition
import StreamScope.Proofs.Scope.Report
import StreamScope.Proofs.Resolver.Health
import StreamScope.Proofs.Resolver.Independence
import StreamScope.Proofs.Resolver.Priority
import StreamScope.Proofs.Resolver.Batching
import StreamScope.Proofs.Ascending
import StreamScope.Proofs.Scope.StoreByStore
import StreamScope.Proofs.Forest.Views
import StreamScope.Proofs.Forest.Building
import StreamScope.Proofs.Forest.Coherence
import StreamScope.Proofs.Resolver.Clean
import StreamScope.Proofs.Scope.Demand
import StreamScope.Proofs.Query.Spelling
import StreamScope.Proofs.Query.Naming
import StreamScope.Proofs.Resolver.LegacyAnswer
import StreamScope.Proofs.Resolver.LegacyRequest
import StreamScope.Proofs.CommandLine.CheckedConfig
import StreamScope.Proofs.Forest.Rooted
import StreamScope.Proofs.Forest.Acceptance
import StreamScope.Proofs.Forest.Diagnosis
import StreamScope.Proofs.Scope.Reordering
import StreamScope.Proofs.Scope.Closure
import StreamScope.Proofs.Access.Entries
import StreamScope.Proofs.Access.Inheritance
import StreamScope.Proofs.Query.Grouping
import StreamScope.Proofs.Query.WildcardSpelling
import StreamScope.Proofs.Query.FullIds
import StreamScope.Proofs.Query.Characters
import StreamScope.Proofs.Resolver.ShownIds
import StreamScope.Proofs.Forest.Preorder
import StreamScope.Proofs.Forest.ParentWalk
import StreamScope.Proofs.Json.Reading
import StreamScope.Proofs.Scope.WireForm
import StreamScope.Proofs.Query.StoredConventions
