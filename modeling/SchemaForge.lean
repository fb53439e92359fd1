import SchemaForge.Main
import SchemaForge.Proofs.Reference.Search
import SchemaForge.Proofs.Reference.Components
import SchemaForge.Proofs.Document.Fields
import SchemaForge.Proofs.Outcome
import SchemaForge.Proofs.Reference.Scope
import SchemaForge.Proofs.Reference.Graph
import SchemaForge.Proofs.Compile.Logic
import SchemaForge.Proofs.Compile.Scope
import SchemaForge.Proofs.Expression.References
import SchemaForge.Proofs.Compile.References
import SchemaForge.Proofs.Reference.Alias
import SchemaForge.Proofs.Compile.Deferral
import SchemaForge.Proofs.Compile.Alias
import SchemaForge.Proofs.Compile.Comparison
import SchemaForge.Proofs.Compile.Parts
import SchemaForge.Proofs.Expression.Outline
import SchemaForge.Proofs.Compile.Agreement
import SchemaForge.Proofs.Compile.Caching
import SchemaForge.Proofs.Compile.History
import SchemaForge.Proofs.Generation
import SchemaForge.Proofs.Document.JsonText
import SchemaForge.Proofs.Compile.CacheKey
import SchemaForge.Proofs.Compile.DefaultNull
import SchemaForge.Proofs.Compile.Transparency
import SchemaForge.Proofs.Compile.ObjectCalls
import SchemaForge.Proofs.Expression.Marks
import SchemaForge.Proofs.Compile.Ledger
import SchemaForge.Proofs.Compile.LedgerParts
import SchemaForge.Proofs.Compile.LedgerSchemas
import SchemaForge.Proofs.Compile.Dependencies
import SchemaForge.Proofs.Compile.Concealment
import SchemaForge.Proofs.Specification
import SchemaForge.Proofs.Validation
import SchemaForge.Proofs.Document.TextNames
import SchemaForge.Proofs.Compile.Filtering
import SchemaForge.Proofs.Compile.FilteredBranches
import SchemaForge.Proofs.Compile.Outlook
import SchemaForge.Proofs.Compile.FilteredCompositions
import SchemaForge.Proofs.Compile.Laziness
import SchemaForge.Proofs.Naming.Allocation
import SchemaForge.Proofs.Compile.NameTable
import SchemaForge.Proofs.Configuration
import SchemaForge.Proofs.Exports
import SchemaForge.Proofs.Faults
import SchemaForge.Proofs.Compile.Keeping
import SchemaForge.Proofs.Compile.Failures
import SchemaForge.Proofs.Document.Sameness
import SchemaForge.Proofs.Compile.BranchWalk
import SchemaForge.Proofs.Compile.Discriminators
import SchemaForge.Proofs.Number.Shortest
import SchemaForge.Proofs.Document.Distinct
import SchemaForge.Proofs.Document.SetTexts
import SchemaForge.Proofs.Document.CanonicalFields
import SchemaForge.Proofs.Expression.Entries
import SchemaForge.Proofs.Compile.Scanning
import SchemaForge.Proofs.Compile.Onward
import SchemaForge.Proofs.Compile.Shapes
import SchemaForge.Proofs.Compile.Mappings
import SchemaForge.Proofs.Compile.Evaluated
import SchemaForge.Proofs.Compile.FilteredLevels
import SchemaForge.Proofs.Compile.KeyPolicy
import SchemaForge.Proofs.Compile.Conflicts
import SchemaForge.Proofs.Compile.Merging
import SchemaForge.Proofs.Compile.CachedSchemas
import SchemaForge.Proofs.Compile.FirstDefinition
import SchemaForge.Proofs.Compile.Definite
import SchemaForge.Proofs.Compile.Requiredness
import SchemaForge.Proofs.Compile.Siblings
import SchemaForge.Proofs.Compile.SharedSession
import SchemaForge.Proofs.Duplicates
import SchemaForge.Proofs.RecentUse
import SchemaForge.Proofs.Compile.Extent
import SchemaForge.Proofs.Compile.Depth
import SchemaForge.Proofs.Usage
import SchemaForge.Proofs.EnumMembers
import SchemaForge.Proofs.Comment
import SchemaForge.Proofs.Compile.Patterns
import SchemaForge.Proofs.Compile.RequiredNames
import SchemaForge.Proofs.Expression.PropertyNames
import SchemaForge.Proofs.Compile.DeclaredNames
import SchemaForge.Proofs.Compile.Bounds
import SchemaForge.Proofs.Compile.EnumValues
import SchemaForge.Proofs.WrittenConfiguration
import SchemaForge.Proofs.Naming.Glob
import SchemaForge.Proofs.Naming.Stripping
import SchemaForge.Proofs.Mentions
import SchemaForge.Proofs.Compile.Contributions
import SchemaForge.Proofs.Reference.Resolution
