import ClassModel.Association
import ClassModel.Attribute
import ClassModel.CommandLine.Files
import ClassModel.CommandLine.Options
import ClassModel.CommandLine.Program
import ClassModel.CommandLine.Report
import ClassModel.CommandLine.Request
import ClassModel.CommandLine.Styled
import ClassModel.Config
import ClassModel.Copies.Flatten
import ClassModel.Copies.Relabelling
import ClassModel.Decimal.Binary
import ClassModel.Decimal.Notation
import ClassModel.Decimal.Reader
import ClassModel.Decimal.Shortest
import ClassModel.Diagnostic
import ClassModel.Document.Basic
import ClassModel.Document.Load
import ClassModel.Document.Reader
import ClassModel.Entity
import ClassModel.Exchange.Decode
import ClassModel.Exchange.Encode
import ClassModel.Exchange.Summary
import ClassModel.Features.Basic
import ClassModel.Features.Boundary
import ClassModel.Features.Nonlocal
import ClassModel.Features.Paths
import ClassModel.Fuzzy
import ClassModel.Id
import ClassModel.Inheritance.Chain
import ClassModel.Inheritance.Defined
import ClassModel.Inheritance.Order
import ClassModel.Inheritance.Reach
import ClassModel.Inheritance.Subclasses
import ClassModel.Json.Basic
import ClassModel.Json.Outline
import ClassModel.Json.Printer
import ClassModel.Main
import ClassModel.Matching.Comparison
import ClassModel.Matching.Engine
import ClassModel.Matching.Mapping
import ClassModel.Matching.Passes
import ClassModel.Matching.Rows
import ClassModel.Model.Basic
import ClassModel.Model.Edit
import ClassModel.Model.Script
import ClassModel.Multiplicity
import ClassModel.Naming.Similarity
import ClassModel.Naming.Thesaurus
import ClassModel.Note
import ClassModel.Operation
import ClassModel.Text.Blank
import ClassModel.Text.CaseTables
import ClassModel.Text.Lowercase
import ClassModel.Text.Plural
import ClassModel.Text.Words
import ClassModel.Toml.Printer
import ClassModel.Toml.Quoted
import ClassModel.Toml.Reader
import ClassModel.Toml.Scalar
import ClassModel.Toml.Statement
import ClassModel.Toml.Tree
import ClassModel.Toml.Value
import ClassModel.TypeExpr
import ClassModel.Proofs.Lists
import ClassModel.Proofs.Model.Effects
import ClassModel.Proofs.Inheritance.Order
import ClassModel.Proofs.Copies.Carrying
import ClassModel.Proofs.Model.Reachable
import ClassModel.Proofs.Document.Loading
import ClassModel.Proofs.Model.Histories
import ClassModel.Proofs.Model.FeatureLists
import ClassModel.Proofs.Features.Enumeration
import ClassModel.Proofs.Inheritance.Links
import ClassModel.Proofs.Inheritance.Repair
import ClassModel.Proofs.Inheritance.Agreement
import ClassModel.Proofs.Model.Growth
import ClassModel.Proofs.Copies.Insertion
import ClassModel.Proofs.Model.FarEnds
import ClassModel.Proofs.Features.Growth
import ClassModel.Proofs.Copies.Flattening
import ClassModel.Proofs.Features.Sides
import ClassModel.Proofs.Copies.Apart
import ClassModel.Proofs.Copies.Isolation
import ClassModel.Proofs.Matching.Pairs
import ClassModel.Proofs.Matching.Recording
import ClassModel.Proofs.Matching.Runs
import ClassModel.Proofs.Inheritance.Precedence
import ClassModel.Proofs.Copies.Hierarchy
import ClassModel.Proofs.Copies.Associations
import ClassModel.Proofs.Copies.TargetSchema
import ClassModel.Proofs.Inheritance.Reachability
import ClassModel.Proofs.Matching.Hierarchy
import ClassModel.Proofs.Decimal.Ordering
import ClassModel.Proofs.Matching.Merging
import ClassModel.Proofs.Matching.TakenOver
import ClassModel.Proofs.Features.TwoSteps
import ClassModel.Proofs.Naming.Symmetry
import ClassModel.Proofs.Matching.Coverage
import ClassModel.Proofs.Document.TypeTexts
import ClassModel.Proofs.Model.Partners
import ClassModel.Proofs.Copies.Keys
import ClassModel.Proofs.Inheritance.Chain
import ClassModel.Proofs.Inheritance.Ancestry
import ClassModel.Proofs.Model.References
import ClassModel.Proofs.Document.Accepted
import ClassModel.Proofs.Document.Descriptions
import ClassModel.Proofs.Document.Inverses
import ClassModel.Proofs.Matching.Itself
import ClassModel.Proofs.Model.Owners
import ClassModel.Proofs.Model.Signatures
import ClassModel.Proofs.Inheritance.Repeats
import ClassModel.Proofs.Inheritance.CycleReports
import ClassModel.Proofs.Features.Depth
import ClassModel.Proofs.Inheritance.Leaves
import ClassModel.Proofs.Inheritance.Redeclarations
import ClassModel.Proofs.Matching.Namesakes
import ClassModel.Proofs.Matching.OpenTargets
import ClassModel.Proofs.Matching.Accounting
import ClassModel.Proofs.Stereotypes
import ClassModel.Proofs.Decimal.Exact
import ClassModel.Proofs.Fuzzy
import ClassModel.Proofs.Matching.SelfCoverage
import ClassModel.Proofs.Decimal.Signs
import ClassModel.Proofs.Naming.Ratings
import ClassModel.Proofs.Matching.Scores
import ClassModel.Proofs.Matching.Strongest
import ClassModel.Proofs.Text.Plural
import ClassModel.Proofs.Text.Words
import ClassModel.Proofs.Naming.Writings
