import FlatBundle.Main
import FlatBundle.Symbol.Numbering
import FlatBundle.Proofs.Symbol.Links
import FlatBundle.Proofs.Symbol.Search
import FlatBundle.Proofs.Symbol.Walks
import FlatBundle.Proofs.Symbol.Identity
import FlatBundle.Proofs.Export.Resolution
import FlatBundle.Proofs.Value.Handles
import FlatBundle.Proofs.Value.Rewrite
import FlatBundle.Proofs.Value.FinalNames
import FlatBundle.Proofs.Conversion.Settled
import FlatBundle.Proofs.Conversion.Replacement
import FlatBundle.Proofs.Conversion.Rewriting
import FlatBundle.Proofs.Conversion.Depth
import FlatBundle.Proofs.Conversion.Symbols
import FlatBundle.Proofs.Conversion.Root
import FlatBundle.Proofs.Naming.PrivateNames
import FlatBundle.Proofs.Naming.Tables
import FlatBundle.Proofs.Naming.FinalNames
import FlatBundle.Proofs.Naming.Enumeration
import FlatBundle.Proofs.Naming.Allocation
import FlatBundle.Proofs.Bundling.Layout
import FlatBundle.Proofs.Bundling.Totality
import FlatBundle.Proofs.Bundling.Contents
import FlatBundle.Proofs.Bundling.Hoisting
import FlatBundle.Proofs.Export.Origins
import FlatBundle.Proofs.Export.Tracing
import FlatBundle.Proofs.Bundling.References
import FlatBundle.Proofs.Export.Claims
import FlatBundle.Proofs.Export.Listing
import FlatBundle.Proofs.Bundling.Names
import FlatBundle.Proofs.Bundling.Exports
import FlatBundle.Proofs.Bundling.Circles
import FlatBundle.Proofs.Symbol.Accrual
import FlatBundle.Proofs.Symbol.Chains
import FlatBundle.Proofs.Run.Congruence
import FlatBundle.Proofs.Run.History
import FlatBundle.Proofs.Run.Order
import FlatBundle.Proofs.Run.Turns
import FlatBundle.Proofs.Export.Walk
import FlatBundle.Proofs.Export.Visits
import FlatBundle.Proofs.Export.Nesting
import FlatBundle.Proofs.Conversion.Walk
import FlatBundle.Proofs.Conversion.History
import FlatBundle.Proofs.Conversion.Nesting
import FlatBundle.Proofs.Bundling.History
import FlatBundle.Proofs.Bundling.Identities
import FlatBundle.Proofs.Bundling.Ledger
import FlatBundle.Proofs.Bundling.Termination
import FlatBundle.Proofs.Value.Equality
import FlatBundle.Proofs.Value.Parts
import FlatBundle.Proofs.Bundling.Ambient
import FlatBundle.Proofs.Bundling.Exploration
import FlatBundle.Proofs.Run.Identifiers
import FlatBundle.Proofs.Bundling.Identifiers
import FlatBundle.Proofs.Symbol.Consistency
import FlatBundle.Proofs.Symbol.Recording
import FlatBundle.Proofs.Symbol.Families
import FlatBundle.Proofs.Export.Documented
import FlatBundle.Proofs.Export.Declared
import FlatBundle.Proofs.Bundling.Consistency
import FlatBundle.Proofs.Value.Children
import FlatBundle.Proofs.Value.Staying
import FlatBundle.Proofs.Bundling.Alone
import FlatBundle.Proofs.Value.Fading
import FlatBundle.Proofs.Value.Written
import FlatBundle.Proofs.Value.Rereading
import FlatBundle.Proofs.Bundling.Rereading
import FlatBundle.Proofs.Directories
import FlatBundle.Proofs.Evaluation
import FlatBundle.Proofs.ByteOrder
import FlatBundle.Proofs.Run.Mirror
import FlatBundle.Proofs.Bundling.Relocation
import FlatBundle.Proofs.Index.Placement
import FlatBundle.Proofs.Index.Specifiers
import FlatBundle.Proofs.Index.Outputs
import FlatBundle.Proofs.Index.Source
import FlatBundle.Proofs.Value.Places
import FlatBundle.Proofs.Bundling.Parameters
import FlatBundle.Proofs.Bundling.Families
import FlatBundle.Proofs.Value.Filling
import FlatBundle.Proofs.Value.Settling
import FlatBundle.Proofs.Bundling.Arguments
