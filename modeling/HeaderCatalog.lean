import HeaderCatalog.Handle.Build
import HeaderCatalog.Main
import HeaderCatalog.Settings.Json
import HeaderCatalog.Proofs.Naming
import HeaderCatalog.Proofs.Naming.Arguments
import HeaderCatalog.Proofs.Naming.LeadingWords
import HeaderCatalog.Proofs.Path.Bundles
import HeaderCatalog.Proofs.Registry.History
import HeaderCatalog.Proofs.Describe.Heading
import HeaderCatalog.Proofs.Encoding.Grammar
import HeaderCatalog.Proofs.Encoding.Tokens
import HeaderCatalog.Proofs.Encoding.Erased
import HeaderCatalog.Proofs.Encoding.ErasedValues
import HeaderCatalog.Proofs.Encoding.Neighbours
import HeaderCatalog.Proofs.Encoding.Losses
import HeaderCatalog.Proofs.Encoding.Positions
import HeaderCatalog.Proofs.Resolution.Resolver
import HeaderCatalog.Proofs.Resolution.Outline
import HeaderCatalog.Proofs.Resolution.Parts
import HeaderCatalog.Proofs.Resolution.Guard
import HeaderCatalog.Proofs.Resolution.RecordNames
import HeaderCatalog.Proofs.Resolution.Sugar
import HeaderCatalog.Proofs.Resolution.Place
import HeaderCatalog.Proofs.Resolution.Leaves
import HeaderCatalog.Proofs.Resolution.SingleValue
import HeaderCatalog.Proofs.Resolution.Signature
import HeaderCatalog.Proofs.Resolution.Elaborated
import HeaderCatalog.Proofs.Resolution.Depth
import HeaderCatalog.Proofs.Resolution.Relearned
import HeaderCatalog.Proofs.Session.Frame
import HeaderCatalog.Proofs.Session.Places
import HeaderCatalog.Proofs.Survey.Contributed
import HeaderCatalog.Proofs.Survey.Names
import HeaderCatalog.Proofs.Survey.Synonyms
import HeaderCatalog.Proofs.Survey.Wrappers
import HeaderCatalog.Proofs.Survey.Waiting
import HeaderCatalog.Proofs.Survey.DeclaredRecords
import HeaderCatalog.Proofs.Survey.LeftOut
import HeaderCatalog.Proofs.Survey.Collections
import HeaderCatalog.Proofs.Survey.Restriction
import HeaderCatalog.Proofs.Describe.Members
import HeaderCatalog.Proofs.Survey.Complete
import HeaderCatalog.Proofs.Resolution.Trail
import HeaderCatalog.Proofs.Survey.Dependencies
import HeaderCatalog.Proofs.Survey.Swapped
import HeaderCatalog.Proofs.Survey.Repeated
import HeaderCatalog.Proofs.Survey.Unnamed
import HeaderCatalog.Proofs.Describe.Category
import HeaderCatalog.Proofs.Describe.Constants
import HeaderCatalog.Proofs.Describe.Parameters
import HeaderCatalog.Proofs.Registry.Extensions
import HeaderCatalog.Proofs.Survey.Extensions
import HeaderCatalog.Proofs.Handle.Json
import HeaderCatalog.Proofs.Node.Json
