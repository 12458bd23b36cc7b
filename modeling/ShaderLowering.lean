import ShaderLowering.Source.Declaration
import ShaderLowering.Layout.Types
import ShaderLowering.Layout.Locations
import ShaderLowering.Spirv.Listing
import ShaderLowering.Finding
import ShaderLowering.Failure
import ShaderLowering.Semantic.Placement
import ShaderLowering.Emission.Types
import ShaderLowering.Session.EntryPoint
import ShaderLowering.Session.Aliases
import ShaderLowering.Proofs.Emission.Simulation
import ShaderLowering.Proofs.Spirv.Footprint
import ShaderLowering.Proofs.Layout.Members
import ShaderLowering.Proofs.Layout.Slots
import ShaderLowering.Proofs.Layout.Components
import ShaderLowering.Proofs.Emission.Memory
import ShaderLowering.Proofs.Distance.Packing
import ShaderLowering.Proofs.Emission.Variables
import ShaderLowering.Proofs.Distance.Arrays
import ShaderLowering.Proofs.Distance.Lengths
import ShaderLowering.Proofs.Interface.Flow
import ShaderLowering.Proofs.Interface.Creation
import ShaderLowering.Proofs.Interface.EntryPoint
import ShaderLowering.Proofs.Interface.Linkage
import ShaderLowering.Proofs.Interface.Listed
import ShaderLowering.Proofs.Interface.Coverage
import ShaderLowering.Proofs.Emission.History
import ShaderLowering.Proofs.Contract
import ShaderLowering.Proofs.Emission.Extension
import ShaderLowering.Proofs.Session.Invariant
import ShaderLowering.Proofs.Session.Interface
import ShaderLowering.Proofs.Session.Resources
import ShaderLowering.Proofs.Session.Decoration
import ShaderLowering.Proofs.Session.Reachable
import ShaderLowering.Proofs.Session.Bindings
import ShaderLowering.Proofs.Session.Locations
import ShaderLowering.Proofs.Session.Semantics
import ShaderLowering.Proofs.Session.Linkages
import ShaderLowering.Proofs.Session.Slots
import ShaderLowering.Proofs.Session.WellFormed
import ShaderLowering.Proofs.Session.Agreement
import ShaderLowering.Proofs.Session.Reordering
import ShaderLowering.Proofs.Emission.Totality
import ShaderLowering.Proofs.Emission.Pairing
import ShaderLowering.Proofs.Session.Operations
import ShaderLowering.Proofs.Interface.Renumbering
import ShaderLowering.Proofs.Session.InterfacePairing
import ShaderLowering.Proofs.Interface.Directions
import ShaderLowering.Proofs.Session.Interference
import ShaderLowering.Proofs.Counter.Assignments
import ShaderLowering.Proofs.Counter.Paths
import ShaderLowering.Proofs.Session.Counters
import ShaderLowering.Proofs.Session.Assignments
import ShaderLowering.Proofs.Spirv.MemberPaths
import ShaderLowering.Proofs.Session.AccessPaths
import ShaderLowering.Proofs.Counter.Reach
import ShaderLowering.Proofs.Session.CounterCoverage
import ShaderLowering.Proofs.Spirv.Nodes
import ShaderLowering.Proofs.Emission.Pointers
import ShaderLowering.Proofs.Session.Legalization
import ShaderLowering.Proofs.Ledger
import ShaderLowering.Proofs.Emission.Flaws
import ShaderLowering.Proofs.Emission.Reports
import ShaderLowering.Proofs.Session.Books
import ShaderLowering.Proofs.Session.InterfaceReports
import ShaderLowering.Proofs.Session.ResourceReports
import ShaderLowering.Proofs.Session.Verdicts
import ShaderLowering.Proofs.Spirv.Requirements
import ShaderLowering.Proofs.Emission.Evolution
import ShaderLowering.Proofs.Session.Steps
import ShaderLowering.Proofs.Session.ResourceSteps
import ShaderLowering.Proofs.Session.InterfaceSteps
import ShaderLowering.Proofs.Session.Growth
import ShaderLowering.Proofs.Session.Capabilities
import ShaderLowering.Proofs.Session.Discipline
import ShaderLowering.Proofs.Session.Atomicity
import ShaderLowering.Proofs.Interface.Leaves
import ShaderLowering.Proofs.Layout.Comparison
import ShaderLowering.Proofs.Session.Distances
import ShaderLowering.Proofs.Distance.Owners
import ShaderLowering.Proofs.Session.NarrowInterface
import ShaderLowering.Proofs.Session.Builtins
import ShaderLowering.Proofs.Layout.Overrides
import ShaderLowering.Proofs.Session.LowestBindings
import ShaderLowering.Proofs.Interface.Filling
import ShaderLowering.Proofs.Session.LowestLocations
import ShaderLowering.Proofs.Distance.Recording
import ShaderLowering.Proofs.Emission.Follows
import ShaderLowering.Proofs.Emission.Interchange
import ShaderLowering.Proofs.Emission.Hints
import ShaderLowering.Proofs.Emission.Locations
import ShaderLowering.Proofs.Emission.ElementStrides
import ShaderLowering.Proofs.Layout.Typedefs
import ShaderLowering.Proofs.Emission.Typedefs
import ShaderLowering.Proofs.Emission.SameShapes
import ShaderLowering.Proofs.Emission.TruthValues
import ShaderLowering.Proofs.Emission.Scalars
import ShaderLowering.Proofs.Session.Standing
import ShaderLowering.Proofs.Session.TruthInterface
import ShaderLowering.Proofs.Session.FlatInputs
import ShaderLowering.Proofs.Spelling
import ShaderLowering.Proofs.Interface.Inheritance
import ShaderLowering.Proofs.Emission.HeldResources
import ShaderLowering.Proofs.Session.BlockMembers
import ShaderLowering.Proofs.Emission.Texels
import ShaderLowering.Proofs.Index
import ShaderLowering.Proofs.Spirv.Insertions
import ShaderLowering.Proofs.Counter.Insertions
import ShaderLowering.Proofs.Interface.FirstFit
import ShaderLowering.Proofs.Session.LocationRoom
import ShaderLowering.Proofs.Session.Outcome
import ShaderLowering.Proofs.Session.MadeLeaves
import ShaderLowering.Proofs.Session.EntryOutcome
import ShaderLowering.Proofs.Session.Overflow
