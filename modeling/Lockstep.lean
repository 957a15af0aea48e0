import Lockstep.Alignment
import Lockstep.Candidate.Builder
import Lockstep.Candidate.Graph
import Lockstep.Catalog
import Lockstep.Command.Execution
import Lockstep.Command.Line
import Lockstep.Conflict
import Lockstep.Constraint
import Lockstep.Coordinates
import Lockstep.Data.Decoder
import Lockstep.Data.Json
import Lockstep.Data.Numeral
import Lockstep.Data.Schema
import Lockstep.Data.Value
import Lockstep.Decimal.Shortest
import Lockstep.Dependency
import Lockstep.Documents
import Lockstep.Fault
import Lockstep.Main
import Lockstep.Metadata.Cache
import Lockstep.Metadata.Provider
import Lockstep.Platform
import Lockstep.Proofs.Absence
import Lockstep.Proofs.Admitting
import Lockstep.Proofs.Aligning
import Lockstep.Proofs.Arena
import Lockstep.Proofs.Arrivals
import Lockstep.Proofs.Assembly
import Lockstep.Proofs.Barring
import Lockstep.Proofs.Bounding
import Lockstep.Proofs.Building
import Lockstep.Proofs.Caching
import Lockstep.Proofs.Casing
import Lockstep.Proofs.Choosing
import Lockstep.Proofs.Conflicts
import Lockstep.Proofs.Consistency
import Lockstep.Proofs.Convergence
import Lockstep.Proofs.Counting
import Lockstep.Proofs.Coverage
import Lockstep.Proofs.Ending
import Lockstep.Proofs.Executions
import Lockstep.Proofs.Finding
import Lockstep.Proofs.Fixpoint
import Lockstep.Proofs.Flights
import Lockstep.Proofs.Forcing
import Lockstep.Proofs.Gathering
import Lockstep.Proofs.Grounding
import Lockstep.Proofs.History
import Lockstep.Proofs.Honouring
import Lockstep.Proofs.Levels
import Lockstep.Proofs.Listing
import Lockstep.Proofs.Live
import Lockstep.Proofs.Members
import Lockstep.Proofs.Noting
import Lockstep.Proofs.Numerals
import Lockstep.Proofs.Orders
import Lockstep.Proofs.Outages
import Lockstep.Proofs.Outcomes
import Lockstep.Proofs.Padding
import Lockstep.Proofs.Passes
import Lockstep.Proofs.Paths
import Lockstep.Proofs.Permutation
import Lockstep.Proofs.Phases
import Lockstep.Proofs.Pinning
import Lockstep.Proofs.Preorders
import Lockstep.Proofs.Printing
import Lockstep.Proofs.Provision
import Lockstep.Proofs.Ranges
import Lockstep.Proofs.Recalling
import Lockstep.Proofs.Region
import Lockstep.Proofs.Remembering
import Lockstep.Proofs.Rerun
import Lockstep.Proofs.Routes
import Lockstep.Proofs.Scope
import Lockstep.Proofs.Segments
import Lockstep.Proofs.Settled
import Lockstep.Proofs.Shuffle
import Lockstep.Proofs.Sorted
import Lockstep.Proofs.Spelling
import Lockstep.Proofs.Store
import Lockstep.Proofs.Supply
import Lockstep.Proofs.Twins
import Lockstep.Proofs.Walk
import Lockstep.Report.Json
import Lockstep.Report.Render
import Lockstep.Request
import Lockstep.Requirement
import Lockstep.Resolved.Graph
import Lockstep.Resolved.Path
import Lockstep.Resolved.Tree
import Lockstep.Run
import Lockstep.Selection.Choice
import Lockstep.Selection.Demand
import Lockstep.Selection.Demands
import Lockstep.Selection.Error
import Lockstep.Selection.Live
import Lockstep.Selection.Reason
import Lockstep.Selection.Resolution
import Lockstep.Settings
import Lockstep.Sorted.List
import Lockstep.Sorted.Map
import Lockstep.Sorted.Set
import Lockstep.Text.Split
import Lockstep.Text.CaseTable
import Lockstep.Text.Reader
import Lockstep.Text.Lowercase
import Lockstep.Text.Quoted
import Lockstep.Toml.Document
import Lockstep.Toml.Scalar
import Lockstep.Toml.Table
import Lockstep.Toml.Text
import Lockstep.Toml.Value
import Lockstep.Version.Order
import Lockstep.Version.Scheme
import Lockstep.Version.Segments
import Lockstep.Version.Semantic
