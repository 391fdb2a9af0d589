import FlowGraph.Main
import FlowGraph.Scripted
import FlowGraph.Proofs.Dict
import FlowGraph.Proofs.Except
import FlowGraph.Proofs.Schema
import FlowGraph.Proofs.Normalization
import FlowGraph.Proofs.Versions
import FlowGraph.Proofs.Migrate
import FlowGraph.Proofs.Graph.DepthFirst
import FlowGraph.Proofs.Graph.TwoPasses
import FlowGraph.Proofs.Graph.StackWalk
import FlowGraph.Proofs.Graph.Preorder
import FlowGraph.Proofs.Graph.Reach
import FlowGraph.Proofs.Plan.Accepted
import FlowGraph.Proofs.Plan.Loops
import FlowGraph.Proofs.Plan.Orders
import FlowGraph.Proofs.Plan.Regions
import FlowGraph.Proofs.Plan.RegionCycles
import FlowGraph.Proofs.Plan.Lawful
import FlowGraph.Proofs.Plan.RegionOrder
import FlowGraph.Proofs.Plan.RegionArcs
import FlowGraph.Proofs.Plan.Scopes
import FlowGraph.Proofs.Plan.Acyclic
import FlowGraph.Proofs.Plan.Membership
import FlowGraph.Proofs.Plan.Excerpt
import FlowGraph.Proofs.Plan.Replanning
import FlowGraph.Proofs.Plan.Reordering
import FlowGraph.Proofs.Plan.Pruning
import FlowGraph.Proofs.Plan.Wiring
import FlowGraph.Proofs.Plan.Bindings
import FlowGraph.Proofs.Run.Machine
import FlowGraph.Proofs.Run.Journal
import FlowGraph.Proofs.Run.Iteration
import FlowGraph.Proofs.Run.Standing
import FlowGraph.Proofs.Run.Kept
import FlowGraph.Proofs.Run.Simulation
import FlowGraph.Proofs.Run.Written
import FlowGraph.Proofs.Run.Determined
import FlowGraph.Proofs.Run.Visits
import FlowGraph.Proofs.Run.Frames
import FlowGraph.Proofs.Run.DataFlow
import FlowGraph.Proofs.Run.Turns
import FlowGraph.Proofs.Run.Skips
import FlowGraph.Proofs.Run.Activation
import FlowGraph.Proofs.Run.Completeness
import FlowGraph.Proofs.Run.Ledger
import FlowGraph.Proofs.Run.Agreement
import FlowGraph.Proofs.Run.Indices
import FlowGraph.Proofs.Node.Conformity
import FlowGraph.Proofs.Run.Results
import FlowGraph.Proofs.Run.Ending
import FlowGraph.Proofs.Run.Pruning
import FlowGraph.Proofs.Run.Limits
import FlowGraph.Proofs.Run.Firing
import FlowGraph.Proofs.Run.Tellings
import FlowGraph.Proofs.Run.Twins
import FlowGraph.Proofs.Run.Interchange
import FlowGraph.Proofs.Run.Retelling
import FlowGraph.Proofs.Run.Supply
import FlowGraph.Proofs.Run.Fitting
import FlowGraph.Proofs.Run.Faults
import FlowGraph.Proofs.Standard.Conditions
import FlowGraph.Proofs.Standard.Editing
import FlowGraph.Proofs.Standard.Conformity
import FlowGraph.Proofs.Standard.Migration
import FlowGraph.Proofs.Standard.Creation
import FlowGraph.Proofs.Standard.Safety
import FlowGraph.Proofs.Standard.Reordering
import FlowGraph.Proofs.Standard.Typing
import FlowGraph.Proofs.Run.LoopVisits
import FlowGraph.Proofs.Run.Passed
import FlowGraph.Proofs.Run.Signals
import FlowGraph.Proofs.Run.Collected
import FlowGraph.Proofs.Standard.FirstMatch
import FlowGraph.Proofs.Run.Store
import FlowGraph.Proofs.Standard.Variables
import FlowGraph.Proofs.Standard.Storing
import FlowGraph.Proofs.Run.Delivery
import FlowGraph.Proofs.Run.Origins
import FlowGraph.Proofs.Run.Receiving
import FlowGraph.Proofs.Run.Termination
import FlowGraph.Proofs.Run.Tally
import FlowGraph.Proofs.Decimal.Packing
import FlowGraph.Proofs.Decimal.Nearest
import FlowGraph.Proofs.Json.Numbers
import FlowGraph.Proofs.Json.Printed
import FlowGraph.Proofs.FlowText
import FlowGraph.Proofs.Json.Forms
import FlowGraph.Proofs.Conversion
