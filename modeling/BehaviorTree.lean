import BehaviorTree.CommandLine
import BehaviorTree.Main
import BehaviorTree.Program.Decode
import BehaviorTree.Proofs.Binary.Canonical
import BehaviorTree.Proofs.Machine.Safety
import BehaviorTree.Proofs.Compile.Instancing
import BehaviorTree.Proofs.Machine.Kin
import BehaviorTree.Proofs.Machine.Roster
import BehaviorTree.Proofs.Machine.Moves
import BehaviorTree.Proofs.Machine.Runs
import BehaviorTree.Proofs.Machine.Threads
import BehaviorTree.Proofs.Machine.Parallel
import BehaviorTree.Proofs.Machine.Structured
import BehaviorTree.Proofs.Machine.QuerySlot
import BehaviorTree.Proofs.Compile.Meaning
import BehaviorTree.Proofs.Compile.Preservation
import BehaviorTree.Proofs.Compile.Totality
import BehaviorTree.Proofs.Compile.Running
import BehaviorTree.Proofs.Machine.Mailbox
import BehaviorTree.Proofs.Machine.Trades
import BehaviorTree.Proofs.Machine.Sharing
import BehaviorTree.Proofs.Machine.Semantics
import BehaviorTree.Proofs.Machine.Deeds
import BehaviorTree.Proofs.Machine.Activation
import BehaviorTree.Proofs.Machine.Counting
import BehaviorTree.Proofs.Machine.Workload
import BehaviorTree.Proofs.Machine.Progress
import BehaviorTree.Proofs.Machine.Yielding
import BehaviorTree.Proofs.Machine.Stacks
import BehaviorTree.Proofs.Machine.Isolation
import BehaviorTree.Proofs.Memory.Apart
import BehaviorTree.Proofs.Compile.Isolation
import BehaviorTree.Proofs.Compile.Recompilation
import BehaviorTree.Proofs.Compile.Unreached
import BehaviorTree.Proofs.Binary.Limits
import BehaviorTree.Proofs.Machine.Chains
import BehaviorTree.Proofs.Machine.Descent
import BehaviorTree.Proofs.Machine.Failure
import BehaviorTree.Proofs.Compile.Naming
import BehaviorTree.Proofs.Machine.Partition
import BehaviorTree.Proofs.Machine.Subtree
import BehaviorTree.Proofs.Machine.Landmarks
import BehaviorTree.Proofs.Machine.LaneOrder
import BehaviorTree.Proofs.Machine.Marks
import BehaviorTree.Proofs.Machine.Turns
import BehaviorTree.Proofs.Machine.Restarts
import BehaviorTree.Proofs.Binary.Exact
import BehaviorTree.Proofs.Machine.Depth
import BehaviorTree.Proofs.Compile.Errors
import BehaviorTree.Proofs.Compile.Dependence
import BehaviorTree.Proofs.Compile.Cycles
import BehaviorTree.Proofs.Compile.Operands
import BehaviorTree.Proofs.Memory.Layout
import BehaviorTree.Proofs.Memory.Variables
import BehaviorTree.Proofs.Script.WellFormed
import BehaviorTree.Proofs.Machine.Waits
import BehaviorTree.Proofs.Machine.Lifecycle
import BehaviorTree.Proofs.Compile.Interning
import BehaviorTree.Proofs.Compile.Reporting
