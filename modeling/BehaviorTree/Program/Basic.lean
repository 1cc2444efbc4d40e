import BehaviorTree.Hash.Xxh128
import BehaviorTree.Program.Node

/-! Behavior programs. Every cross reference is an index, so that a program can be shared by any
number of agents and written out as it is. -/

namespace BehaviorTree

/-- A component type that a program touches, at the index by which the program refers to it. -/
structure ComponentType where
  name : String
  id : UInt64
  size : UInt16
  deriving DecidableEq, Repr, Inhabited

/-- Identifies where a node came from. -/
abbrev DebugId := Xxh128.Digest

/-- Identifies one place at which a sub-graph is invoked. -/
abbrev InstanceId := UInt64

/-- A node, and the chain of sub-graph invocations that produced it, outermost first. -/
structure Entry where
  node : Node
  debugId : DebugId
  path : List InstanceId
  deriving DecidableEq, Repr, Inhabited

/-- A node of unknown origin. -/
def Entry.ofNode (node : Node) : Entry :=
  ⟨node, ⟨0, 0⟩, []⟩

structure Program where
  expressions : Expressions
  entries : Array Entry
  types : Array ComponentType
  /-- The component type behind each lookup; an index that is never read has none. -/
  lookups : Array (Option ComponentType)
  /-- The least number of bytes of the blackboard. -/
  blackboardSize : UInt32
  deriving DecidableEq, Repr, Inhabited

namespace Program

/-- The first byte after a variable, which has to be a number of 32 bits. -/
def slotEnd (slot : VarSlot) : Except Fault Nat :=
  let last := slot.offset.toNat + slot.length
  if last < 0x100000000 then .ok last else .error .overflow

/-- The variables that a program reads or writes. -/
def slots (entries : List Entry) (expressions : Expressions) : List VarSlot :=
  entries.filterMap (·.node.slot?) ++
    expressions.operations.toList.filterMap fun
      | .readVar slot => some slot
      | _ => none

/-- A program of nodes of unknown origin and without lookups. The blackboard is just large enough
for every variable in use. -/
def ofNodes (nodes : List Node) (expressions : Expressions) (types : Array ComponentType) :
    Except Fault Program := do
  let entries := nodes.map Entry.ofNode
  let ends ← (slots entries expressions).mapM slotEnd
  return ⟨expressions, entries.toArray, types, #[], UInt32.ofNat (ends.foldl max 0)⟩

def size (p : Program) : Nat :=
  p.entries.size

def node? (p : Program) (id : NodeId) : Option Node :=
  p.entries[id.toNat]?.map (·.node)

/-- The first node of the given origin. -/
def find? (p : Program) (debugId : DebugId) : Option NodeId :=
  (p.entries.findIdx? (·.debugId = debugId)).map fun index => ⟨UInt16.ofNat index⟩

end Program

end BehaviorTree
