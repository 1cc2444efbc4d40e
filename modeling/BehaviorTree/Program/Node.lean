import BehaviorTree.Expression.Basic
import BehaviorTree.Text

/-! Nodes: the instructions of a behavior program. A node only carries what is needed to resume
it; how far it got is the business of the frame that executes it. -/

namespace BehaviorTree

/-- The place of a node in its program. -/
structure NodeId where
  index : UInt16
  deriving DecidableEq, Repr, Inhabited, Hashable

namespace NodeId

/-- The terminal node, the first of every program. -/
def nop : NodeId := ⟨0⟩

/-- The entry of every program, its second node. -/
def root : NodeId := ⟨1⟩

def toNat (id : NodeId) : Nat :=
  id.index.toNat

def text (id : NodeId) : String :=
  "#" ++ Text.padLeft '0' 4 (toString id.toNat)

end NodeId

inductive NodeKind where
  | nop
  | root
  | sequence
  | selector
  | writeField
  | wait
  | fail
  | optional
  | catch
  | writeVar
  | query
  | parallel
  | threadRoot
  deriving DecidableEq, Repr, Inhabited

namespace NodeKind

def tag : NodeKind → UInt8
  | nop => 0
  | root => 1
  | sequence => 2
  | selector => 3
  | writeField => 4
  | wait => 5
  | fail => 6
  | optional => 7
  | .catch => 8
  | writeVar => 9
  | query => 10
  | parallel => 11
  | threadRoot => 12

def ofTag? : UInt8 → Option NodeKind
  | 0 => some nop
  | 1 => some root
  | 2 => some sequence
  | 3 => some selector
  | 4 => some writeField
  | 5 => some wait
  | 6 => some fail
  | 7 => some optional
  | 8 => some .catch
  | 9 => some writeVar
  | 10 => some query
  | 11 => some parallel
  | 12 => some threadRoot
  | _ => none

def name : NodeKind → String
  | nop => "Nop"
  | root => "Root"
  | sequence => "Sequence"
  | selector => "Selector"
  | writeField => "WriteField"
  | wait => "Wait"
  | fail => "Fail"
  | optional => "Optional"
  | .catch => "Catch"
  | writeVar => "WriteVar"
  | query => "Query"
  | parallel => "Parallel"
  | threadRoot => "ThreadRoot"

end NodeKind

/-- A guarded alternative of a selector. -/
structure Branch where
  guard : ValueRef
  child : NodeId
  deriving DecidableEq, Repr

/-- Copies a value into `length` bytes at `offset` of a component. -/
structure FieldWrite where
  offset : UInt16
  length : UInt16
  value : ValueRef
  deriving DecidableEq, Repr

/-- What a wait is for: a number of seconds from its own start, or a condition. -/
inductive WaitGoal where
  | duration (seconds : ValueRef)
  | condition (holds : ValueRef)
  deriving DecidableEq, Repr

inductive Node where
  | nop
  | root (child : NodeId)
  | sequence (children : Array NodeId)
  | selector (branches : List Branch)
  | writeField (component : UInt16) (fields : List FieldWrite)
  | wait (goal : WaitGoal)
  | fail
  | optional (guard : ValueRef) (child : NodeId)
  | catch (child : NodeId)
  | writeVar (slot : VarSlot) (value : ValueRef)
  | query (query : UInt16) (result : VarSlot)
  | parallel (main thread : NodeId)
  | threadRoot (child : NodeId) (looping : Bool)
  deriving DecidableEq, Repr, Inhabited

namespace Node

def kind : Node → NodeKind
  | nop => .nop
  | root _ => .root
  | sequence _ => .sequence
  | selector _ => .selector
  | writeField _ _ => .writeField
  | wait _ => .wait
  | fail => .fail
  | optional _ _ => .optional
  | .catch _ => .catch
  | writeVar _ _ => .writeVar
  | query _ _ => .query
  | parallel _ _ => .parallel
  | threadRoot _ _ => .threadRoot

/-- Every node that this node refers to, in declaration order. -/
def children : Node → List NodeId
  | root child | optional _ child | .catch child | threadRoot child _ => [child]
  | sequence children => children.toList
  | selector branches => branches.map (·.child)
  | parallel main thread => [main, thread]
  | nop | writeField _ _ | wait _ | fail | writeVar _ _ | query _ _ => []

/-- Every value that this node evaluates. -/
def values : Node → List ValueRef
  | selector branches => branches.map (·.guard)
  | writeField _ fields => fields.map (·.value)
  | wait (.duration value) | wait (.condition value) => [value]
  | optional guard _ => [guard]
  | writeVar _ value => [value]
  | nop | root _ | sequence _ | fail | .catch _ | query _ _ | parallel _ _ | threadRoot _ _ => []

/-- The variable that this node writes. -/
def slot? : Node → Option VarSlot
  | writeVar slot _ | query _ slot => some slot
  | _ => none

end Node

end BehaviorTree
