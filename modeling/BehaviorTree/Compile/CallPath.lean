import BehaviorTree.Graph.Basic
import BehaviorTree.Program.Basic

/-! Call paths: the chains of call nodes that lead from the entry graph to a graph. A node that is
reached along two paths is two instances. -/

namespace BehaviorTree

/-- A call node of the enclosing graph, the graph that it calls, and the hash of the path so far. -/
structure Call where
  via : Nat
  graph : GraphId
  hash : UInt64
  deriving DecidableEq, Repr

/-- The calls that lead to a graph, innermost first. -/
structure CallPath where
  entry : GraphId
  calls : List Call
  deriving DecidableEq, Repr

/-- A node on a path. -/
structure Instance where
  path : CallPath
  node : Nat
  deriving DecidableEq, Repr

/-- Stands for an instance; the path is represented by its hash. -/
structure InstanceKey where
  path : UInt64
  graph : GraphId
  node : Nat
  deriving DecidableEq, Repr, Hashable

namespace CallPath

def start (entry : GraphId) : CallPath :=
  ⟨entry, []⟩

/-- The graph to which the path leads. -/
def graph (path : CallPath) : GraphId :=
  match path.calls with
  | [] => path.entry
  | call :: _ => call.graph

def hash (path : CallPath) : UInt64 :=
  match path.calls with
  | [] => 0
  | call :: _ => call.hash

/-- Extends the path by a call node of its graph. The hash of the path is the seed of the next one;
graphs count from one in it. -/
def enter (path : CallPath) (via : Nat) (callee : GraphId) : CallPath :=
  let hash := Xxh64.hash path.hash
    (Bytes.littleEndian 8 (path.graph + 1) ++ Bytes.littleEndian 8 via)
  ⟨path.entry, ⟨via, callee, hash⟩ :: path.calls⟩

/-- The enclosing path and the call node that led here. -/
def leave? (path : CallPath) : Option (CallPath × Nat) :=
  match path.calls with
  | [] => none
  | call :: outer => some (⟨path.entry, outer⟩, call.via)

/-- The call nodes of a path with their graphs, innermost first. -/
def sitesFrom (entry : GraphId) : List Call → List (GraphId × Nat)
  | [] => []
  | call :: outer => ((⟨entry, outer⟩ : CallPath).graph, call.via) :: sitesFrom entry outer

/-- Identifies a call node by the name of its graph. -/
def instanceId (graph : String) (node : Nat) : InstanceId :=
  Xxh64.hash 0 (Bytes.ofText graph ++ Bytes.littleEndian 4 node)

/-- The call nodes of a path, outermost first. -/
def instanceIds (library : Library) (path : CallPath) : List InstanceId :=
  (sitesFrom path.entry path.calls).reverse.map fun (graph, node) =>
    instanceId (library.graph graph).name node

end CallPath

namespace Instance

def key (i : Instance) : InstanceKey :=
  ⟨i.path.hash, i.path.graph, i.node⟩

def graph (library : Library) (i : Instance) : Graph :=
  library.graph i.path.graph

def graphNode (library : Library) (i : Instance) : GraphNode :=
  (i.graph library).node i.node

/-- Identifies an instance by its call nodes, the name of its graph and its place there. -/
def debugId (library : Library) (i : Instance) : DebugId :=
  Xxh128.hash ((i.path.instanceIds library).flatMap (fun id => Bytes.littleEndian 8 id.toNat) ++
    Bytes.ofText (i.graph library).name ++ Bytes.littleEndian 4 i.node)

end Instance

end BehaviorTree
