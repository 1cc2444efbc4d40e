import BehaviorTree.Graph.Basic

/-! What a compilation has to say about its graphs. Errors forbid the program to be run; warnings
do not. -/

namespace BehaviorTree

/-- A node of a graph, by name and label. -/
structure Location where
  graph : String
  node : String
  deriving DecidableEq, Repr

def Location.text (location : Location) : String :=
  s!"{location.graph}/{location.node}"

def Graph.location (graph : Graph) (node : Nat) : Location :=
  ⟨graph.name, (graph.node node).label⟩

inductive CompileError where
  | missingRoot (graph : String)
  | duplicateRoot (site : Location)
  | rootAsChild (site : Location)
  | ambiguousConnection (site : Location) (port : String)
  | missingInput (site : Location) (port : String)
  | unresolvedPort (site : Location) (port : String)
  /-- A called graph has no node of the kind through which it is entered. -/
  | missingBoundary (site : Location) (kind : String)
  | unknownComponent (site : Location) (component : String)
  | unknownField (site : Location) (component field : String)
  | unknownVariable (site : Location) (name : String)
  | typeMismatch (site : Location) (expected found : ValueType)
  | invalidParallelBranch (site : Location)
  | misplacedThreadRoot (site : Location)
  /-- Control comes to a node that is not run, or a value is taken from one that gives none. -/
  | wrongCategory (site : Location) (port : String)
  | expressionCycle (site : Location)
  | lookupConflict (site : Location) (lookup : UInt16) (expected found : String)
  | tooManyChildren (site : Location) (count max : Nat)
  deriving DecidableEq, Repr

namespace CompileError

def name : CompileError → String
  | missingRoot _ => "MissingRoot"
  | duplicateRoot _ => "DuplicateRoot"
  | rootAsChild _ => "RootAsChild"
  | ambiguousConnection _ _ => "AmbiguousConnection"
  | missingInput _ _ => "MissingInput"
  | unresolvedPort _ _ => "UnresolvedSubgraphPort"
  | missingBoundary _ _ => "MissingSubgraphNode"
  | unknownComponent _ _ => "UnknownComponent"
  | unknownField _ _ _ => "UnknownField"
  | unknownVariable _ _ => "UnknownVariable"
  | typeMismatch _ _ _ => "TypeMismatch"
  | invalidParallelBranch _ => "InvalidParallelBranch"
  | misplacedThreadRoot _ => "MisplacedThreadRoot"
  | wrongCategory _ _ => "WrongCategory"
  | expressionCycle _ => "ExpressionCycle"
  | lookupConflict _ _ _ _ => "LookupConflict"
  | tooManyChildren _ _ _ => "TooManyChildren"

def message : CompileError → String
  | missingRoot graph => s!"graph `{graph}` has no root node"
  | duplicateRoot site => s!"{site.text}: second root node"
  | rootAsChild site => s!"{site.text}: a root cannot be the child of another node"
  | ambiguousConnection site port => s!"{site.text}: port `{port}` has more than one connection"
  | missingInput site port => s!"{site.text}: input `{port}` is not connected and has no value"
  | unresolvedPort site port => s!"{site.text}: sub-graph has no port `{port}`"
  | missingBoundary site kind => s!"{site.text}: invoked graph has no {kind} node"
  | unknownComponent site component => s!"{site.text}: unknown component `{component}`"
  | unknownField site component field =>
    s!"{site.text}: component `{component}` has no field `{field}`"
  | unknownVariable site name => s!"{site.text}: unknown variable `{name}`"
  | typeMismatch site expected found =>
    s!"{site.text}: expected {expected.name}, found {found.name}"
  | invalidParallelBranch site => s!"{site.text}: parallel branch must start with a thread root"
  | misplacedThreadRoot site => s!"{site.text}: thread roots may only start a parallel branch"
  | wrongCategory site port => s!"{site.text}: `{port}` connects nodes of the wrong category"
  | expressionCycle site => s!"{site.text}: expression depends on itself"
  | lookupConflict site lookup expected found =>
    s!"{site.text}: lookup {lookup} is read as `{found}`, elsewhere as `{expected}`"
  | tooManyChildren site count max => s!"{site.text}: {count} children, at most {max} are supported"

end CompileError

inductive CompileWarning where
  | unwiredEntry (site : Location) (port : String)
  | unwiredOutput (site : Location) (port : String)
  | unreachable (site : Location)
  deriving DecidableEq, Repr

namespace CompileWarning

def name : CompileWarning → String
  | unwiredEntry _ _ => "UnwiredSubgraphEntry"
  | unwiredOutput _ _ => "UnwiredSubgraphOutput"
  | unreachable _ => "Unreachable"

def message : CompileWarning → String
  | unwiredEntry site port => s!"{site.text}: entry `{port}` is not wired inside the sub-graph"
  | unwiredOutput site port => s!"{site.text}: output `{port}` is not wired inside the sub-graph"
  | unreachable site => s!"{site.text}: node is never reached"

end CompileWarning

end BehaviorTree
