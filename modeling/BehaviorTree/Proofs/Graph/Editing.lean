import BehaviorTree.Proofs.Graph.Formed

/-! Building a graph by one edit after the other. Edits change the graph in place, but not before everything is checked,
so that one that is refused leaves the graph as it was. Whatever the edits are, the graph is well-formed: links join
facing ports of one kind, inline values stand at incoming ports of their type, and calls have the ports of the graph
that they call. -/

namespace BehaviorTree

open Refusal

/-- Only incoming ports have inline values. -/
def GraphNode.Supplied (node : GraphNode) : Prop :=
  ∀ port ∈ node.ports, port.inline.isSome → port.direction = .incoming

namespace Graph

/-! ### Changes in place -/

/-- Changes of a graph in place. What is changed before a refusal stays changed. -/
abbrev InPlace := ExceptT GraphError (StateM Graph)

namespace InPlace

/-- Whether a change was refused, and the graph that it left. -/
def run (change : InPlace Unit) (graph : Graph) : Except GraphError Unit × Graph :=
  StateT.run (ExceptT.run change) graph

def resolvePort (index : Nat) (name : String) (direction : Direction) : InPlace (PortRef × PortKind) :=
  ExceptT.mk do return (← get).resolvePort index name direction

def connect (source target : Nat × String) : InPlace Unit := do
  let (sourceRef, sourceKind) ← resolvePort source.1 source.2 .outgoing
  let (targetRef, targetKind) ← resolvePort target.1 target.2 .incoming
  if sourceKind = targetKind then
    modify fun graph => { graph with links := graph.links.push ⟨sourceRef, targetRef⟩ }
  else throw (.kindMismatch sourceKind targetKind)

def setInline (index : Nat) (name : String) (value : Constant) : InPlace Unit := do
  let (ref, kind) ← resolvePort index name .incoming
  if kind = .value value.type then
    modify fun graph => { graph with nodes := graph.nodes.modify ref.node fun node =>
      { node with ports := node.ports.modify ref.port ({ · with inline := some value }) } }
  else throw (.inlineMismatch ((← get).node index).label name kind)

end InPlace

/-- What a change in place comes to if it does nothing before all checks are done. -/
def settle (graph : Graph) : Except GraphError Graph → Except GraphError Unit × Graph
  | .ok graph' => (.ok (), graph')
  | .error e => (.error e, graph)

variable {library : Library} {graph graph' : Graph}

/-- To look for a port changes nothing. -/
theorem run_resolvePort_bind (graph : Graph) (index : Nat) (name : String) (direction : Direction)
    (next : PortRef × PortKind → InPlace Unit) :
    (InPlace.resolvePort index name direction >>= next).run graph =
      match graph.resolvePort index name direction with
      | .ok found => (next found).run graph
      | .error e => (.error e, graph) := by
  change ExceptT.bindCont next (graph.resolvePort index name direction) graph = _
  cases graph.resolvePort index name direction with
  | ok found => rfl
  | error e => rfl

theorem run_connect (graph : Graph) (source target : Nat × String) :
    (InPlace.connect source target).run graph = graph.settle (graph.connect source target) := by
  rw [InPlace.connect, run_resolvePort_bind, connect]
  cases graph.resolvePort source.1 source.2 .outgoing with
  | error e => rfl
  | ok sourceEnd =>
    dsimp only
    rw [run_resolvePort_bind]
    cases graph.resolvePort target.1 target.2 .incoming with
    | error e => rfl
    | ok targetEnd =>
      change _ = graph.settle (if sourceEnd.2 = targetEnd.2 then _ else _)
      dsimp only
      split_ifs <;> rfl

theorem run_setInline (graph : Graph) (index : Nat) (name : String) (value : Constant) :
    (InPlace.setInline index name value).run graph = graph.settle (graph.setInline index name value) := by
  rw [InPlace.setInline, run_resolvePort_bind, setInline]
  cases graph.resolvePort index name .incoming with
  | error e => rfl
  | ok found =>
    change _ = graph.settle (if found.2 = .value value.type then _ else _)
    dsimp only
    split_ifs <;> rfl

/-! ### Edits -/

/-- What changes a graph while it is built. -/
inductive Edit where
  | add (spec : NodeSpec)
  | setLabel (index : Nat) (label : String)
  | connect (source target : Nat × String)
  | setInline (index : Nat) (port : String) (value : Constant)

namespace Edit

def change : Edit → InPlace Unit
  | add spec => modify fun graph => (graph.add spec).1
  | setLabel index label => modify (·.setLabel index label)
  | connect source target => InPlace.connect source target
  | setInline index port value => InPlace.setInline index port value

/-- The graph with the edit, unless it is refused. -/
def result (graph : Graph) : Edit → Except GraphError Graph
  | add spec => .ok (graph.add spec).1
  | setLabel index label => .ok (graph.setLabel index label)
  | connect source target => graph.connect source target
  | setInline index port value => graph.setInline index port value

/-- The edit adds a node that calls a graph of the library, or one that calls none. -/
def Known (library : Library) : Edit → Prop
  | add spec => spec.Known library
  | _ => True

theorem run_change (edit : Edit) (graph : Graph) : edit.change.run graph = graph.settle (edit.result graph) := by
  cases edit with
  | add | setLabel => rfl
  | connect source target => exact run_connect graph source target
  | setInline index port value => exact run_setInline graph index port value

/-- An edit that is refused changes nothing. -/
theorem run_of_refused {edit : Edit} {e : GraphError} (h : edit.change.run graph = (.error e, graph')) :
    graph' = graph := by
  rw [run_change] at h
  cases hresult : edit.result graph with
  | ok => simp [hresult, settle] at h
  | error =>
    rw [hresult] at h
    exact (Prod.mk.inj h).2.symm

end Edit

/-- The graph after all edits, those that are refused included. -/
def edited (graph : Graph) (edits : List Edit) : Graph :=
  edits.foldl (fun graph edit => (edit.change.run graph).2) graph

/-- An edit that is refused might as well be left out. -/
theorem edited_of_refused {before : List Edit} {edit : Edit} {e : GraphError}
    (h : (edit.change.run (graph.edited before)).1 = .error e) (after : List Edit) :
    graph.edited (before ++ edit :: after) = graph.edited (before ++ after) := by
  have hsame : (edit.change.run (graph.edited before)).2 = graph.edited before :=
    Edit.run_of_refused (Prod.ext h rfl)
  simp only [edited, List.foldl_append, List.foldl_cons] at hsame ⊢
  rw [hsame]

theorem Built.result (built : graph.Built library) {edit : Edit} (known : edit.Known library)
    (h : edit.result graph = .ok graph') : graph'.Built library := by
  cases edit with
  | add spec => exact Except.ok.inj h ▸ built.add known
  | setLabel index label => exact Except.ok.inj h ▸ built.setLabel index label
  | connect source target => exact built.connect h
  | setInline index port value => exact built.setInline h

theorem Built.change (built : graph.Built library) {edit : Edit} (known : edit.Known library) :
    (edit.change.run graph).2.Built library := by
  rw [edit.run_change]
  cases hresult : edit.result graph with
  | ok graph' => exact built.result known hresult
  | error e => exact built

theorem Built.edited (built : graph.Built library) {edits : List Edit} (known : ∀ edit ∈ edits, edit.Known library) :
    (graph.edited edits).Built library :=
  built.foldl fun edit hedit _ built => built.change (known edit hedit)

/-! ### Inline values -/

/-- What an accepted inline value changes: an incoming port of its type has it from now on. -/
theorem eq_of_setInline {index : Nat} {name : String} {value : Constant}
    (h : graph.setInline index name value = .ok graph') : ∃ ref : PortRef,
      graph.HasPort ref .incoming (.value value.type) ∧ graph' = { graph with
        nodes := graph.nodes.modify ref.node fun node =>
          { node with ports := node.ports.modify ref.port ({ · with inline := some value }) } } := by
  obtain ⟨⟨ref, kind⟩, hport, h⟩ := bind_eq_ok_iff.mp h
  dsimp only at h
  split_ifs at h with hkind
  exact ⟨ref, hkind ▸ hasPort_of_resolvePort hport, (Except.ok.inj h).symm⟩

/-- All inline values stand at incoming ports. -/
def Supplied (graph : Graph) : Prop :=
  ∀ node ∈ graph.nodes, node.Supplied

theorem Supplied.modify (supplied : graph.Supplied) {index : Nat} {f : GraphNode → GraphNode}
    (hf : ∀ node, graph.nodes[index]? = some node → (f node).Supplied) :
    Supplied { graph with nodes := graph.nodes.modify index f } := by
  intro node hnode
  obtain hold | ⟨old, hold, rfl⟩ := mem_or_eq_of_mem_modify hnode
  · exact supplied node hold
  · exact hf old hold

/-- Inline values come to incoming ports only. -/
theorem Built.supplied (built : graph.Built library) : graph.Supplied := by
  induction built with
  | empty name => exact fun node h => absurd h (Array.not_mem_empty node)
  | @add graph built spec known ih =>
    intro node hnode
    obtain hold | rfl := Array.mem_push.mp hnode
    · exact ih node hold
    · intro port hport hinline
      rw [inline_ports spec port (by simpa using hport)] at hinline
      cases hinline
  | setLabel built index label ih => exact ih.modify fun node hnode => ih node (Array.mem_of_getElem? hnode)
  | connect built h ih =>
    obtain ⟨link, rfl, -⟩ := connect_eq_ok h
    exact ih
  | @setInline _ _ built index name value h ih =>
    obtain ⟨ref, ⟨found, _, hfound, -, hincoming, -⟩, rfl⟩ := eq_of_setInline h
    refine ih.modify fun node hnode => ?_
    obtain rfl := Option.some.inj (hfound.symm.trans hnode)
    intro port hport hinline
    have hmem : port ∈ found.ports.modify ref.port ({ · with inline := some value }) := hport
    obtain hold | ⟨old, hold, rfl⟩ := mem_or_eq_of_mem_modify hmem
    · exact ih found (Array.mem_of_getElem? hfound) port hold hinline
    · rw [GraphNode.port, Array.getD_eq_getD_getElem?, hold] at hincoming
      exact hincoming

/-! ### Well-formed graphs -/

/-- What every graph has, however it was edited. -/
structure WellFormed (library : Library) (graph : Graph) : Prop where
  /-- A link leads from an outgoing port to an incoming one of its kind, each the first of its name on its node. -/
  links : ∀ link ∈ graph.links, graph.LinkFormed link
  /-- An inline value stands at an incoming port for values of its type. -/
  inlines : ∀ node ∈ graph.nodes, ∀ port ∈ node.ports, ∀ value, port.inline = some value →
    port.direction = .incoming ∧ port.kind = .value value.type
  /-- A call has the ports of the first input node and of the first output node of its graph, seen from the other
  side. -/
  calls : ∀ node ∈ graph.nodes, ∀ id, node.role = .call id → ∃ callee, library[id]? = some callee ∧
    node.ports.toList.map Port.bare =
      callee.facing .incoming callee.inputNode? ++ callee.facing .outgoing callee.outputNode?

theorem Formed.calls (formed : graph.Formed library) {node : GraphNode} (hnode : node ∈ graph.nodes) {id : GraphId}
    (hrole : node.role = .call id) : ∃ callee, library[id]? = some callee ∧
      node.ports.toList.map Port.bare =
        callee.facing .incoming callee.inputNode? ++ callee.facing .outgoing callee.outputNode? := by
  obtain ⟨spec, known, built⟩ := formed.nodes node hnode
  have hspec := built.role.symm.trans hrole
  cases spec with
  | call other callee =>
    obtain rfl : other = id := Role.call.inj hspec
    exact ⟨callee, known, built.ports.trans (callPorts_eq callee)⟩
  | _ => cases hspec

theorem Formed.wellFormed (formed : graph.Formed library) (supplied : graph.Supplied) : graph.WellFormed library where
  links := formed.links
  inlines node hnode port hport value hvalue := by
    obtain ⟨spec, known, built⟩ := formed.nodes node hnode
    exact ⟨supplied node hnode port hport (Option.isSome_iff_exists.mpr ⟨value, hvalue⟩),
      built.inline port hport value hvalue⟩
  calls node hnode id hrole := formed.calls hnode hrole

theorem Built.wellFormed (built : graph.Built library) : graph.WellFormed library :=
  built.formed.wellFormed built.supplied

/-- Edits lead from an empty graph to well-formed graphs only. -/
theorem wellFormed_edited {edits : List Edit} (known : ∀ edit ∈ edits, edit.Known library) (name : String) :
    ((empty name).edited edits).WellFormed library :=
  ((Built.empty name).edited known).wellFormed

end Graph

/-! ### Well-formed libraries -/

namespace Library

variable {library : Library}

theorem Built.supplied (built : library.Built) : ∀ graph ∈ library, graph.Supplied := by
  induction built with
  | empty => exact fun graph h => absurd h (Array.not_mem_empty graph)
  | push built h ih =>
    intro graph hgraph
    obtain hold | rfl := Array.mem_push.mp hgraph
    · exact ih graph hold
    · exact h.supplied

/-- All graphs that are built one after the other are well-formed. -/
theorem Built.wellFormed (built : library.Built) : ∀ graph ∈ library, graph.WellFormed library :=
  fun graph hgraph => (built.formed graph hgraph).wellFormed (built.supplied graph hgraph)

end Library

end BehaviorTree
