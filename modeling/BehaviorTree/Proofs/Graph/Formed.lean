import BehaviorTree.Graph.Build
import BehaviorTree.Proofs.Refusal

/-! Graphs that are built by adding nodes, linking ports and setting inline values. Every node keeps the
ports that it was built with, every link joins two ports of one kind, and every inline value has the
type of its port, which is the first of its name. -/

namespace BehaviorTree

open Refusal

/-- What is in an array after one place was changed. -/
theorem mem_or_eq_of_mem_modify {α : Type} {items : Array α} {index : Nat} {f : α → α} {a : α}
    (h : a ∈ items.modify index f) : a ∈ items ∨ ∃ old, items[index]? = some old ∧ f old = a := by
  obtain ⟨i, hi⟩ := Array.mem_iff_getElem?.mp h
  rw [Array.getElem?_modify] at hi
  split_ifs at hi with hindex
  · subst hindex
    exact .inr (Option.map_eq_some_iff.mp hi)
  · exact .inl (Array.mem_of_getElem? hi)

/-- The port without its inline value. -/
def Port.bare (port : Port) : Port :=
  { port with inline := none }

/-- A call names a graph of the library, and has the ports of that graph. -/
def NodeSpec.Known (library : Library) : NodeSpec → Prop
  | .call id callee => library[id]? = some callee
  | _ => True

/-- What an action is built from. -/
theorem NodeSpec.of_action {spec : NodeSpec} {a : Action} (h : spec.role = .action a) :
    match a with
    | .root => spec = .root
    | .sequence => ∃ children, spec = .sequence children
    | .selector => ∃ branches, spec = .selector branches
    | .writeField component => ∃ fields, spec = .writeField component fields
    | .waitFor => spec = .waitFor
    | .waitUntil => spec = .waitUntil
    | .fail => spec = .fail
    | .optional => spec = .optional
    | .catch => spec = .catch
    | .writeVar var => ∃ type, spec = .writeVar var type
    | .query id var => spec = .query id var
    | .parallel => spec = .parallel
    | .threadRoot looping => spec = .threadRoot looping := by
  cases spec <;> cases h <;> simp

/-- What an operator is built from. -/
theorem NodeSpec.of_operator {spec : NodeSpec} {op : Operator} (h : spec.role = .operator op) :
    match op with
    | .readField component field => ∃ type, spec = .readField component field type
    | .lookupField lookup component field => ∃ type, spec = .lookupField lookup component field type
    | .readVar var => ∃ type, spec = .readVar var type
    | .not => spec = .not
    | .and => spec = .and
    | .or => spec = .or
    | .compare op type => spec = .compare op type
    | .arith op type => spec = .arith op type := by
  cases spec <;> cases h <;> simp

namespace GraphNode

/-- The node has the role and the ports of what it was built from. -/
structure BuiltFrom (spec : NodeSpec) (node : GraphNode) : Prop where
  role : node.role = spec.role
  ports : node.ports.toList.map Port.bare = spec.ports
  inline : ∀ port ∈ node.ports, ∀ value, port.inline = some value → port.kind = .value value.type
  first : ∀ index value, (node.port index).inline = some value → node.port? (node.port index).name = some index

def Formed (library : Library) (node : GraphNode) : Prop :=
  ∃ spec : NodeSpec, spec.Known library ∧ node.BuiltFrom spec

variable {node node' : GraphNode}

theorem port?_eq (node : GraphNode) (name : String) :
    node.port? name = (node.ports.toList.map Port.bare).findIdx? (·.name = name) := by
  obtain ⟨label, role, ⟨ports⟩⟩ := node
  rw [port?, List.findIdx?_toArray, List.findIdx?_map]
  rfl

theorem bare_port (node : GraphNode) (index : Nat) :
    (node.port index).bare = (node.ports.toList.map Port.bare).getD index default := by
  rw [port, List.getD_eq_getElem?_getD, List.getElem?_map, Array.getElem?_toList, Array.getD_eq_getD_getElem?]
  cases node.ports[index]? <;> rfl

theorem port?_eq_some {name : String} {index : Nat} (h : node.port? name = some index) :
    index < node.ports.size ∧ (node.port index).name = name := by
  obtain ⟨hlt, hname, _⟩ := Array.findIdx?_eq_some_iff_getElem.mp h
  refine ⟨hlt, ?_⟩
  rw [port, Array.getD_eq_getD_getElem?, Array.getElem?_eq_getElem hlt]
  simpa using hname

/-- Every port looks like one that the node was built with. -/
theorem BuiltFrom.exists_port {spec : NodeSpec} (built : node.BuiltFrom spec) {index : Nat}
    (h : index < node.ports.size) : ∃ port ∈ spec.ports, port.name = (node.port index).name ∧
      port.direction = (node.port index).direction ∧ port.kind = (node.port index).kind := by
  have hlt : index < (node.ports.toList.map Port.bare).length := by simpa using h
  refine ⟨(node.port index).bare, ?_, rfl, rfl, rfl⟩
  rw [← built.ports, bare_port, List.getD_eq_getElem?_getD, List.getElem?_eq_getElem hlt]
  exact List.getElem_mem hlt

/-- A port has what all ports of its name have. -/
theorem BuiltFrom.of_port? {spec : NodeSpec} (built : node.BuiltFrom spec) {name : String} {direction : Direction}
    {kind : PortKind} (hall : ∀ port ∈ spec.ports, port.name = name → port.direction = direction ∧ port.kind = kind)
    {index : Nat} (h : node.port? name = some index) :
    (node.port index).direction = direction ∧ (node.port index).kind = kind := by
  obtain ⟨hlt, hname⟩ := port?_eq_some h
  obtain ⟨port, hmem, hsame, hdirection, hkind⟩ := built.exists_port hlt
  rw [← hdirection, ← hkind]
  exact hall port hmem (hsame.trans hname)

theorem BuiltFrom.port?_eq {spec : NodeSpec} (built : node.BuiltFrom spec) (name : String) :
    node.port? name = spec.ports.findIdx? (·.name = name) := by
  rw [GraphNode.port?_eq, built.ports]

theorem BuiltFrom.portsWhere_eq {spec : NodeSpec} (built : node.BuiltFrom spec) (direction : Direction) (flow : Bool) :
    node.portsWhere direction flow = (List.range spec.ports.length).filter fun index =>
      (spec.ports.getD index default).direction = direction && ((spec.ports.getD index default).kind = .flow) == flow := by
  rw [portsWhere, ← built.ports, List.length_map, Array.length_toList]
  refine List.filter_congr fun index _ => ?_
  rw [← bare_port]
  rfl

theorem BuiltFrom.length_portsWhere {spec : NodeSpec} (built : node.BuiltFrom spec) (direction : Direction)
    (flow : Bool) : (node.portsWhere direction flow).length =
      spec.ports.countP fun port => port.direction = direction && (port.kind = .flow) == flow := by
  have hrange : (List.range spec.ports.length).map (spec.ports.getD · default) = spec.ports := by
    apply List.ext_getElem
    · simp
    · intro k h _
      simp at h
      simp [h]
  rw [built.portsWhere_eq, ← List.countP_eq_length_filter]
  conv_rhs => rw [← hrange, List.countP_map]
  rfl

theorem bare_modify (ports : Array Port) (index : Nat) (value : Constant) :
    (ports.modify index ({ · with inline := some value })).toList.map Port.bare = ports.toList.map Port.bare := by
  apply List.ext_getElem?
  intro i
  rw [List.getElem?_map, List.getElem?_map, Array.getElem?_toList, Array.getElem?_toList, Array.getElem?_modify]
  split_ifs
  · cases ports[i]? <;> rfl
  · rfl

theorem port?_congr (h : node'.ports.toList.map Port.bare = node.ports.toList.map Port.bare) (name : String) :
    node'.port? name = node.port? name := by
  rw [port?_eq, h, port?_eq]

theorem bare_port_congr (h : node'.ports.toList.map Port.bare = node.ports.toList.map Port.bare) (index : Nat) :
    (node'.port index).bare = (node.port index).bare := by
  rw [bare_port, h, bare_port]

/-- A label may be anything. -/
theorem BuiltFrom.setLabel {spec : NodeSpec} (built : node.BuiltFrom spec) (label : String) :
    BuiltFrom spec { node with label := label } :=
  ⟨built.role, built.ports, built.inline, built.first⟩

/-- An inline value of the type of its port, at the first port of a name. -/
theorem BuiltFrom.setInline {spec : NodeSpec} (built : node.BuiltFrom spec) {index : Nat} {name : String}
    {value : Constant} (hport : node.port? name = some index) (h : (node.port index).kind = .value value.type) :
    BuiltFrom spec { node with ports := node.ports.modify index ({ · with inline := some value }) } := by
  obtain ⟨role, ports, inline, first⟩ := built
  refine ⟨role, (bare_modify _ _ _).trans ports, ?_, ?_⟩
  · intro port hport other hother
    have hmem : port ∈ node.ports.modify index ({ · with inline := some value }) := hport
    obtain hold | ⟨old, hold, rfl⟩ := mem_or_eq_of_mem_modify hmem
    · exact inline port hold other hother
    · obtain rfl := Option.some.inj hother
      rw [GraphNode.port, Array.getD_eq_getD_getElem?, hold] at h
      exact h
  · intro i other hother
    rw [port?_congr (bare_modify _ _ _), (Port.mk.inj (bare_port_congr (bare_modify _ _ _) i)).1]
    by_cases hindex : index = i
    · subst hindex
      rw [(port?_eq_some hport).2, hport]
    · refine first i other ?_
      rw [← hother, port, port, Array.getD_eq_getD_getElem?, Array.getD_eq_getD_getElem?, Array.getElem?_modify,
        if_neg hindex]

end GraphNode

namespace Graph

/-- The first port of its name on its node, with the given direction and kind. -/
def HasPort (graph : Graph) (ref : PortRef) (direction : Direction) (kind : PortKind) : Prop :=
  ∃ node name, graph.nodes[ref.node]? = some node ∧ node.port? name = some ref.port ∧
    (node.port ref.port).direction = direction ∧ (node.port ref.port).kind = kind

/-- Leads from an outgoing port to an incoming one of the same kind. -/
def LinkFormed (graph : Graph) (link : Link) : Prop :=
  ∃ kind, graph.HasPort link.source .outgoing kind ∧ graph.HasPort link.target .incoming kind

structure Formed (library : Library) (graph : Graph) : Prop where
  nodes : ∀ node ∈ graph.nodes, node.Formed library
  links : ∀ link ∈ graph.links, graph.LinkFormed link

/-- The graphs that are built from nothing in a library. -/
inductive Built (library : Library) : Graph → Prop
  | empty (name : String) : Built library (.empty name)
  | add {graph : Graph} (built : Built library graph) {spec : NodeSpec} (known : spec.Known library) :
    Built library (graph.add spec).1
  | setLabel {graph : Graph} (built : Built library graph) (index : Nat) (label : String) :
    Built library (graph.setLabel index label)
  | connect {graph graph' : Graph} (built : Built library graph) {source target : Nat × String}
    (h : graph.connect source target = .ok graph') : Built library graph'
  | setInline {graph graph' : Graph} (built : Built library graph) {index : Nat} {name : String} {value : Constant}
    (h : graph.setInline index name value = .ok graph') : Built library graph'

theorem hasPort_of_resolvePort {graph : Graph} {index : Nat} {name : String} {direction : Direction} {ref : PortRef}
    {kind : PortKind} (h : graph.resolvePort index name direction = .ok (ref, kind)) :
    graph.HasPort ref direction kind := by
  unfold resolvePort at h
  split at h
  next => cases h
  next node hnode =>
    split at h
    next => cases h
    next port hport =>
      split_ifs at h with hdirection
      obtain ⟨rfl, rfl⟩ := Prod.mk.inj (Except.ok.inj h)
      exact ⟨node, name, hnode, hport, hdirection, rfl⟩

/-- What a link joins: an outgoing port and an incoming one of the same kind, each the first of its name. -/
structure Joins (graph : Graph) (link : Link) (source target : GraphNode) : Prop where
  sourceNode : graph.nodes[link.source.node]? = some source
  targetNode : graph.nodes[link.target.node]? = some target
  sourcePort : source.port? (source.port link.source.port).name = some link.source.port
  targetPort : target.port? (target.port link.target.port).name = some link.target.port
  outgoing : (source.port link.source.port).direction = .outgoing
  incoming : (target.port link.target.port).direction = .incoming
  kind : (source.port link.source.port).kind = (target.port link.target.port).kind

theorem LinkFormed.joins {graph : Graph} {link : Link} (h : graph.LinkFormed link) :
    ∃ source target, graph.Joins link source target := by
  obtain ⟨kind, ⟨source, _, hsource, hsourcePort, houtgoing, hsourceKind⟩,
    ⟨target, _, htarget, htargetPort, hincoming, htargetKind⟩⟩ := h
  refine ⟨source, target, hsource, htarget, ?_, ?_, houtgoing, hincoming, hsourceKind.trans htargetKind.symm⟩
  · rw [(GraphNode.port?_eq_some hsourcePort).2]
    exact hsourcePort
  · rw [(GraphNode.port?_eq_some htargetPort).2]
    exact htargetPort

theorem node_of_getElem? {graph : Graph} {index : Nat} {node : GraphNode} (h : graph.nodes[index]? = some node) :
    graph.node index = node := by
  rw [Graph.node, Array.getD_eq_getD_getElem?, h]
  rfl

/-- An inline value belongs to the first port of a name. -/
theorem Formed.first {library : Library} {graph : Graph} (formed : graph.Formed library) {index k : Nat}
    {value : Constant} (h : ((graph.node index).port k).inline = some value) :
    (graph.node index).port? ((graph.node index).port k).name = some k := by
  cases hnode : graph.nodes[index]? with
  | none =>
    rw [Graph.node, Array.getD_eq_getD_getElem?, hnode] at h
    cases h
  | some node =>
    rw [node_of_getElem? hnode] at h ⊢
    obtain ⟨spec, known, built⟩ := formed.nodes node (Array.mem_of_getElem? hnode)
    exact built.first k value h

/-- An inline value has the type of its port. -/
theorem Formed.inline {library : Library} {graph : Graph} (formed : graph.Formed library) {index k : Nat}
    {value : Constant} (h : ((graph.node index).port k).inline = some value) :
    ((graph.node index).port k).kind = .value value.type := by
  cases hnode : graph.nodes[index]? with
  | none =>
    rw [Graph.node, Array.getD_eq_getD_getElem?, hnode] at h
    cases h
  | some node =>
    rw [node_of_getElem? hnode] at h ⊢
    obtain ⟨spec, known, built⟩ := formed.nodes node (Array.mem_of_getElem? hnode)
    cases hport : node.ports[k]? with
    | none =>
      rw [GraphNode.port, Array.getD_eq_getD_getElem?, hport] at h
      cases h
    | some port =>
      rw [GraphNode.port, Array.getD_eq_getD_getElem?, hport] at h ⊢
      exact built.inline port (Array.mem_of_getElem? hport) value h

/-- Ports stay as long as nodes keep their places and their bare ports. -/
theorem HasPort.of_bare {graph graph' : Graph}
    (hsame : ∀ (i : Nat) (node : GraphNode), graph.nodes[i]? = some node → ∃ node', graph'.nodes[i]? = some node' ∧
      node'.ports.toList.map Port.bare = node.ports.toList.map Port.bare)
    {ref : PortRef} {direction : Direction} {kind : PortKind} (h : graph.HasPort ref direction kind) :
    graph'.HasPort ref direction kind := by
  obtain ⟨node, name, hnode, hport, hdirection, hkind⟩ := h
  obtain ⟨node', hnode', hbare⟩ := hsame _ _ hnode
  have hequal := GraphNode.bare_port_congr hbare ref.port
  refine ⟨node', name, hnode', ?_, ?_, ?_⟩
  · rw [GraphNode.port?_congr hbare]
    exact hport
  · rw [← hdirection]
    exact (Port.mk.inj hequal).2.1
  · rw [← hkind]
    exact (Port.mk.inj hequal).2.2.1

theorem Formed.of_bare {library : Library} {graph graph' : Graph} (formed : graph.Formed library)
    (hlinks : graph'.links = graph.links) (hnodes : ∀ node ∈ graph'.nodes, node.Formed library)
    (hsame : ∀ (i : Nat) (node : GraphNode), graph.nodes[i]? = some node → ∃ node', graph'.nodes[i]? = some node' ∧
      node'.ports.toList.map Port.bare = node.ports.toList.map Port.bare) : graph'.Formed library := by
  refine ⟨hnodes, ?_⟩
  intro link hlink
  rw [hlinks] at hlink
  obtain ⟨kind, hsource, htarget⟩ := formed.links link hlink
  exact ⟨kind, hsource.of_bare hsame, htarget.of_bare hsame⟩

/-- Every node is built from a spec of the kind. -/
def Consists (kind : NodeSpec → Prop) (graph : Graph) : Prop :=
  ∀ node ∈ graph.nodes, ∃ spec, kind spec ∧ node.BuiltFrom spec

theorem consists_empty (kind : NodeSpec → Prop) (name : String) : (empty name).Consists kind :=
  fun node h => absurd h (Array.not_mem_empty node)

theorem Consists.mono {kind kind' : NodeSpec → Prop} {graph : Graph} (h : graph.Consists kind)
    (himp : ∀ spec, kind spec → kind' spec) : graph.Consists kind' := by
  intro node hnode
  obtain ⟨spec, hspec, built⟩ := h node hnode
  exact ⟨spec, himp spec hspec, built⟩

/-- A node may be changed as long as it is built from the same spec. -/
theorem Consists.modify {kind : NodeSpec → Prop} {graph : Graph} (h : graph.Consists kind) {index : Nat}
    {f : GraphNode → GraphNode} (hf : ∀ node spec, graph.nodes[index]? = some node → node.BuiltFrom spec →
      (f node).BuiltFrom spec) : Consists kind { graph with nodes := graph.nodes.modify index f } := by
  intro node hnode
  obtain hold | ⟨old, hold, rfl⟩ := mem_or_eq_of_mem_modify hnode
  · exact h node hold
  · obtain ⟨spec, hspec, built⟩ := h old (Array.mem_of_getElem? hold)
    exact ⟨spec, hspec, hf old spec hold built⟩

/-- A changed node that is built from the same spec keeps the graph formed. -/
theorem Formed.modify {library : Library} {graph : Graph} (formed : graph.Formed library) {index : Nat}
    {f : GraphNode → GraphNode} (hf : ∀ node spec, graph.nodes[index]? = some node → node.BuiltFrom spec →
      (f node).BuiltFrom spec) : Formed library { graph with nodes := graph.nodes.modify index f } := by
  refine formed.of_bare rfl (Consists.modify formed.nodes hf) ?_
  intro i node hnode
  simp only [Array.getElem?_modify]
  split_ifs with hindex
  · subst hindex
    obtain ⟨spec, -, built⟩ := formed.nodes node (Array.mem_of_getElem? hnode)
    exact ⟨f node, by rw [hnode]; rfl, (hf node spec hnode built).ports.trans built.ports.symm⟩
  · exact ⟨node, hnode, rfl⟩

/-- The ports of a boundary node, seen from the other side. -/
def facing (graph : Graph) (direction : Direction) : Option Nat → List Port
  | none => []
  | some index => (graph.node index).ports.toList.map fun port => ⟨port.name, direction, port.kind, none⟩

theorem callPorts_eq (graph : Graph) :
    graph.callPorts = graph.facing .incoming graph.inputNode? ++ graph.facing .outgoing graph.outputNode? := by
  unfold callPorts
  cases graph.inputNode? <;> cases graph.outputNode? <;> rfl

theorem mem_facing {graph : Graph} {direction : Direction} {boundary : Option Nat} {port : Port}
    (h : port ∈ graph.facing direction boundary) : port.inline = none ∧ port.direction = direction := by
  cases boundary with
  | none => cases h
  | some index =>
    obtain ⟨old, _, rfl⟩ := List.mem_map.mp h
    exact ⟨rfl, rfl⟩

theorem inline_ports (spec : NodeSpec) : ∀ port ∈ spec.ports, port.inline = none := by
  cases spec with
  | call id callee =>
    intro port hport
    rw [NodeSpec.ports, callPorts_eq] at hport
    exact (List.mem_append.mp hport).elim (fun h => (mem_facing h).1) (fun h => (mem_facing h).1)
  | _ => simp [NodeSpec.ports, Port.flowIn, Port.flowOut, Port.valueIn, Port.valueOut] <;> aesop

theorem builtFrom_spec (spec : NodeSpec) (label : String) :
    GraphNode.BuiltFrom spec ⟨label, spec.role, spec.ports.toArray⟩ := by
  refine ⟨rfl, ?_, ?_, ?_⟩
  · refine (List.map_congr_left fun port hport => ?_).trans (List.map_id _)
    rw [Port.bare, ← inline_ports spec port hport]
    rfl
  · intro port hport value hvalue
    rw [inline_ports spec port (by simpa using hport)] at hvalue
    cases hvalue
  · intro index value hvalue
    rw [GraphNode.port, Array.getD_eq_getD_getElem?, List.getElem?_toArray] at hvalue
    cases hport : spec.ports[index]? with
    | none =>
      rw [hport] at hvalue
      cases hvalue
    | some port =>
      rw [hport, Option.getD_some, inline_ports spec port (List.mem_of_getElem? hport)] at hvalue
      cases hvalue

theorem Consists.add {kind : NodeSpec → Prop} {graph : Graph} (h : graph.Consists kind) {spec : NodeSpec}
    (hspec : kind spec) : (graph.add spec).1.Consists kind := by
  intro node hnode
  obtain hold | rfl := Array.mem_push.mp hnode
  · exact h node hold
  · exact ⟨spec, hspec, builtFrom_spec spec _⟩

theorem Consists.setLabel {kind : NodeSpec → Prop} {graph : Graph} (h : graph.Consists kind) (index : Nat)
    (label : String) : (graph.setLabel index label).Consists kind :=
  h.modify fun _ _ _ built => built.setLabel label

/-- What a link changes. -/
theorem connect_eq_ok {graph graph' : Graph} {source target : Nat × String} (h : graph.connect source target = .ok graph') :
    ∃ link, graph' = { graph with links := graph.links.push link } ∧ graph.LinkFormed link := by
  obtain ⟨⟨sourceRef, sourceKind⟩, hsource, h⟩ := bind_eq_ok_iff.mp h
  obtain ⟨⟨targetRef, targetKind⟩, htarget, h⟩ := bind_eq_ok_iff.mp h
  dsimp only at h
  split_ifs at h with hkind
  exact ⟨_, (Except.ok.inj h).symm, sourceKind, hasPort_of_resolvePort hsource, hkind ▸ hasPort_of_resolvePort htarget⟩

theorem Consists.connect {kind : NodeSpec → Prop} {graph graph' : Graph} (h : graph.Consists kind)
    {source target : Nat × String} (hconnect : graph.connect source target = .ok graph') : graph'.Consists kind := by
  obtain ⟨link, rfl, -⟩ := connect_eq_ok hconnect
  exact h

/-- What an inline value changes. -/
theorem setInline_eq_ok {graph graph' : Graph} {index : Nat} {name : String} {value : Constant}
    (h : graph.setInline index name value = .ok graph') : ∃ ref f,
      graph' = { graph with nodes := graph.nodes.modify ref f } ∧
        ∀ node spec, graph.nodes[ref]? = some node → node.BuiltFrom spec → GraphNode.BuiltFrom spec (f node) := by
  obtain ⟨⟨ref, kind⟩, hport, h⟩ := bind_eq_ok_iff.mp h
  dsimp only at h
  split_ifs at h with hkind
  refine ⟨_, _, (Except.ok.inj h).symm, fun node spec hnode built => ?_⟩
  obtain ⟨node', _, hnode', hport', _, hkind'⟩ := hasPort_of_resolvePort hport
  obtain rfl := Option.some.inj (hnode.symm.trans hnode')
  exact built.setInline hport' (hkind ▸ hkind')

theorem Consists.setInline {kind : NodeSpec → Prop} {graph graph' : Graph} (h : graph.Consists kind) {index : Nat}
    {name : String} {value : Constant} (hset : graph.setInline index name value = .ok graph') :
    graph'.Consists kind := by
  obtain ⟨ref, f, rfl, hf⟩ := setInline_eq_ok hset
  exact h.modify hf

/-- An added node stands behind the others. -/
theorem getElem?_add {graph : Graph} (spec : NodeSpec) {index : Nat} {node : GraphNode}
    (h : graph.nodes[index]? = some node) : (graph.add spec).1.nodes[index]? = some node := by
  have hlt := (Array.getElem?_eq_some_iff.mp h).1
  rw [Graph.add, Array.getElem?_push, if_neg (Nat.ne_of_lt hlt)]
  exact h

/-- Whatever changes a graph keeps it formed. -/
theorem Built.formed {library : Library} {graph : Graph} (built : graph.Built library) : graph.Formed library := by
  induction built with
  | empty name => exact ⟨consists_empty _ name, by simp [Graph.empty]⟩
  | @add graph built spec known ih =>
    refine ih.of_bare rfl (Consists.add ih.nodes known) ?_
    exact fun i node hnode => ⟨node, getElem?_add spec hnode, rfl⟩
  | setLabel built index label ih => exact ih.modify fun _ _ _ built => built.setLabel label
  | connect built h ih =>
    obtain ⟨link, rfl, formed⟩ := connect_eq_ok h
    refine ⟨ih.nodes, ?_⟩
    intro other hother
    obtain hold | rfl := Array.mem_push.mp hother
    · exact ih.links other hold
    · exact formed
  | setInline built h ih =>
    obtain ⟨ref, f, rfl, hf⟩ := setInline_eq_ok h
    exact ih.modify hf

/-- A graph of the given nodes, links and inline values, except for those that do not fit. -/
def assemble (name : String) (nodes : List NodeSpec) (links : List ((Nat × String) × (Nat × String)))
    (inlines : List ((Nat × String) × Constant)) : Graph :=
  let graph := nodes.foldl (fun graph spec => (graph.add spec).1) (empty name)
  let graph := links.foldl (fun graph link => (graph.connect link.1 link.2).toOption.getD graph) graph
  inlines.foldl (fun graph inline => (graph.setInline inline.1.1 inline.1.2 inline.2).toOption.getD graph) graph

theorem Built.getD {library : Library} {graph : Graph} (built : graph.Built library) {result : Except GraphError Graph}
    (h : ∀ graph', result = .ok graph' → graph'.Built library) : (result.toOption.getD graph).Built library := by
  cases result with
  | error e => exact built
  | ok graph' => exact h graph' rfl

theorem Built.foldl {α : Type} {library : Library} {graph : Graph} (built : graph.Built library) {items : List α}
    {f : Graph → α → Graph} (h : ∀ a ∈ items, ∀ graph : Graph, graph.Built library → (f graph a).Built library) :
    (items.foldl f graph).Built library := by
  induction items generalizing graph with
  | nil => exact built
  | cons a items ih => exact ih (h a (by simp) graph built) fun b hb => h b (by simp [hb])

theorem built_assemble {library : Library} {name : String} {nodes : List NodeSpec}
    {links : List ((Nat × String) × (Nat × String))} {inlines : List ((Nat × String) × Constant)}
    (known : ∀ spec ∈ nodes, spec.Known library) : (assemble name nodes links inlines).Built library := by
  refine ((Built.empty name).foldl ?_).foldl ?_ |>.foldl ?_
  · exact fun spec hspec graph built => built.add (known spec hspec)
  · exact fun link _ graph built => built.getD fun graph' h => built.connect h
  · exact fun inline _ graph built => built.getD fun graph' h => built.setInline h

end Graph

/-! ### Libraries -/

namespace Library

/-- The libraries whose graphs are built one after the other, each from nodes that call earlier ones. -/
inductive Built : Library → Prop
  | empty : Built #[]
  | push {library : Library} {graph : Graph} (built : Built library) (h : graph.Built library) :
    Built (library.push graph)

def Formed (library : Library) : Prop :=
  ∀ graph ∈ library, graph.Formed library

theorem Formed.graph {library : Library} (formed : library.Formed) (id : GraphId) :
    (library.graph id).Formed library := by
  rw [Library.graph, Array.getD_eq_getD_getElem?]
  cases h : library[id]? with
  | none => exact ⟨fun node h => absurd h (Array.not_mem_empty node), fun link h => absurd h (Array.not_mem_empty link)⟩
  | some graph => exact formed graph (Array.mem_of_getElem? h)

/-- A graph that has a node is one of the library. -/
theorem mem_graph {library : Library} {id : GraphId} {index : Nat} {node : GraphNode}
    (h : (library.graph id).nodes[index]? = some node) : library.graph id ∈ library := by
  rw [Library.graph, Array.getD_eq_getD_getElem?] at h ⊢
  cases hgraph : library[id]? with
  | none =>
    rw [hgraph] at h
    cases h
  | some graph => exact Array.mem_of_getElem? hgraph

theorem known_push {library : Library} {spec : NodeSpec} (known : spec.Known library) (graph : Graph) :
    spec.Known (library.push graph) := by
  cases spec with
  | call id callee =>
    have hlt := (Array.getElem?_eq_some_iff.mp known).1
    rw [NodeSpec.Known, Array.getElem?_push, if_neg (by omega)]
    exact known
  | _ => trivial

theorem Built.formed {library : Library} (built : library.Built) : library.Formed := by
  induction built with
  | empty => simp [Formed]
  | @push library graph built h ih =>
    have hmono {other : Graph} (formed : other.Formed library) : other.Formed (library.push graph) := by
      refine ⟨fun node hnode => ?_, formed.links⟩
      obtain ⟨spec, known, from_⟩ := formed.nodes node hnode
      exact ⟨spec, known_push known graph, from_⟩
    intro other hother
    obtain hold | rfl := Array.mem_push.mp hother
    · exact hmono (ih other hold)
    · exact hmono h.formed

end Library

end BehaviorTree
