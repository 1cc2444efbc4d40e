import BehaviorTree.Compile.Wire
import BehaviorTree.Proofs.Graph.Formed

/-! Wires keep their kind. A value that crosses the boundary of a called graph meets a port of the same name
there, and as long as the graph has one input and one output node this port has the same type. -/

namespace BehaviorTree

namespace CallPath

/-- Paths of calls that are there, from an entry graph. -/
inductive Valid (library : Library) (entry : GraphId) : CallPath → Prop
  | start : Valid library entry (.start entry)
  | enter {path : CallPath} {via : Nat} {callee : GraphId} (valid : Valid library entry path)
    (h : ((library.graph path.graph).node via).role = .call callee) : Valid library entry (path.enter via callee)

variable {library : Library} {entry : GraphId} {path : CallPath}

@[simp] theorem graph_enter (path : CallPath) (via : Nat) (callee : GraphId) : (path.enter via callee).graph = callee :=
  rfl

@[simp] theorem leave?_enter (path : CallPath) (via : Nat) (callee : GraphId) :
    (path.enter via callee).leave? = some (path, via) :=
  rfl

/-- The call that led to a graph is a node of the enclosing one. -/
theorem Valid.leave (valid : path.Valid library entry) {outer : CallPath} {via : Nat}
    (h : path.leave? = some (outer, via)) :
    outer.Valid library entry ∧ ((library.graph outer.graph).node via).role = .call path.graph := by
  cases valid with
  | start => cases h
  | enter valid hcall =>
    rw [leave?_enter] at h
    obtain ⟨rfl, rfl⟩ := Prod.mk.inj (Option.some.inj h)
    exact ⟨valid, hcall⟩

end CallPath

/-- At most one node of the graph has the role. -/
def Graph.AtMostOne (graph : Graph) (role : Role) : Prop :=
  ∀ (i j : Nat) (a b : GraphNode), graph.nodes[i]? = some a → graph.nodes[j]? = some b →
    a.role = role → b.role = role → i = j

/-- Every graph that is called, directly or not, has at most one input and one output node. -/
def Library.Bounded (library : Library) (entry : GraphId) : Prop :=
  ∀ path : CallPath, path.Valid library entry →
    (library.graph path.graph).AtMostOne .input ∧ (library.graph path.graph).AtMostOne .output

/-- It is enough to look at each graph of the library. -/
theorem Library.bounded_of_forall {library : Library} (entry : GraphId)
    (h : ∀ graph ∈ library, graph.AtMostOne .input ∧ graph.AtMostOne .output) : library.Bounded entry := by
  intro path _
  rw [Library.graph, Array.getD_eq_getD_getElem?]
  cases hgraph : library[path.graph]? with
  | none =>
    have hempty (role : Role) : (default : Graph).AtMostOne role := by
      intro i j a b hi
      cases hi
    exact ⟨hempty .input, hempty .output⟩
  | some graph => exact h graph (Array.mem_of_getElem? hgraph)

namespace Graph

variable {library : Library} {graph : Graph}

theorem role_node (graph : Graph) (index : Nat) :
    (graph.node index).role = (graph.nodes.toList.map (·.role)).getD index .input := by
  rw [node, List.getD_eq_getElem?_getD, List.getElem?_map, Array.getElem?_toList, Array.getD_eq_getD_getElem?]
  cases graph.nodes[index]? <;> rfl

theorem atMostOne_of_roles {roles : List Role} (h : graph.nodes.toList.map (·.role) = roles) {role : Role}
    (hroles : ∀ i j : Fin roles.length, roles[i] = role → roles[j] = role → i = j) : graph.AtMostOne role := by
  subst h
  intro i j a b hi hj ha hb
  obtain ⟨hlt, rfl⟩ := Array.getElem?_eq_some_iff.mp hi
  obtain ⟨hlt', rfl⟩ := Array.getElem?_eq_some_iff.mp hj
  exact Fin.mk.inj (hroles ⟨i, by simpa using hlt⟩ ⟨j, by simpa using hlt'⟩ (by simpa using ha) (by simpa using hb))

/-- The first node of a role is the only one. -/
theorem findIdx?_role {role : Role} (single : graph.AtMostOne role) {index : Nat} {node : GraphNode}
    (h : graph.nodes[index]? = some node) (hrole : node.role = role) :
    graph.nodes.findIdx? (·.role = role) = some index := by
  obtain ⟨hlt, rfl⟩ := Array.getElem?_eq_some_iff.mp h
  refine Array.findIdx?_eq_some_iff_getElem.mpr ⟨hlt, by simpa using hrole, ?_⟩
  intro j hj
  have hne : graph.nodes[j].role ≠ role := fun hsame => by
    have := single j index _ _ (Array.getElem?_eq_getElem (by omega)) h hsame hrole
    omega
  simpa using hne

theorem of_findIdx?_role {role : Role} {index : Nat} (h : graph.nodes.findIdx? (·.role = role) = some index) :
    ∃ node, graph.nodes[index]? = some node ∧ node.role = role := by
  obtain ⟨hlt, hrole, -⟩ := Array.findIdx?_eq_some_iff_getElem.mp h
  exact ⟨_, Array.getElem?_eq_getElem hlt, by simpa using hrole⟩

/-- A node of another role than a missing one is there. -/
theorem getElem?_of_role {index : Nat} {role : Role} (h : (graph.node index).role = role) (hne : role ≠ .input) :
    ∃ node, graph.nodes[index]? = some node ∧ node.role = role := by
  rw [node, Array.getD_eq_getD_getElem?] at h
  cases hnode : graph.nodes[index]? with
  | none =>
    rw [hnode] at h
    exact absurd h.symm hne
  | some node =>
    rw [hnode] at h
    exact ⟨node, rfl, h⟩

theorem lt_of_role {index : Nat} {role : Role} (h : (graph.node index).role = role) (hne : role ≠ .input) :
    index < graph.nodes.size := by
  obtain ⟨node, hnode, -⟩ := getElem?_of_role h hne
  exact (Array.getElem?_eq_some_iff.mp hnode).1

/-! ### Ports of calls -/

theorem findIdx?_facing (graph : Graph) (direction : Direction) (boundary : Option Nat) (name : String) :
    (graph.facing direction boundary).findIdx? (·.name = name) =
      boundary.bind fun index => (graph.node index).port? name := by
  cases boundary with
  | none => rfl
  | some index =>
    rw [facing, List.findIdx?_map, Option.bind_some, GraphNode.port?_eq, List.findIdx?_map]
    rfl

theorem getElem?_facing (graph : Graph) (direction : Direction) (index k : Nat) :
    (graph.facing direction (some index))[k]? =
      (graph.node index).ports[k]?.map fun port => ⟨port.name, direction, port.kind, none⟩ := by
  rw [facing, List.getElem?_map, Array.getElem?_toList]

end Graph

namespace GraphNode

variable {library : Library} {node : GraphNode} {callee : GraphId}

/-- The ports of a call are those of the graph that it calls. -/
theorem Formed.callPorts (formed : node.Formed library) (h : node.role = .call callee) :
    node.ports.toList.map Port.bare = (library.graph callee).callPorts := by
  obtain ⟨spec, known, built⟩ := formed
  have hrole := built.role.symm.trans h
  cases spec with
  | call id graph =>
    obtain rfl : id = callee := Role.call.inj hrole
    have hgraph : library.graph id = graph := by
      rw [Library.graph, Array.getD_eq_getD_getElem?, show library[id]? = some graph from known]
      rfl
    rw [built.ports, hgraph]
    rfl
  | _ => cases hrole

/-- A port of a call, by name: one of the input node, or else one of the output node. -/
theorem Formed.port?_call (formed : node.Formed library) (h : node.role = .call callee) (name : String) :
    node.port? name =
      ((library.graph callee).inputNode?.bind fun index => ((library.graph callee).node index).port? name).or
        (((library.graph callee).outputNode?.bind fun index => ((library.graph callee).node index).port? name).map
          (· + ((library.graph callee).facing .incoming (library.graph callee).inputNode?).length)) := by
  rw [port?_eq, formed.callPorts h, Graph.callPorts_eq, List.findIdx?_append, Graph.findIdx?_facing,
    Graph.findIdx?_facing]

/-- The port of a call at a place, from the port of the boundary node for which it stands. -/
theorem Formed.port_call (formed : node.Formed library) (h : node.role = .call callee) {direction : Direction}
    {boundary k k' : Nat} (hsame : (library.graph callee).callPorts[k]? =
      ((library.graph callee).facing direction (some boundary))[k']?)
    (hlt : k' < ((library.graph callee).node boundary).ports.size) :
    (node.port k).direction = direction ∧
      (node.port k).kind = (((library.graph callee).node boundary).port k').kind := by
  have hbare := bare_port node k
  rw [formed.callPorts h, List.getD_eq_getElem?_getD, hsame, Graph.getElem?_facing, Array.getElem?_eq_getElem hlt] at hbare
  have hport : ((library.graph callee).node boundary).port k' = ((library.graph callee).node boundary).ports[k'] := by
    rw [GraphNode.port, Array.getD_eq_getD_getElem?, Array.getElem?_eq_getElem hlt]
    rfl
  rw [hport]
  exact ⟨(Port.mk.inj hbare).2.1, (Port.mk.inj hbare).2.2.1⟩

/-- The port of a call that stands for a port of the input node. -/
theorem Formed.port?_call_input (formed : node.Formed library) (h : node.role = .call callee) {input k : Nat}
    {name : String} (hinput : (library.graph callee).inputNode? = some input)
    (hport : ((library.graph callee).node input).port? name = some k) :
    node.port? name = some k ∧ (node.port k).direction = .incoming ∧
      (node.port k).kind = (((library.graph callee).node input).port k).kind := by
  have hlt := (port?_eq_some hport).1
  constructor
  · rw [formed.port?_call h, hinput, Option.bind_some, hport]
    rfl
  · refine formed.port_call h ?_ hlt
    rw [Graph.callPorts_eq, hinput, List.getElem?_append_left]
    simpa [Graph.facing] using hlt

/-- Every port of a call stands for one of the input or of the output node. -/
theorem Formed.port?_call_cases (formed : node.Formed library) (h : node.role = .call callee) {name : String} {k : Nat}
    (hport : node.port? name = some k) :
    ∃ boundary k', ((library.graph callee).node boundary).port? name = some k' ∧
      (node.port k).kind = (((library.graph callee).node boundary).port k').kind ∧
      ((node.port k).direction = .incoming ∧ (library.graph callee).inputNode? = some boundary ∨
        (node.port k).direction = .outgoing ∧ (library.graph callee).outputNode? = some boundary) := by
  have hsplit := hport
  rw [formed.port?_call h] at hsplit
  cases hinput : (library.graph callee).inputNode?.bind fun index => ((library.graph callee).node index).port? name with
  | some k' =>
    obtain ⟨input, hnode, hname⟩ := Option.bind_eq_some_iff.mp hinput
    obtain ⟨hsome, hdirection, hkind⟩ := formed.port?_call_input h hnode hname
    obtain rfl : k' = k := Option.some.inj (hsome.symm.trans hport)
    exact ⟨input, k', hname, hkind, .inl ⟨hdirection, hnode⟩⟩
  | none =>
    rw [hinput, Option.none_or] at hsplit
    obtain ⟨k', houtput, rfl⟩ := Option.map_eq_some_iff.mp hsplit
    obtain ⟨output, hnode, hname⟩ := Option.bind_eq_some_iff.mp houtput
    have hplace : (library.graph callee).callPorts[k' + ((library.graph callee).facing .incoming
        (library.graph callee).inputNode?).length]? = ((library.graph callee).facing .outgoing (some output))[k']? := by
      rw [Graph.callPorts_eq, hnode, List.getElem?_append_right (Nat.le_add_left _ _), Nat.add_sub_cancel]
    obtain ⟨hdirection, hkind⟩ := formed.port_call h hplace (port?_eq_some hname).1
    exact ⟨output, k', hname, hkind, .inr ⟨hdirection, hnode⟩⟩

end GraphNode

/-! ### Values -/

namespace Spot

/-- A port of a value of the given type. -/
structure Carries (library : Library) (entry : GraphId) (type : ValueType) (spot : Spot) : Prop where
  path : spot.path.Valid library entry
  kind : (spot.portOf library).kind = .value type

end Spot

/-- The source exists and gives values of the type. -/
def ValueSource.HasType (library : Library) (entry : GraphId) (type : ValueType) : ValueSource → Prop
  | .constant value => value.type = type
  | .operator i => i.path.Valid library entry ∧ (∃ op, (i.graphNode library).role = .operator op) ∧
      (i.graphNode library).valueType? "out" = some type

namespace Spot

variable {library : Library} {entry : GraphId} {type : ValueType} {spot : Spot}

/-- The errors of every hop are errors of the wire. -/
theorem errors_of_follow {α : Type} {hop : Spot → Except Fault (Hop α × Trail)} {ports : Nat} {spot : Spot}
    {before : List Trail} {a : α} {trail : Trail} (h : follow hop ports spot before = .ok (a, trail))
    (hclean : trail.errors = []) : ∀ seen ∈ before, seen.errors = [] := by
  induction ports generalizing spot before with
  | zero => cases h
  | succ ports ih =>
    rw [follow] at h
    split at h
    next => cases h
    next result seen hhop =>
      obtain ⟨-, rfl⟩ := Prod.mk.inj (Except.ok.inj h)
      intro other hother
      exact List.flatMap_eq_nil_iff.mp hclean other (by simp [hother])
    next next seen hhop =>
      intro other hother
      exact ih h other (by simp [hother])

/-- A wire without errors keeps what each of its hops keeps, and its end has what the last one gives it. -/
theorem follow_spec {α : Type} {hop : Spot → Except Fault (Hop α × Trail)} {inv : Spot → Prop} {post : α → Prop}
    (hstop : ∀ spot a seen, inv spot → hop spot = .ok (.stop a, seen) → seen.errors = [] → post a)
    (honward : ∀ spot next seen, inv spot → hop spot = .ok (.onward next, seen) → seen.errors = [] → inv next)
    {ports : Nat} {spot : Spot} {before : List Trail} {a : α} {trail : Trail} (hinv : inv spot)
    (h : follow hop ports spot before = .ok (a, trail)) (hclean : trail.errors = []) : post a := by
  induction ports generalizing spot before with
  | zero => cases h
  | succ ports ih =>
    rw [follow] at h
    split at h
    next => cases h
    next result seen hhop =>
      obtain ⟨rfl, rfl⟩ := Prod.mk.inj (Except.ok.inj h)
      exact hstop spot result seen hinv hhop (List.flatMap_eq_nil_iff.mp hclean seen (by simp))
    next next seen hhop =>
      exact ih (honward spot next seen hinv hhop (errors_of_follow h hclean seen (by simp))) h

/-- The end of a hop gives a value of the type, and so does the port to which it leads on. -/
def Typed (library : Library) (entry : GraphId) (type : ValueType) : Hop (Option ValueSource) → Prop
  | .stop source => ∀ s, source = some s → s.HasType library entry type
  | .onward next => next.Carries library entry type

theorem portOf_eq {node : GraphNode} (h : (spot.graph library).nodes[spot.node]? = some node) :
    spot.portOf library = node.port spot.port := by
  rw [portOf, Graph.node_of_getElem? h]

/-- The value of an operator comes out of its only outgoing port. -/
theorem valueType?_of_outgoing {node : GraphNode} (formed : node.Formed library) {op : Operator}
    (hrole : node.role = .operator op) {k : Nat} (hport : node.port? (node.port k).name = some k)
    (houtgoing : (node.port k).direction = .outgoing) (hkind : (node.port k).kind = .value type) :
    node.valueType? "out" = some type := by
  obtain ⟨spec, known, built⟩ := formed
  have hname : (node.port k).name = "out" := by
    obtain ⟨port, hmem, hsame, hdirection, -⟩ := built.exists_port (GraphNode.port?_eq_some hport).1
    have hspec := built.role.symm.trans hrole
    rw [← hsame]
    rw [houtgoing] at hdirection
    cases spec <;> simp [NodeSpec.role] at hspec <;>
      simp [NodeSpec.ports, Port.valueIn, Port.valueOut] at hmem <;> aesop
  rw [GraphNode.valueType?, ← hname, hport, Option.bind_some, hkind]
  rfl

/-- A value that comes out of a call is fed by the output port of the same name. -/
theorem enterValue_typed {path : CallPath} {via : Nat} {callee : GraphId} {node : GraphNode} {name : String} {k : Nat}
    (valid : path.Valid library entry) (hnode : (library.graph path.graph).nodes[via]? = some node)
    (formed : node.Formed library) (hrole : node.role = .call callee) (hport : node.port? name = some k)
    (houtgoing : (node.port k).direction = .outgoing) (hkind : (node.port k).kind = .value type) :
    Typed library entry type (enterValue library path via callee name type).1 := by
  obtain ⟨output, k', hname, hsame, ⟨hincoming, _⟩ | ⟨_, houtput⟩⟩ := formed.port?_call_cases hrole hport
  · rw [houtgoing] at hincoming
    cases hincoming
  · simp only [enterValue, houtput, hname]
    split_ifs
    · rintro s ⟨⟩
      cases type <;> rfl
    · refine ⟨.enter valid (by rw [Graph.node_of_getElem? hnode, hrole]), ?_⟩
      exact hsame.symm.trans hkind

/-- A value of an input node is fed by the port of the call that has the same name. -/
theorem leaveThrough_typed (formed : library.Formed) (bounded : library.Bounded entry) {path : CallPath} {index : Nat}
    {node : GraphNode} {name : String} {k : Nat} (valid : path.Valid library entry)
    (hnode : (library.graph path.graph).nodes[index]? = some node) (hrole : node.role = .input)
    (hport : node.port? name = some k) (hkind : (node.port k).kind = .value type) :
    Typed library entry type (leaveThrough library path index name).1 := by
  unfold leaveThrough
  cases hout : outward? library path name with
  | none => exact fun s hs => nomatch hs
  | some next =>
    obtain ⟨⟨outer, via⟩, hleave, hout⟩ := Option.bind_eq_some_iff.mp hout
    obtain ⟨k', hcall, hnext⟩ := Option.bind_eq_some_iff.mp hout
    obtain rfl := Option.some.inj hnext
    obtain ⟨outerValid, hcallee⟩ := valid.leave hleave
    refine ⟨outerValid, ?_⟩
    have hinput : (library.graph path.graph).inputNode? = some index :=
      Graph.findIdx?_role (bounded path valid).1 hnode hrole
    have hinputPort : ((library.graph path.graph).node index).port? name = some k := by
      rw [Graph.node_of_getElem? hnode, hport]
    obtain ⟨call, hcallNode, hcallRole⟩ := Graph.getElem?_of_role hcallee (by simp)
    have callFormed := (formed.graph outer.graph).nodes call (Array.mem_of_getElem? hcallNode)
    have hname := callFormed.port?_call_input hcallRole hinput hinputPort
    rw [Graph.node_of_getElem? hcallNode, hname.1] at hcall
    obtain rfl := Option.some.inj hcall
    have hport : portOf library ⟨outer, via, k⟩ = call.port k := portOf_eq hcallNode
    rw [hport, hname.2.2, Graph.node_of_getElem? hnode, hkind]

/-- A hop along a value keeps its type. -/
theorem valueHop_typed (formed : library.Formed) (bounded : library.Bounded entry)
    (carries : spot.Carries library entry type) {hop : Hop (Option ValueSource)} {seen : Trail}
    (h : valueHop library spot = .ok (hop, seen)) : Typed library entry type hop := by
  have graphFormed := formed.graph spot.path.graph
  simp only [valueHop, carries.kind] at h
  split at h
  next hlinks =>
    split at h
    next value hinline =>
      obtain ⟨rfl, -⟩ := Prod.mk.inj (Except.ok.inj h)
      rintro s ⟨⟩
      have hkind := carries.kind.symm.trans (graphFormed.inline hinline)
      exact (PortKind.value.inj hkind).symm
    next =>
      obtain ⟨rfl, -⟩ := Prod.mk.inj (Except.ok.inj h)
      exact fun s hs => nomatch hs
  next link others hlinks =>
    have hlink : link ∈ (spot.graph library).linksTo spot.ref := by simp [hlinks]
    obtain ⟨hmem, htarget⟩ : link ∈ (spot.graph library).links ∧ link.target = spot.ref := by
      simpa [Graph.linksTo] using hlink
    obtain ⟨source, target, joins⟩ := (graphFormed.links link hmem).joins
    have hkind : (source.port link.source.port).kind = .value type := by
      rw [joins.kind, ← carries.kind, portOf, ← Graph.node_of_getElem? joins.targetNode, htarget]
      rfl
    have sourceFormed := graphFormed.nodes source (Array.mem_of_getElem? joins.sourceNode)
    have hsource : (spot.graph library).node link.source.node = source := Graph.node_of_getElem? joins.sourceNode
    rw [hsource] at h
    cases hrole : source.role with
    | operator op =>
      simp only [hrole] at h
      obtain ⟨rfl, -⟩ := Prod.mk.inj (Except.ok.inj h)
      rintro s ⟨⟩
      have hnode : Instance.graphNode library ⟨spot.path, link.source.node⟩ = source :=
        Graph.node_of_getElem? joins.sourceNode
      refine ⟨carries.path, ⟨op, by rw [hnode, hrole]⟩, ?_⟩
      rw [hnode]
      exact valueType?_of_outgoing sourceFormed hrole joins.sourcePort joins.outgoing hkind
    | call callee =>
      simp only [hrole] at h
      obtain ⟨rfl, -⟩ := Prod.mk.inj (Except.ok.inj h)
      exact enterValue_typed carries.path joins.sourceNode sourceFormed hrole joins.sourcePort joins.outgoing hkind
    | input =>
      simp only [hrole] at h
      obtain ⟨rfl, -⟩ := Prod.mk.inj (Except.ok.inj h)
      exact leaveThrough_typed formed bounded carries.path joins.sourceNode hrole joins.sourcePort hkind
    | action a =>
      simp only [hrole] at h
      obtain ⟨rfl, -⟩ := Prod.mk.inj (Except.ok.inj h)
      exact fun s hs => nomatch hs
    | output =>
      simp only [hrole] at h
      obtain ⟨rfl, -⟩ := Prod.mk.inj (Except.ok.inj h)
      exact fun s hs => nomatch hs

end Spot

/-- What feeds a port gives values of its type. -/
theorem Library.valueSource_typed {library : Library} {entry : GraphId} {bound : Nat} {type : ValueType} {spot : Spot}
    (formed : library.Formed) (bounded : library.Bounded entry) (carries : spot.Carries library entry type)
    {source : Option ValueSource} {trail : Trail} (h : library.valueSource bound spot = .ok (source, trail))
    (hclean : trail.errors = []) {s : ValueSource} (hs : source = some s) : s.HasType library entry type := by
  have hstop : ∀ spot source seen, Spot.Carries library entry type spot →
      Spot.valueHop library spot = .ok (.stop source, seen) → seen.errors = [] →
      ∀ s, source = some s → s.HasType library entry type :=
    fun spot source seen carries hhop _ => Spot.valueHop_typed formed bounded carries hhop
  have honward : ∀ spot next seen, Spot.Carries library entry type spot →
      Spot.valueHop library spot = .ok (.onward next, seen) → seen.errors = [] → next.Carries library entry type :=
    fun spot next seen carries hhop _ => Spot.valueHop_typed formed bounded carries hhop
  exact Spot.follow_spec hstop honward carries h hclean s hs

/-- A flow port is not read as a value. -/
theorem Library.valueSource_flow {library : Library} {bound : Nat} {spot : Spot}
    (hflow : (spot.portOf library).kind = .flow) (result : Option ValueSource × Trail) :
    library.valueSource bound spot ≠ .ok result := by
  cases bound with
  | zero => rintro ⟨⟩
  | succ bound =>
    rw [valueSource, Spot.follow, Spot.valueHop, hflow]
    rintro ⟨⟩

end BehaviorTree
