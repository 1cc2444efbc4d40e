import BehaviorTree.Proofs.Compile.Walk
import BehaviorTree.Proofs.Graph.Extension

/-! Wires of an extended entry graph. A wire from a port of a met instance makes the same hops as before: no link was
added to the ports that it passes, and the graphs that it enters are not the entry graph. Only the bounds have grown.
There is one way out that has to be closed. Control leaves a called graph through the port that has the name of the one
at which it arrived, and if the graph has several output nodes, this may be the port of a value, whose links may lead
to new nodes. -/

namespace BehaviorTree

open Relation Refusal

/-! ### Following -/

namespace Spot

variable {α : Type} {hop hop' : Spot → Except Fault (Hop α × Trail)} {spot : Spot}

/-- A wire is followed to the same end by hops that agree on it, if they may be as many. -/
theorem follow_of_agree {ports ports' : Nat} {before : List Trail} {found : α × Trail}
    (h : follow hop ports spot before = .ok found) (hle : ports ≤ ports')
    (hsame : ∀ last, ReflTransGen (Passes hop) spot last → hop' last = hop last) :
    follow hop' ports' spot before = .ok found := by
  induction ports generalizing ports' spot before with
  | zero => cases h
  | succ ports ih =>
    obtain ⟨ports', rfl⟩ := Nat.exists_eq_add_of_lt hle
    rw [follow] at h ⊢
    rw [hsame spot .refl]
    split at h
    next => cases h
    next => exact h
    next next seen hhop =>
      exact ih h (by omega) fun last hpath => hsame last (.head ⟨seen, hhop⟩ hpath)

/-- A wire that ends at once is followed to its end within any number of ports. -/
theorem follow_of_last {ports ports' : Nat} {before : List Trail} (hlast : ∀ next, ¬Passes hop spot next)
    (hsame : hop' spot = hop spot) :
    follow hop' (ports' + 1) spot before = follow hop (ports + 1) spot before := by
  rw [follow, follow, hsame]
  split
  next => rfl
  next => rfl
  next next seen hhop => exact absurd ⟨seen, hhop⟩ (hlast next)

variable {library : Library}

theorem not_passesFlow (h : (spot.graph library).linksFrom spot.ref = []) (next : Spot) :
    ¬spot.PassesFlow library next := by
  rintro ⟨seen, hhop⟩
  simp [flowHop, h] at hhop

theorem not_passesValue (h : (spot.portOf library).kind ≠ .flow → (spot.graph library).linksTo spot.ref = [])
    (next : Spot) : ¬spot.PassesValue library next := by
  rintro ⟨seen, hhop⟩
  unfold valueHop at hhop
  cases hkind : (spot.portOf library).kind with
  | flow => simp [hkind] at hhop
  | value type =>
    simp only [hkind, h (by simp [hkind])] at hhop
    split at hhop <;> simp at hhop

end Spot

/-! ### Ports that lead nowhere -/

namespace GraphNode

variable {node : GraphNode} {port : Nat}

theorem port_of_size_le (h : node.ports.size ≤ port) : node.port port = default := by
  rw [GraphNode.port, Array.getD_eq_getD_getElem?, Array.getElem?_eq_none h]
  rfl

/-- A value arrives at no other ports than the value inputs. -/
theorem ne_incoming (hport : port ∉ node.valueInputs) (hkind : (node.port port).kind ≠ .flow) :
    (node.port port).direction ≠ .incoming := by
  intro hincoming
  obtain hlt | hle := Nat.lt_or_ge port node.ports.size
  · cases htype : (node.port port).kind with
    | flow => exact hkind htype
    | value type => exact hport (mem_valueInputs.mpr ⟨hlt, hincoming, type, htype⟩)
  · rw [port_of_size_le hle] at hkind
    exact hkind rfl

end GraphNode

/-- Nothing leaves an action but control. -/
theorem Library.Formed.ne_outgoing {library : Library} (formed : library.Formed) {i : Instance} {a : Action}
    (hrole : (i.graphNode library).role = .action a) {port : Nat} (hport : port ∉ (i.graphNode library).flowOutputs) :
    ((i.graphNode library).port port).direction ≠ .outgoing := by
  intro houtgoing
  obtain ⟨node, hnode, -⟩ := Graph.getElem?_of_role hrole (by simp)
  have nodeFormed := (formed.graph _).nodes node (Array.mem_of_getElem? hnode)
  have hsame : i.graphNode library = node := Graph.node_of_getElem? hnode
  rw [hsame] at hrole hport houtgoing
  obtain hlt | hle := Nat.lt_or_ge port node.ports.size
  · cases hkind : (node.port port).kind with
    | flow => exact hport (GraphNode.mem_flowOutputs.mpr ⟨hlt, houtgoing, hkind⟩)
    | value type => exact (nodeFormed.outgoing_value hlt houtgoing hkind).1 hrole
  · rw [GraphNode.port_of_size_le hle] at houtgoing
    cases houtgoing

/-! ### Sources with another entry graph -/

namespace Sources

/-- The sources with another graph in the place of the entry graph. -/
def withEntry (src : Sources) (graph : Graph) : Sources :=
  { src with library := src.library.setIfInBounds src.entry graph }

/-- Where control goes on from a port of the entry graph that carries a value, no link of the other graph leads to a
node that the entry graph does not have. -/
def Clear (src : Sources) (graph : Graph) : Prop :=
  ∀ i ∈ src.metActions, ∀ port ∈ (i.graphNode src.library).flowOutputs, ∀ spot : Spot,
    ReflTransGen (Spot.PassesFlow src.library) (i.spot port) spot → spot.path.graph = src.entry →
      (spot.portOf src.library).kind ≠ .flow →
        ∀ link ∈ graph.linksFrom spot.ref, link.target.node < (src.library.graph src.entry).nodes.size

variable {src : Sources} {graph : Graph}

theorem graph_withEntry_of_ne {id : GraphId} (h : id ≠ src.entry) :
    (src.withEntry graph).library.graph id = src.library.graph id := by
  rw [withEntry, Library.graph, Library.graph, Array.getD_eq_getD_getElem?, Array.getD_eq_getD_getElem?,
    Array.getElem?_setIfInBounds_ne (Ne.symm h)]

theorem graph_withEntry (hentry : src.entry < src.library.size) :
    (src.withEntry graph).library.graph src.entry = graph := by
  rw [withEntry, Library.graph, Array.getD_eq_getD_getElem?, Array.getElem?_setIfInBounds_self_of_lt hentry]
  rfl

/-- The sources are built, and the graph extends their entry graph. -/
structure Extended (src : Sources) (graph : Graph) : Prop where
  built : src.library.Built
  entry : src.entry < src.library.size
  ext : (src.library.graph src.entry).Extends graph
  clear : src.Clear graph

namespace Extended

variable (h : src.Extended graph)

include h

theorem node_eq {id : GraphId} {index : Nat} (hindex : index < (src.library.graph id).nodes.size) :
    ((src.withEntry graph).library.graph id).node index = (src.library.graph id).node index := by
  obtain rfl | hne := eq_or_ne id src.entry
  · rw [graph_withEntry h.entry, h.ext.node_eq hindex]
  · rw [graph_withEntry_of_ne hne]

theorem name_eq (id : GraphId) : ((src.withEntry graph).library.graph id).name = (src.library.graph id).name := by
  obtain rfl | hne := eq_or_ne id src.entry
  · rw [graph_withEntry h.entry, h.ext.name]
  · rw [graph_withEntry_of_ne hne]

theorem location_eq {id : GraphId} {index : Nat} (hindex : index < (src.library.graph id).nodes.size) :
    ((src.withEntry graph).library.graph id).location index = (src.library.graph id).location index := by
  rw [Graph.location, Graph.location, h.name_eq, h.node_eq hindex]

/-- A called graph is not the entry graph. -/
theorem callee_eq {path : CallPath} (valid : path.Valid src.library src.entry) {via : Nat} {callee : GraphId}
    (hcall : ((src.library.graph path.graph).node via).role = .call callee) :
    (src.withEntry graph).library.graph callee = src.library.graph callee :=
  graph_withEntry_of_ne (Nat.ne_of_lt ((h.built.call_lt hcall).trans_le (h.built.graph_le valid)))

theorem size_le (id : GraphId) :
    (src.library.graph id).nodes.size ≤ ((src.withEntry graph).library.graph id).nodes.size := by
  obtain rfl | hne := eq_or_ne id src.entry
  · rw [graph_withEntry h.entry]
    exact h.ext.size_le
  · rw [graph_withEntry_of_ne hne]

/-! ### Bounds -/

theorem expanded_le {sizes sizes' : GraphId → Nat} (hsizes : ∀ id, sizes id ≤ sizes' id) (id : GraphId) :
    (src.library.graph id).expanded sizes ≤ ((src.withEntry graph).library.graph id).expanded sizes' := by
  obtain ⟨more, hmore⟩ := Nat.exists_eq_add_of_le (h.size_le id)
  rw [Graph.expanded, Graph.expanded, hmore, List.range_add, List.map_append, List.sum_append]
  refine le_add_right (List.sum_le_sum fun index hindex => ?_)
  rw [h.node_eq (List.mem_range.mp hindex), GraphNode.expanded, GraphNode.expanded]
  split
  · exact Nat.add_le_add_left (hsizes _) _
  · exact Nat.le_refl _

theorem wireBound_le : src.library.wireBound src.entry ≤ (src.withEntry graph).library.wireBound src.entry := by
  have hrounds (n : Nat) (id : GraphId) : (Nat.repeat src.library.expand n #[]).getD id 0 ≤
      (Nat.repeat (src.withEntry graph).library.expand n #[]).getD id 0 := by
    induction n generalizing id with
    | zero => exact Nat.le_refl _
    | succ n ih =>
      rw [Nat.repeat, Nat.repeat, Library.getD_expand, Library.getD_expand]
      exact h.expanded_le ih id
  have hsize : (src.withEntry graph).library.size = src.library.size := Array.size_setIfInBounds
  rw [Library.wireBound, Library.wireBound, Library.expandedPorts, Library.expandedPorts, hsize]
  exact Nat.succ_le_succ (hrounds _ _)

theorem taskBound_le : Registry.taskBound src ≤ Registry.taskBound (src.withEntry graph) := by
  have hports : src.maxPorts ≤ (src.withEntry graph).maxPorts := by
    refine Registry.maxPorts_le fun id index => ?_
    by_cases hindex : index < (src.library.graph id).nodes.size
    · rw [← h.node_eq hindex]
      exact Registry.size_ports_le (src.withEntry graph) ⟨.start id, index⟩
    · rw [Graph.node, Array.getD_eq_getD_getElem?, Array.getElem?_eq_none (Nat.not_lt.mp hindex)]
      exact Nat.zero_le _
  exact Nat.succ_le_succ (Nat.mul_le_mul_left _ (by omega))

/-! ### Hops -/

section

variable {path : CallPath} (valid : path.Valid src.library src.entry)

include valid

theorem leaveThrough_eq {α : Type} {node : Nat} (hnode : node < (src.library.graph path.graph).nodes.size)
    (name : String) : (Spot.leaveThrough (src.withEntry graph).library path node name : Hop (Option α) × Trail) =
      Spot.leaveThrough src.library path node name := by
  have hout : Spot.outward? (src.withEntry graph).library path name = Spot.outward? src.library path name := by
    unfold Spot.outward?
    cases hleave : path.leave? with
    | none => rfl
    | some outer =>
      have hcall := (valid.leave hleave).2
      simp only [Option.bind_eq_bind, Option.bind_some, h.node_eq (Graph.lt_of_role hcall (by simp))]
  rw [Spot.leaveThrough, Spot.leaveThrough, hout, h.location_eq hnode]

variable {via : Nat} {callee : GraphId} (hcall : ((src.library.graph path.graph).node via).role = .call callee)

include hcall

theorem enterFlow_eq (name : String) : Spot.enterFlow (src.withEntry graph).library path via callee name =
    Spot.enterFlow src.library path via callee name := by
  simp only [Spot.enterFlow, h.location_eq (Graph.lt_of_role hcall (by simp)), h.callee_eq valid hcall]

theorem enterValue_eq (name : String) (type : ValueType) :
    Spot.enterValue (src.withEntry graph).library path via callee name type =
      Spot.enterValue src.library path via callee name type := by
  simp only [Spot.enterValue, h.location_eq (Graph.lt_of_role hcall (by simp)), h.callee_eq valid hcall]

end

section

variable {spot : Spot} (hnode : spot.node < (spot.graph src.library).nodes.size)

include hnode

theorem portOf_eq : spot.portOf (src.withEntry graph).library = spot.portOf src.library :=
  congrArg (·.port spot.port) (h.node_eq hnode)

theorem site_eq : spot.location (src.withEntry graph).library = spot.location src.library :=
  h.location_eq hnode

theorem ambiguity_eq (others : List Link) :
    spot.ambiguity (src.withEntry graph).library others = spot.ambiguity src.library others := by
  simp only [Spot.ambiguity, h.portOf_eq hnode, h.site_eq hnode]

variable (valid : spot.path.Valid src.library src.entry)

include valid

/-- A hop forwards depends on the links that leave its port. -/
theorem flowHop_eq (hlinks : (spot.graph (src.withEntry graph).library).linksFrom spot.ref =
    (spot.graph src.library).linksFrom spot.ref) :
    spot.flowHop (src.withEntry graph).library = spot.flowHop src.library := by
  rw [Spot.flowHop, Spot.flowHop, hlinks]
  cases hfrom : (spot.graph src.library).linksFrom spot.ref with
  | nil => rfl
  | cons link others =>
    have hlt := Graph.lt_of_linksFrom (h.built.formed.graph _).links hfrom
    have hnext : (spot.graph (src.withEntry graph).library).node link.target.node =
        (spot.graph src.library).node link.target.node := h.node_eq hlt
    have hsite : (spot.graph (src.withEntry graph).library).location link.target.node =
        (spot.graph src.library).location link.target.node := h.location_eq hlt
    simp only [h.ambiguity_eq hnode, hnext, hsite]
    cases hrole : ((spot.graph src.library).node link.target.node).role with
    | call callee => simp only [h.enterFlow_eq valid hrole]
    | output => simp only [h.leaveThrough_eq valid hlt]
    | _ => rfl

/-- A hop backwards depends on the links that arrive at its port, and on these only if the port carries a value. -/
theorem valueHop_eq (hlinks : (spot.portOf src.library).kind ≠ .flow →
    (spot.graph (src.withEntry graph).library).linksTo spot.ref = (spot.graph src.library).linksTo spot.ref) :
    spot.valueHop (src.withEntry graph).library = spot.valueHop src.library := by
  rw [Spot.valueHop, Spot.valueHop, h.portOf_eq hnode, h.site_eq hnode]
  cases hkind : (spot.portOf src.library).kind with
  | flow => rfl
  | value type =>
    simp only [hlinks (by simp [hkind])]
    cases hto : (spot.graph src.library).linksTo spot.ref with
    | nil => rfl
    | cons link others =>
      have hlt := Graph.lt_of_linksTo (h.built.formed.graph _).links hto
      have hnext : (spot.graph (src.withEntry graph).library).node link.source.node =
          (spot.graph src.library).node link.source.node := h.node_eq hlt
      simp only [h.ambiguity_eq hnode, hnext]
      cases hrole : ((spot.graph src.library).node link.source.node).role with
      | call callee => simp only [h.enterValue_eq valid hrole]
      | input => simp only [h.leaveThrough_eq valid hlt]
      | _ => rfl

end

/-! ### Wires -/

/-- What control meets behind a flow port of a met action. -/
theorem linksFrom_eq {i : Instance} (hi : i ∈ src.metActions) {port : Nat}
    (hport : port ∈ (i.graphNode src.library).flowOutputs) {spot : Spot}
    (hlt : spot.node < (spot.graph src.library).nodes.size)
    (hpath : ReflTransGen (Spot.PassesFlow src.library) (i.spot port) spot) :
    (spot.graph (src.withEntry graph).library).linksFrom spot.ref = (spot.graph src.library).linksFrom spot.ref := by
  rw [Spot.graph] at hlt
  rw [Spot.graph, Spot.graph]
  obtain hentry | hne := eq_or_ne spot.path.graph src.entry
  · rw [hentry] at hlt ⊢
    rw [graph_withEntry h.entry]
    -- Links from a flow port never lead to new nodes; for those from a value port this is what `Clear` says.
    by_cases hkind : (spot.portOf src.library).kind = .flow
    · refine h.ext.linksFrom_flow hlt ?_
      rwa [Spot.portOf, Spot.graph, hentry] at hkind
    · exact h.ext.linksFrom_eq hlt (h.clear i hi port hport spot hpath hentry hkind)
  · rw [graph_withEntry_of_ne hne]

theorem linksTo_eq {spot : Spot} (hlt : spot.node < (spot.graph src.library).nodes.size)
    (hkind : (spot.portOf src.library).kind ≠ .flow) :
    (spot.graph (src.withEntry graph).library).linksTo spot.ref = (spot.graph src.library).linksTo spot.ref := by
  rw [Spot.graph] at hlt
  rw [Spot.graph, Spot.graph]
  obtain hentry | hne := eq_or_ne spot.path.graph src.entry
  · rw [Spot.portOf, Spot.graph, hentry] at hkind
    rw [hentry] at hlt ⊢
    rw [graph_withEntry h.entry]
    exact h.ext.linksTo_value hlt hkind
  · rw [graph_withEntry_of_ne hne]

variable {i : Instance} {bound bound' : Nat} (hle : bound ≤ bound') {port : Nat}

include hle

/-- Control runs what it ran. -/
theorem flowTarget_eq (hi : i ∈ src.metActions) (hport : port ∈ (i.graphNode src.library).flowOutputs)
    {found : Option Instance × Trail} (hfound : src.library.flowTarget bound (i.spot port) = .ok found) :
    (src.withEntry graph).library.flowTarget bound' (i.spot port) = .ok found := by
  refine Spot.follow_of_agree hfound hle fun last hpath => ?_
  have within := Spot.kept_of_path (Spot.Within src.library src.entry) (fun _ _ => Spot.PassesFlow.within)
    (Registry.within_of_flowOutputs (Registry.valid_of_met hi.1).1 hport) hpath
  rw [h.flowHop_eq within.node_lt within.path (h.linksFrom_eq hi hport within.node_lt hpath)]

/-- Values come from where they came from. -/
theorem valueSource_eq (hi : src.Met i) (hport : port ∈ (i.graphNode src.library).valueInputs)
    {found : Option ValueSource × Trail} (hfound : src.library.valueSource bound (i.spot port) = .ok found) :
    (src.withEntry graph).library.valueSource bound' (i.spot port) = .ok found := by
  refine Spot.follow_of_agree hfound hle fun last hpath => ?_
  have within := Spot.kept_of_path (Spot.Within src.library src.entry) (fun _ _ => Spot.PassesValue.within)
    (Registry.within_of_valueInputs (Registry.valid_of_met hi).1 hport) hpath
  exact h.valueHop_eq within.node_lt within.path (h.linksTo_eq within.node_lt)

end Extended

end Sources

end BehaviorTree
