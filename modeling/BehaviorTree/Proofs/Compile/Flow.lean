import BehaviorTree.Proofs.Compile.Wire

/-! Control flow across the boundaries of called graphs, said without the walk along the wires, and the
instances that are reached this way. -/

namespace BehaviorTree

/-- What an outgoing flow port runs. A link to a call goes on behind the input node of the called graph, one to an
output node behind the call that led to its graph. Without a link nothing is run. -/
inductive FlowsTo (library : Library) : Spot → Option Instance → Prop
  | none {spot : Spot} (h : (spot.graph library).linksFrom spot.ref = []) : FlowsTo library spot none
  | action {spot : Spot} {link : Link} (hlink : link ∈ (spot.graph library).linksFrom spot.ref) {a : Action}
    (hrole : ((spot.graph library).node link.target.node).role = .action a) :
    FlowsTo library spot (some ⟨spot.path, link.target.node⟩)
  | enter {spot : Spot} {link : Link} (hlink : link ∈ (spot.graph library).linksFrom spot.ref) {callee : GraphId}
    (hrole : ((spot.graph library).node link.target.node).role = .call callee) {input port : Nat} {node : GraphNode}
    (hnode : (library.graph callee).nodes[input]? = some node) (hinput : node.role = .input)
    (hport : node.port? (((spot.graph library).node link.target.node).port link.target.port).name = some port)
    {target : Option Instance} (next : FlowsTo library ⟨spot.path.enter link.target.node callee, input, port⟩ target) :
    FlowsTo library spot target
  | leave {spot : Spot} {link : Link} (hlink : link ∈ (spot.graph library).linksFrom spot.ref)
    (hrole : ((spot.graph library).node link.target.node).role = .output) {outer : CallPath} {via port : Nat}
    (hleave : spot.path.leave? = some (outer, via))
    (hport : ((library.graph outer.graph).node via).port?
      (((spot.graph library).node link.target.node).port link.target.port).name = some port)
    {target : Option Instance} (next : FlowsTo library ⟨outer, via, port⟩ target) : FlowsTo library spot target

/-- The instances that are run from the root, directly or not. -/
inductive Reached (library : Library) (entry : GraphId) : Instance → Prop
  | root {index : Nat} (h : ((library.graph entry).node index).role = .action .root) :
    Reached library entry ⟨.start entry, index⟩
  | child {i j : Instance} (reached : Reached library entry i) {port : Nat}
    (hport : port ∈ (i.graphNode library).flowOutputs) (h : FlowsTo library ⟨i.path, i.node, port⟩ (some j)) :
    Reached library entry j

variable {library : Library} {entry : GraphId}

/-- Control only runs actions, on paths of calls that are there. -/
theorem FlowsTo.action_of_valid {spot : Spot} {target : Option Instance} (h : FlowsTo library spot target)
    (valid : spot.path.Valid library entry) {j : Instance} (hj : target = some j) :
    j.path.Valid library entry ∧ ∃ a, (j.graphNode library).role = .action a := by
  induction h with
  | none => cases hj
  | action hlink hrole =>
    obtain rfl := Option.some.inj hj
    exact ⟨valid, _, hrole⟩
  | enter hlink hrole hnode hinput hport next ih => exact ih (.enter valid hrole) hj
  | leave hlink hrole hleave hport next ih => exact ih (valid.leave hleave).1 hj

theorem Reached.action {i : Instance} (reached : Reached library entry i) :
    i.path.Valid library entry ∧ ∃ a, (i.graphNode library).role = .action a := by
  induction reached with
  | root h => exact ⟨.start, _, h⟩
  | child reached hport h ih => exact h.action_of_valid ih.1 rfl

namespace GraphNode

theorem mem_portsWhere {node : GraphNode} {direction : Direction} {flow : Bool} {port : Nat} :
    port ∈ node.portsWhere direction flow ↔
      port < node.ports.size ∧ (node.port port).direction = direction ∧ ((node.port port).kind = .flow ↔ flow = true) := by
  rw [portsWhere, List.mem_filter, List.mem_range]
  cases flow <;> simp

theorem mem_flowOutputs {node : GraphNode} {port : Nat} :
    port ∈ node.flowOutputs ↔
      port < node.ports.size ∧ (node.port port).direction = .outgoing ∧ (node.port port).kind = .flow := by
  simp [flowOutputs, mem_portsWhere]

theorem mem_valueInputs {node : GraphNode} {port : Nat} :
    port ∈ node.valueInputs ↔
      port < node.ports.size ∧ (node.port port).direction = .incoming ∧ ∃ type, (node.port port).kind = .value type := by
  rw [valueInputs, mem_portsWhere]
  cases (node.port port).kind <;> simp

/-- Control does not run into operators or out of a graph backwards. -/
theorem Formed.incoming_flow {node : GraphNode} (formed : node.Formed library) {name : String} {k : Nat}
    (hport : node.port? name = some k) (hincoming : (node.port k).direction = .incoming)
    (hflow : (node.port k).kind = .flow) : (∀ {op : Operator}, node.role ≠ .operator op) ∧ node.role ≠ .input := by
  obtain ⟨spec, known, built⟩ := formed
  obtain ⟨port, hmem, -, hdirection, hkind⟩ := built.exists_port (port?_eq_some hport).1
  rw [hincoming] at hdirection
  rw [hflow] at hkind
  rw [built.role]
  cases spec <;> simp [NodeSpec.role] <;> simp [NodeSpec.ports, Port.valueIn, Port.valueOut] at hmem <;> aesop

end GraphNode

namespace Spot

variable {spot : Spot}

/-- A port on the way of control. A port of a call that faces the wrong way has no links. -/
structure Controls (library : Library) (entry : GraphId) (spot : Spot) : Prop where
  path : spot.path.Valid library entry
  kind : (spot.portOf library).direction = .outgoing → (spot.portOf library).kind = .flow

/-- Where control goes behind the only link of a port. -/
theorem flowsTo_iff {link : Link} {target : GraphNode} (hlinks : (spot.graph library).linksFrom spot.ref = [link])
    (htarget : (spot.graph library).node link.target.node = target) {other : Option Instance} :
    FlowsTo library spot other ↔
      (∃ a, target.role = .action a ∧ other = some ⟨spot.path, link.target.node⟩) ∨
      (∃ callee input port node, target.role = .call callee ∧ (library.graph callee).nodes[input]? = some node ∧
        node.role = .input ∧ node.port? (target.port link.target.port).name = some port ∧
        FlowsTo library ⟨spot.path.enter link.target.node callee, input, port⟩ other) ∨
      ∃ outer via port, target.role = .output ∧ spot.path.leave? = some (outer, via) ∧
        ((library.graph outer.graph).node via).port? (target.port link.target.port).name = some port ∧
        FlowsTo library ⟨outer, via, port⟩ other := by
  subst htarget
  have honly {link' : Link} (h : link' ∈ (spot.graph library).linksFrom spot.ref) : link' = link := by
    simpa [hlinks] using h
  have hlink : link ∈ (spot.graph library).linksFrom spot.ref := by simp [hlinks]
  constructor
  · intro h
    cases h with
    | none h => cases h.symm.trans hlinks
    | action h hrole =>
      obtain rfl := honly h
      exact .inl ⟨_, hrole, rfl⟩
    | enter h hrole hnode hinput hport next =>
      obtain rfl := honly h
      exact .inr (.inl ⟨_, _, _, _, hrole, hnode, hinput, hport, next⟩)
    | leave h hrole hleave hport next =>
      obtain rfl := honly h
      exact .inr (.inr ⟨_, _, _, hrole, hleave, hport, next⟩)
  · rintro (⟨a, hrole, rfl⟩ | ⟨callee, input, port, node, hrole, hnode, hinput, hport, next⟩ |
      ⟨outer, via, port, hrole, hleave, hport, next⟩)
    · exact .action hlink hrole
    · exact .enter hlink hrole hnode hinput hport next
    · exact .leave hlink hrole hleave hport next

/-- Without a link nothing is run. -/
theorem flowsTo_none_iff (hlinks : (spot.graph library).linksFrom spot.ref = []) {other : Option Instance} :
    FlowsTo library spot other ↔ other = none := by
  constructor
  · intro h
    cases h with
    | none => rfl
    | action h | enter h | leave h => simp [hlinks] at h
  · rintro rfl
    exact .none hlinks

/-- What a hop says about where control goes. -/
def Resolves (library : Library) (entry : GraphId) (spot : Spot) : Hop (Option Instance) → Prop
  | .stop target => ∀ other, FlowsTo library spot other ↔ other = target
  | .onward next => next.Controls library entry ∧ ∀ other, FlowsTo library spot other ↔ FlowsTo library next other

/-- A link from a port leads from a flow port to a flow port. -/
theorem Controls.joins (formed : library.Formed) (controls : spot.Controls library entry) {link : Link}
    (h : link ∈ (spot.graph library).linksFrom spot.ref) :
    ∃ source target, (spot.graph library).Joins link source target ∧ (target.port link.target.port).kind = .flow := by
  obtain ⟨hmem, hsource⟩ : link ∈ (spot.graph library).links ∧ link.source = spot.ref := by
    simpa [Graph.linksFrom] using h
  obtain ⟨source, target, joins⟩ := ((formed.graph spot.path.graph).links link hmem).joins
  have hport : spot.portOf library = source.port link.source.port := by
    rw [hsource, portOf, ← Graph.node_of_getElem? joins.sourceNode, hsource]
    rfl
  refine ⟨source, target, joins, ?_⟩
  rw [← joins.kind, ← hport]
  exact controls.kind (by rw [hport]; exact joins.outgoing)

variable {link : Link} {source target : GraphNode}

/-- Control enters a called graph through a flow port. -/
theorem enterFlow_controls (formed : library.Formed) (valid : spot.path.Valid library entry)
    (joins : (spot.graph library).Joins link source target) (hflow : (target.port link.target.port).kind = .flow)
    {callee : GraphId} (hrole : target.role = .call callee) {next : Spot}
    (h : (enterFlow library spot.path link.target.node callee (target.port link.target.port).name).1 = .onward next) :
    next.Controls library entry := by
  have htarget : (spot.graph library).node link.target.node = target := Graph.node_of_getElem? joins.targetNode
  have targetFormed := (formed.graph spot.path.graph).nodes target (Array.mem_of_getElem? joins.targetNode)
  obtain ⟨input, port, hport, hkind, ⟨-, hinput⟩ | ⟨houtgoing, -⟩⟩ :=
    targetFormed.port?_call_cases hrole joins.targetPort
  case inr => cases joins.incoming.symm.trans houtgoing
  simp only [enterFlow, hinput, hport] at h
  split at h
  · cases h
  · obtain rfl := Hop.onward.inj h
    exact ⟨.enter valid ((congrArg GraphNode.role htarget).trans hrole), fun _ => hkind.symm.trans hflow⟩

/-- Control leaves a called graph through a flow port, as long as the graph has one output node. -/
theorem leaveThrough_controls (formed : library.Formed) (bounded : library.Bounded entry)
    (valid : spot.path.Valid library entry) (joins : (spot.graph library).Joins link source target)
    (hflow : (target.port link.target.port).kind = .flow) (hrole : target.role = .output) {α : Type} {next : Spot}
    (h : (leaveThrough library spot.path link.target.node (target.port link.target.port).name :
      Hop (Option α) × Trail).1 = .onward next) : next.Controls library entry := by
  have htarget : (spot.graph library).node link.target.node = target := Graph.node_of_getElem? joins.targetNode
  unfold leaveThrough at h
  dsimp only at h
  split at h
  case h_2 => cases h
  case h_1 other hout =>
    obtain rfl := Hop.onward.inj h
    obtain ⟨⟨outer, via⟩, hleave, hout⟩ := Option.bind_eq_some_iff.mp hout
    obtain ⟨port, hport, hnext⟩ := Option.bind_eq_some_iff.mp hout
    obtain rfl := Option.some.inj hnext
    obtain ⟨outerValid, hcallee⟩ := valid.leave hleave
    refine ⟨outerValid, fun houtgoing => ?_⟩
    obtain ⟨call, hcall, hcallRole⟩ := Graph.getElem?_of_role hcallee (by simp)
    have callFormed := (formed.graph outer.graph).nodes call (Array.mem_of_getElem? hcall)
    rw [Graph.node_of_getElem? hcall] at hport
    rw [portOf_eq hcall] at houtgoing ⊢
    obtain ⟨output, k, hname, hkind, ⟨hincoming, -⟩ | ⟨-, houtput⟩⟩ := callFormed.port?_call_cases hcallRole hport
    · cases hincoming.symm.trans houtgoing
    · have hsame := (Graph.findIdx?_role (bounded _ valid).2 joins.targetNode hrole).symm.trans houtput
      obtain rfl := Option.some.inj hsame
      change ((spot.graph library).node _).port? _ = _ at hname
      change _ = (((spot.graph library).node _).port k).kind at hkind
      rw [htarget, joins.targetPort] at hname
      obtain rfl := Option.some.inj hname
      rw [hkind, htarget, hflow]

/-- Control goes on through flow ports, whatever is wrong on the way. -/
theorem flowHop_controls (formed : library.Formed) (bounded : library.Bounded entry)
    (controls : spot.Controls library entry) {next : Spot} (h : (flowHop library spot).1 = .onward next) :
    next.Controls library entry := by
  unfold flowHop at h
  dsimp only at h
  split at h
  next => cases h
  next link others hlinks =>
    obtain ⟨source, target, joins, hflow⟩ := controls.joins formed (show link ∈ _ by simp [hlinks])
    have htarget : (spot.graph library).node link.target.node = target := Graph.node_of_getElem? joins.targetNode
    rw [htarget] at h
    cases hrole : target.role with
    | call callee =>
      rw [hrole] at h
      exact enterFlow_controls formed controls.path joins hflow hrole h
    | output =>
      rw [hrole] at h
      exact leaveThrough_controls formed bounded controls.path joins hflow hrole h
    | action | operator | input =>
      rw [hrole] at h
      cases h

/-- Control that meets a call goes on in the called graph. -/
theorem enterFlow_resolves (formed : library.Formed) (bounded : library.Bounded entry)
    (valid : spot.path.Valid library entry) (hlinks : (spot.graph library).linksFrom spot.ref = [link])
    (joins : (spot.graph library).Joins link source target) (hflow : (target.port link.target.port).kind = .flow)
    {callee : GraphId} (hrole : target.role = .call callee) {hop : Hop (Option Instance)} {seen : Trail}
    (h : enterFlow library spot.path link.target.node callee (target.port link.target.port).name = (hop, seen)) :
    spot.Resolves library entry hop := by
  have htarget : (spot.graph library).node link.target.node = target := Graph.node_of_getElem? joins.targetNode
  have targetFormed := (formed.graph spot.path.graph).nodes target (Array.mem_of_getElem? joins.targetNode)
  obtain ⟨input, port, hport, -, ⟨-, hinput⟩ | ⟨houtgoing, -⟩⟩ :=
    targetFormed.port?_call_cases hrole joins.targetPort
  case inr => cases joins.incoming.symm.trans houtgoing
  obtain ⟨node, hnode, hnodeRole⟩ := Graph.of_findIdx?_role hinput
  have hnext : (spot.path.enter link.target.node callee).Valid library entry :=
    .enter valid ((congrArg GraphNode.role htarget).trans hrole)
  have honward (other : Option Instance) : FlowsTo library spot other ↔
      FlowsTo library ⟨spot.path.enter link.target.node callee, input, port⟩ other := by
    rw [flowsTo_iff hlinks htarget]
    constructor
    · rintro (⟨a, hother, -⟩ | ⟨callee', input', port', node', hother, hnode', hinput', hport', next⟩ |
        ⟨outer, via, port', hother, -⟩)
      · cases hother.symm.trans hrole
      · obtain rfl := Role.call.inj (hother.symm.trans hrole)
        obtain rfl : input' = input := (bounded _ hnext).1 input' input node' node hnode' hnode hinput' hnodeRole
        rw [Graph.node_of_getElem? hnode'] at hport
        obtain rfl := Option.some.inj (hport'.symm.trans hport)
        exact next
      · cases hother.symm.trans hrole
    · intro next
      rw [Graph.node_of_getElem? hnode] at hport
      exact .inr (.inl ⟨callee, input, port, node, hrole, hnode, hnodeRole, hport, next⟩)
  have controls (next : Spot) (hnext : hop = .onward next) : next.Controls library entry :=
    enterFlow_controls formed valid joins hflow hrole ((congrArg Prod.fst h).trans hnext)
  simp only [enterFlow, hinput, hport] at h
  split at h
  next hnone =>
    obtain ⟨rfl, -⟩ := Prod.mk.inj h
    exact fun other => (honward other).trans (flowsTo_none_iff (by exact hnone))
  next =>
    obtain ⟨rfl, -⟩ := Prod.mk.inj h
    exact ⟨controls _ rfl, honward⟩

/-- Control that meets an output node goes on behind the call. -/
theorem leaveThrough_resolves (formed : library.Formed) (bounded : library.Bounded entry)
    (valid : spot.path.Valid library entry) (hlinks : (spot.graph library).linksFrom spot.ref = [link])
    (joins : (spot.graph library).Joins link source target) (hflow : (target.port link.target.port).kind = .flow)
    (hrole : target.role = .output) {hop : Hop (Option Instance)} {seen : Trail}
    (h : leaveThrough library spot.path link.target.node (target.port link.target.port).name = (hop, seen))
    (hclean : seen.errors = []) : spot.Resolves library entry hop := by
  have htarget : (spot.graph library).node link.target.node = target := Graph.node_of_getElem? joins.targetNode
  have controls (next : Spot) (hnext : hop = .onward next) : next.Controls library entry :=
    leaveThrough_controls formed bounded valid joins hflow hrole ((congrArg Prod.fst h).trans hnext)
  unfold leaveThrough at h
  cases hout : outward? library spot.path (target.port link.target.port).name with
  | none =>
    rw [hout] at h
    obtain ⟨-, rfl⟩ := Prod.mk.inj h
    cases hclean
  | some next =>
    rw [hout] at h
    obtain ⟨rfl, -⟩ := Prod.mk.inj h
    obtain ⟨⟨outer, via⟩, hleave, hout⟩ := Option.bind_eq_some_iff.mp hout
    obtain ⟨port, hport, hnext⟩ := Option.bind_eq_some_iff.mp hout
    obtain rfl := Option.some.inj hnext
    refine ⟨controls _ rfl, fun other => ?_⟩
    rw [flowsTo_iff hlinks htarget]
    constructor
    · rintro (⟨a, hother, -⟩ | ⟨callee, _, _, _, hother, -⟩ | ⟨outer', via', port', -, hleave', hport', next⟩)
      · cases hother.symm.trans hrole
      · cases hother.symm.trans hrole
      · obtain ⟨rfl, rfl⟩ := Prod.mk.inj (Option.some.inj (hleave'.symm.trans hleave))
        obtain rfl := Option.some.inj (hport'.symm.trans hport)
        exact next
    · intro next
      exact .inr (.inr ⟨outer, via, port, hrole, hleave, hport, next⟩)

theorem eq_nil_of_ambiguity {others : List Link} (h : (spot.ambiguity library others).errors = []) : others = [] := by
  cases others with
  | nil => rfl
  | cons link others => cases h

/-- A hop without errors keeps where control goes. -/
theorem flowHop_resolves (formed : library.Formed) (bounded : library.Bounded entry)
    (controls : spot.Controls library entry) {hop : Hop (Option Instance)} {seen : Trail}
    (h : flowHop library spot = (hop, seen)) (hclean : seen.errors = []) : spot.Resolves library entry hop := by
  simp only [flowHop] at h
  split at h
  next hlinks =>
    obtain ⟨rfl, -⟩ := Prod.mk.inj h
    exact fun other => flowsTo_none_iff hlinks
  next link others hlinks =>
    obtain ⟨source, target, joins, hflow⟩ := controls.joins formed (show link ∈ _ by simp [hlinks])
    have htarget : (spot.graph library).node link.target.node = target := Graph.node_of_getElem? joins.targetNode
    rw [htarget] at h
    have targetFormed := (formed.graph spot.path.graph).nodes target (Array.mem_of_getElem? joins.targetNode)
    obtain ⟨rfl, rfl⟩ := Prod.mk.inj h
    obtain ⟨hothers, hclean⟩ := List.append_eq_nil_iff.mp hclean
    obtain rfl := eq_nil_of_ambiguity hothers
    cases hrole : target.role with
    | action a =>
      intro other
      simp [flowsTo_iff hlinks htarget, hrole]
    | call callee =>
      simp only [hrole] at hclean ⊢
      exact enterFlow_resolves formed bounded controls.path hlinks joins hflow hrole rfl
    | output =>
      simp only [hrole] at hclean ⊢
      exact leaveThrough_resolves formed bounded controls.path hlinks joins hflow hrole rfl hclean
    | operator op =>
      exact absurd hrole (targetFormed.incoming_flow joins.targetPort joins.incoming hflow).1
    | input =>
      exact absurd hrole (targetFormed.incoming_flow joins.targetPort joins.incoming hflow).2

end Spot

/-- What the compiler finds at the end of a wire is what control runs. -/
theorem Library.flowTarget_iff (formed : library.Formed) (bounded : library.Bounded entry) {bound : Nat} {spot : Spot}
    (controls : spot.Controls library entry) {target : Option Instance} {trail : Trail}
    (h : library.flowTarget bound spot = .ok (target, trail)) (hclean : trail.errors = []) (other : Option Instance) :
    FlowsTo library spot other ↔ other = target := by
  have hstop : ∀ next target seen, (next.Controls library entry ∧
      ∀ other, FlowsTo library spot other ↔ FlowsTo library next other) →
      (Except.ok (next.flowHop library) : Except Fault _) = .ok (.stop target, seen) → seen.errors = [] →
      ∀ other, FlowsTo library spot other ↔ other = target :=
    fun next target seen ⟨controls, hsame⟩ hhop hclean other =>
      (hsame other).trans (Spot.flowHop_resolves formed bounded controls (Except.ok.inj hhop) hclean other)
  have honward : ∀ next further seen, (next.Controls library entry ∧
      ∀ other, FlowsTo library spot other ↔ FlowsTo library next other) →
      (Except.ok (next.flowHop library) : Except Fault _) = .ok (.onward further, seen) → seen.errors = [] →
      further.Controls library entry ∧ ∀ other, FlowsTo library spot other ↔ FlowsTo library further other := by
    rintro next further seen ⟨controls, hsame⟩ hhop hclean
    obtain ⟨hnext, hfurther⟩ := Spot.flowHop_resolves formed bounded controls (Except.ok.inj hhop) hclean
    exact ⟨hnext, fun other => (hsame other).trans (hfurther other)⟩
  exact Spot.follow_spec hstop honward ⟨controls, fun _ => Iff.rfl⟩ h hclean other

end BehaviorTree
