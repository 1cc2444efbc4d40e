import BehaviorTree.Proofs.Graph.Formed

/-! Graphs that are extended. Further nodes stand behind those that are there, and further links are drawn that pass
neither control from an old node to a new one nor a value from a new node to an old one. The old nodes see nothing of
all that: they keep their places and their ports, and an old port keeps its links unless a value leaves it for a new
node, or control arrives from one. -/

namespace BehaviorTree

open Refusal

namespace Graph

/-- The graph has the nodes of the base and others behind them, none of which is a root, and the links of the base in
their order and others between them. Of these, none joins two nodes of the base, and only values lead from the base to
the new nodes, and only control from there to the base. -/
structure Extends (base graph : Graph) : Prop where
  name : graph.name = base.name
  nodes : base.nodes.toList <+: graph.nodes.toList
  roots : ∀ index, base.nodes.size ≤ index → (graph.node index).role ≠ .action .root
  formed : ∀ link ∈ graph.links, graph.LinkFormed link
  links : base.links.toList =
    graph.links.toList.filter fun link => link.source.node < base.nodes.size ∧ link.target.node < base.nodes.size
  outgoing : ∀ link ∈ graph.links, link.source.node < base.nodes.size → base.nodes.size ≤ link.target.node →
    ((base.node link.source.node).port link.source.port).kind ≠ .flow
  incoming : ∀ link ∈ graph.links, base.nodes.size ≤ link.source.node → link.target.node < base.nodes.size →
    ((base.node link.target.node).port link.target.port).kind = .flow

variable {base graph : Graph}

theorem lt_of_linksFrom (formed : ∀ link ∈ graph.links, graph.LinkFormed link) {ref : PortRef} {link : Link}
    {others : List Link} (h : graph.linksFrom ref = link :: others) : link.target.node < graph.nodes.size := by
  have hlink : link ∈ graph.linksFrom ref := by simp [h]
  obtain ⟨source, target, joins⟩ := (formed link (Array.mem_toList_iff.mp (List.mem_filter.mp hlink).1)).joins
  exact (Array.getElem?_eq_some_iff.mp joins.targetNode).1

theorem lt_of_linksTo (formed : ∀ link ∈ graph.links, graph.LinkFormed link) {ref : PortRef} {link : Link}
    {others : List Link} (h : graph.linksTo ref = link :: others) : link.source.node < graph.nodes.size := by
  have hlink : link ∈ graph.linksTo ref := by simp [h]
  obtain ⟨source, target, joins⟩ := (formed link (Array.mem_toList_iff.mp (List.mem_filter.mp hlink).1)).joins
  exact (Array.getElem?_eq_some_iff.mp joins.sourceNode).1

/-- Links leave ports that face outwards. -/
theorem linksFrom_eq_nil (formed : ∀ link ∈ graph.links, graph.LinkFormed link) {ref : PortRef}
    (h : ((graph.node ref.node).port ref.port).direction ≠ .outgoing) : graph.linksFrom ref = [] := by
  refine List.filter_eq_nil_iff.mpr fun link hlink hsource => ?_
  obtain rfl := of_decide_eq_true hsource
  obtain ⟨source, target, joins⟩ := (formed link (Array.mem_toList_iff.mp hlink)).joins
  rw [node_of_getElem? joins.sourceNode] at h
  exact h joins.outgoing

/-- Links arrive at ports that face inwards. -/
theorem linksTo_eq_nil (formed : ∀ link ∈ graph.links, graph.LinkFormed link) {ref : PortRef}
    (h : ((graph.node ref.node).port ref.port).direction ≠ .incoming) : graph.linksTo ref = [] := by
  refine List.filter_eq_nil_iff.mpr fun link hlink htarget => ?_
  obtain rfl := of_decide_eq_true htarget
  obtain ⟨source, target, joins⟩ := (formed link (Array.mem_toList_iff.mp hlink)).joins
  rw [node_of_getElem? joins.targetNode] at h
  exact h joins.incoming

namespace Extends

variable (ext : base.Extends graph)

include ext

theorem size_le : base.nodes.size ≤ graph.nodes.size := by
  simpa using ext.nodes.length_le

theorem node_eq {index : Nat} (h : index < base.nodes.size) : graph.node index = base.node index := by
  obtain ⟨others, hnodes⟩ := ext.nodes
  rw [Graph.node, Graph.node, Array.getD_eq_getD_getElem?, Array.getD_eq_getD_getElem?, ← Array.getElem?_toList,
    ← Array.getElem?_toList, ← hnodes, List.getElem?_append_left (by simpa using h)]

/-- A port from which no link leads to a new node has the links that it had. -/
theorem linksFrom_eq {ref : PortRef} (href : ref.node < base.nodes.size)
    (h : ∀ link ∈ graph.linksFrom ref, link.target.node < base.nodes.size) :
    graph.linksFrom ref = base.linksFrom ref := by
  rw [linksFrom, linksFrom, ext.links, List.filter_filter]
  refine List.filter_congr fun link hlink => ?_
  by_cases hsource : link.source = ref
  · have htarget := h link (List.mem_filter.mpr ⟨hlink, decide_eq_true hsource⟩)
    simp [hsource, href, htarget]
  · simp [hsource]

/-- A port at which no link from a new node arrives has the links that it had. -/
theorem linksTo_eq {ref : PortRef} (href : ref.node < base.nodes.size)
    (h : ∀ link ∈ graph.linksTo ref, link.source.node < base.nodes.size) :
    graph.linksTo ref = base.linksTo ref := by
  rw [linksTo, linksTo, ext.links, List.filter_filter]
  refine List.filter_congr fun link hlink => ?_
  by_cases htarget : link.target = ref
  · have hsource := h link (List.mem_filter.mpr ⟨hlink, decide_eq_true htarget⟩)
    simp [htarget, href, hsource]
  · simp [htarget]

/-- Control leaves an old port as it did. -/
theorem linksFrom_flow {ref : PortRef} (href : ref.node < base.nodes.size)
    (hkind : ((base.node ref.node).port ref.port).kind = .flow) : graph.linksFrom ref = base.linksFrom ref := by
  refine ext.linksFrom_eq href fun link hlink => ?_
  obtain ⟨hmem, hsource⟩ := List.mem_filter.mp hlink
  obtain rfl := of_decide_eq_true hsource
  by_contra hnew
  exact ext.outgoing link (Array.mem_toList_iff.mp hmem) href (Nat.not_lt.mp hnew) hkind

/-- An old port is fed as it was. -/
theorem linksTo_value {ref : PortRef} (href : ref.node < base.nodes.size)
    (hkind : ((base.node ref.node).port ref.port).kind ≠ .flow) : graph.linksTo ref = base.linksTo ref := by
  refine ext.linksTo_eq href fun link hlink => ?_
  obtain ⟨hmem, htarget⟩ := List.mem_filter.mp hlink
  obtain rfl := of_decide_eq_true htarget
  by_contra hnew
  exact hkind (ext.incoming link (Array.mem_toList_iff.mp hmem) (Nat.not_lt.mp hnew) href)

end Extends

/-! ### Extending by edits -/

/-- Links the ports if they can be linked. -/
def link (graph : Graph) (source target : Nat × String) : Graph :=
  (graph.connect source target).toOption.getD graph

theorem node_of_resolvePort {index : Nat} {name : String} {direction : Direction} {ref : PortRef} {kind : PortKind}
    (h : graph.resolvePort index name direction = .ok (ref, kind)) :
    ref.node = index ∧ ((graph.node ref.node).port ref.port).kind = kind := by
  obtain ⟨node, -, hnode, -, -, hkind⟩ := hasPort_of_resolvePort h
  rw [node_of_getElem? hnode]
  refine ⟨?_, hkind⟩
  unfold resolvePort at h
  split at h
  next => cases h
  next =>
    split at h
    next => cases h
    next =>
      split_ifs at h
      obtain ⟨rfl, -⟩ := Prod.mk.inj (Except.ok.inj h)
      rfl

/-- A graph extends itself. -/
theorem Extends.refl (formed : ∀ link ∈ base.links, base.LinkFormed link) : base.Extends base := by
  have hends (link : Link) (hlink : link ∈ base.links) :
      link.source.node < base.nodes.size ∧ link.target.node < base.nodes.size := by
    obtain ⟨source, target, joins⟩ := (formed link hlink).joins
    exact ⟨(Array.getElem?_eq_some_iff.mp joins.sourceNode).1, (Array.getElem?_eq_some_iff.mp joins.targetNode).1⟩
  refine ⟨rfl, List.prefix_refl _, fun index hindex => ?_, formed, ?_, fun link hlink _ hnew => ?_,
    fun link hlink hnew => ?_⟩
  · rw [node, Array.getD_eq_getD_getElem?, Array.getElem?_eq_none hindex]
    exact Role.noConfusion
  · refine (List.filter_eq_self.mpr fun link hlink => ?_).symm
    exact decide_eq_true (hends link (Array.mem_toList_iff.mp hlink))
  · exact absurd (hends link hlink).2 (Nat.not_lt.mpr hnew)
  · exact absurd (hends link hlink).1 (Nat.not_lt.mpr hnew)

/-- Any node may be added but a root. -/
theorem Extends.add (ext : base.Extends graph) (spec : NodeSpec) (h : spec.role ≠ .action .root) :
    base.Extends (graph.add spec).1 := by
  refine ⟨ext.name, ext.nodes.trans ?_, fun index hindex => ?_, fun link hlink => ?_, ext.links, ext.outgoing,
    ext.incoming⟩
  · rw [Graph.add, Array.toList_push]
    exact List.prefix_append _ _
  · rw [node, Array.getD_eq_getD_getElem?, Graph.add, Array.getElem?_push]
    split_ifs
    · exact h
    · rw [← Array.getD_eq_getD_getElem?]
      exact ext.roots index hindex
  · have hsame (index : Nat) (node : GraphNode) (hnode : graph.nodes[index]? = some node) :
        ∃ node', (graph.add spec).1.nodes[index]? = some node' ∧
          node'.ports.toList.map Port.bare = node.ports.toList.map Port.bare :=
      ⟨node, getElem?_add spec hnode, rfl⟩
    obtain ⟨kind, hsource, htarget⟩ := ext.formed link hlink
    exact ⟨kind, hsource.of_bare hsame, htarget.of_bare hsame⟩

/-- Ports may be linked if one of them is new, and if not control leads to the new one, or a value from it. -/
theorem Extends.link (ext : base.Extends graph) (source target : Nat × String) (kind : PortKind)
    (hkind : (graph.resolvePort source.1 source.2 .outgoing).map Prod.snd = .ok kind)
    (hends : base.nodes.size ≤ source.1 ∨ base.nodes.size ≤ target.1)
    (hout : source.1 < base.nodes.size → kind ≠ .flow) (hin : target.1 < base.nodes.size → kind = .flow) :
    base.Extends (graph.link source target) := by
  rw [Graph.link]
  cases hconnect : graph.connect source target with
  | error e => exact ext
  | ok graph' =>
    obtain ⟨⟨sourceRef, sourceKind⟩, hsource, hrest⟩ := bind_eq_ok_iff.mp hconnect
    obtain ⟨⟨targetRef, targetKind⟩, htarget, hrest⟩ := bind_eq_ok_iff.mp hrest
    dsimp only at hrest
    split_ifs at hrest with hsame
    obtain rfl := Except.ok.inj hrest
    obtain rfl : sourceKind = kind := by
      rw [hsource] at hkind
      exact Except.ok.inj hkind
    obtain ⟨hsourceNode, hsourceKind⟩ := node_of_resolvePort hsource
    obtain ⟨htargetNode, htargetKind⟩ := node_of_resolvePort htarget
    have hpush {p : Link → Prop} (hold : ∀ link ∈ graph.links, p link) (hnew : p ⟨sourceRef, targetRef⟩)
        (link : Link) (hlink : link ∈ graph.links.push ⟨sourceRef, targetRef⟩) : p link :=
      (Array.mem_push.mp hlink).elim (hold link) fun h => h ▸ hnew
    refine ⟨ext.name, ext.nodes, ext.roots, hpush ext.formed ?_, ?_, hpush ext.outgoing ?_, hpush ext.incoming ?_⟩
    · exact ⟨sourceKind, hasPort_of_resolvePort hsource, hsame ▸ hasPort_of_resolvePort htarget⟩
    · have hnew : ¬(sourceRef.node < base.nodes.size ∧ targetRef.node < base.nodes.size) := by omega
      change base.links.toList = (graph.links.push ⟨sourceRef, targetRef⟩).toList.filter _
      simpa [List.filter_append, hnew] using ext.links
    · intro hold _
      rw [← ext.node_eq hold, hsourceKind]
      exact hout (hsourceNode ▸ hold)
    · intro _ hold
      rw [← ext.node_eq hold, htargetKind, ← hsame]
      exact hin (htargetNode ▸ hold)

end Graph

end BehaviorTree
