import BehaviorTree.Proofs.Compile.Wire

/-! How far wires run. A called graph stands before its caller, so that only finitely many ports can be met from
an entry graph; a wire that never comes back to a port ends before it has met them all. -/

namespace BehaviorTree

open Relation Refusal

/-! ### Wires as chains of hops -/

namespace Spot

variable {α : Type} {hop : Spot → Except Fault (Hop α × Trail)} {spot next : Spot}

/-- A hop leads from one port to the next. -/
def Passes (hop : Spot → Except Fault (Hop α × Trail)) (spot next : Spot) : Prop :=
  ∃ seen, hop spot = .ok (.onward next, seen)

/-- The wire of a port ends with a result. -/
def Ends (hop : Spot → Except Fault (Hop α × Trail)) (spot : Spot) (a : α) : Prop :=
  ∃ last seen, ReflTransGen (Passes hop) spot last ∧ hop last = .ok (.stop a, seen)

/-- The wire of a port ends with a fault. -/
def Breaks (hop : Spot → Except Fault (Hop α × Trail)) (spot : Spot) (fault : Fault) : Prop :=
  ∃ last, ReflTransGen (Passes hop) spot last ∧ hop last = .error fault

theorem Ends.head (passes : Passes hop spot next) {a : α} (h : Ends hop next a) : Ends hop spot a := by
  obtain ⟨last, seen, hpath, hlast⟩ := h
  exact ⟨last, seen, .head passes hpath, hlast⟩

theorem Breaks.head (passes : Passes hop spot next) {fault : Fault} (h : Breaks hop next fault) :
    Breaks hop spot fault := by
  obtain ⟨last, hpath, hlast⟩ := h
  exact ⟨last, .head passes hpath, hlast⟩

/-- The last hop speaks for its wire. -/
theorem last_of_follow {ports : Nat} {before : List Trail} {a : α} {trail : Trail}
    (h : follow hop ports spot before = .ok (a, trail)) :
    ∃ last seen, ReflTransGen (Passes hop) spot last ∧ hop last = .ok (.stop a, seen) ∧
      seen.errors ⊆ trail.errors ∧ seen.warnings ⊆ trail.warnings := by
  induction ports generalizing spot before with
  | zero => cases h
  | succ ports ih =>
    rw [follow] at h
    split at h
    next => cases h
    next result seen hhop =>
      obtain ⟨rfl, rfl⟩ := Prod.mk.inj (Except.ok.inj h)
      have hmem : seen ∈ (seen :: before).reverse := by simp
      exact ⟨spot, seen, .refl, hhop, fun _ he => List.mem_flatMap_of_mem hmem he,
        fun _ hw => List.mem_flatMap_of_mem hmem hw⟩
    next next seen hhop =>
      obtain ⟨last, seen', hpath, hlast⟩ := ih h
      exact ⟨last, seen', .head ⟨seen, hhop⟩ hpath, hlast⟩

theorem ends_of_follow {ports : Nat} {before : List Trail} {a : α} {trail : Trail}
    (h : follow hop ports spot before = .ok (a, trail)) : Ends hop spot a := by
  obtain ⟨last, seen, hpath, hlast, -⟩ := last_of_follow h
  exact ⟨last, seen, hpath, hlast⟩

theorem Passes.rightUnique : Relator.RightUnique (Passes hop) := by
  rintro spot next next' ⟨seen, hnext⟩ ⟨seen', hnext'⟩
  obtain ⟨rfl⟩ := Hop.onward.inj (Prod.mk.inj (Except.ok.inj (hnext.symm.trans hnext'))).1
  rfl

/-- A wire has one end. -/
theorem last_unique {last last' : Spot} (h : ReflTransGen (Passes hop) spot last)
    (h' : ReflTransGen (Passes hop) spot last') (hlast : ∀ next, ¬Passes hop last next)
    (hlast' : ∀ next, ¬Passes hop last' next) : last = last' := by
  have hstay {last other : Spot} (hlast : ∀ next, ¬Passes hop last next) (h : ReflTransGen (Passes hop) last other) :
      last = other :=
    h.cases_head.resolve_right fun ⟨next, passes, _⟩ => hlast next passes
  rcases h.total_of_right_unique Passes.rightUnique h' with h | h
  · exact hstay hlast h
  · exact (hstay hlast' h).symm

theorem not_passes_of_stop {a : α} {seen : Trail} (h : hop spot = .ok (.stop a, seen)) (next : Spot) :
    ¬Passes hop spot next := by
  rintro ⟨seen', hpasses⟩
  cases h.symm.trans hpasses

theorem not_passes_of_error {fault : Fault} (h : hop spot = .error fault) (next : Spot) : ¬Passes hop spot next := by
  rintro ⟨seen, hpasses⟩
  cases h.symm.trans hpasses

theorem Ends.unique {a b : α} (ends : Ends hop spot a) (ends' : Ends hop spot b) : a = b := by
  obtain ⟨last, seen, hpath, hlast⟩ := ends
  obtain ⟨last', seen', hpath', hlast'⟩ := ends'
  obtain rfl := last_unique hpath hpath' (not_passes_of_stop hlast) (not_passes_of_stop hlast')
  exact Hop.stop.inj (Prod.mk.inj (Except.ok.inj (hlast.symm.trans hlast'))).1

theorem Ends.not_breaks {a : α} (ends : Ends hop spot a) (fault : Fault) : ¬Breaks hop spot fault := by
  obtain ⟨last, seen, hpath, hlast⟩ := ends
  rintro ⟨last', hpath', hlast'⟩
  obtain rfl := last_unique hpath hpath' (not_passes_of_stop hlast) (not_passes_of_error hlast')
  cases hlast.symm.trans hlast'

/-- A wire that stays within finitely many ports and never comes back to one ends before it has met them all. What it
has met so far is `met`. -/
theorem follow_of_space {space : List Spot} (hspace : ∀ spot ∈ space, ∀ next, Passes hop spot next → next ∈ space)
    (acyclic : ∀ spot ∈ space, ¬TransGen (Passes hop) spot spot) {met : List Spot} (nodup : met.Nodup)
    (hmet : ∀ before ∈ met, before ∈ space ∧ TransGen (Passes hop) before spot) (hspot : spot ∈ space) {ports : Nat}
    (hports : space.length < met.length + ports) (before : List Trail) :
    (∃ result, follow hop ports spot before = .ok result) ∨
      ∃ fault, follow hop ports spot before = .error fault ∧ Breaks hop spot fault := by
  induction ports generalizing spot met before with
  | zero =>
    have hle := (nodup.subperm fun other hother => (hmet other hother).1).length_le
    omega
  | succ ports ih =>
    rw [follow]
    split
    next fault hhop => exact .inr ⟨fault, rfl, spot, .refl, hhop⟩
    next result seen hhop => exact .inl ⟨_, rfl⟩
    next next seen hhop =>
      have passes : Passes hop spot next := ⟨seen, hhop⟩
      have hnew : spot ∉ met := fun hmem => acyclic spot hspot (hmet spot hmem).2
      have hall : ∀ other ∈ spot :: met, other ∈ space ∧ TransGen (Passes hop) other next := by
        intro other hother
        rcases List.mem_cons.mp hother with rfl | hother
        · exact ⟨hspot, .single passes⟩
        · exact ⟨(hmet other hother).1, (hmet other hother).2.tail passes⟩
      rcases ih (nodup.cons hnew) hall (hspace spot hspot next passes) (by simp; omega) (seen :: before) with
        hok | ⟨fault, herror, hbreaks⟩
      · exact .inl hok
      · exact .inr ⟨fault, herror, hbreaks.head passes⟩

end Spot

/-! ### The ports below an entry graph -/

/-- A call names a graph that is there. -/
theorem Graph.Built.callee_lt {library : Library} {graph : Graph} (built : graph.Built library) {callee : GraphId}
    {via : Nat} (h : (graph.node via).role = .call callee) : callee < library.size := by
  obtain ⟨node, hnode, hrole⟩ := Graph.getElem?_of_role h (by simp)
  obtain ⟨spec, known, from_⟩ := built.formed.nodes node (Array.mem_of_getElem? hnode)
  have hspec := from_.role.symm.trans hrole
  cases spec with
  | call id graph =>
    obtain rfl : id = callee := Role.call.inj hspec
    exact (Array.getElem?_eq_some_iff.mp known).1
  | _ => cases hspec

/-- The ports of a node, and those behind it if it is a call. -/
def GraphNode.expanded (sizes : GraphId → Nat) (node : GraphNode) : Nat :=
  match node.role with
  | .call callee => node.ports.size + sizes callee
  | _ => node.ports.size

/-- The ports of a graph, and those behind its calls. -/
def Graph.expanded (sizes : GraphId → Nat) (graph : Graph) : Nat :=
  ((List.range graph.nodes.size).map fun index => (graph.node index).expanded sizes).sum

theorem Graph.expanded_congr {graph : Graph} {sizes sizes' : GraphId → Nat}
    (h : ∀ via callee, (graph.node via).role = .call callee → sizes callee = sizes' callee) :
    graph.expanded sizes = graph.expanded sizes' := by
  refine congrArg List.sum (List.map_congr_left fun via _ => ?_)
  unfold GraphNode.expanded
  split
  next callee hrole => rw [h via callee hrole]
  next => rfl

/-- The nodes of a graph are those at the places of its array. -/
theorem Graph.map_node_range (graph : Graph) : (List.range graph.nodes.size).map graph.node = graph.nodes.toList := by
  apply List.ext_getElem
  · simp
  · intro k h _
    simp only [List.length_map, List.length_range] at h
    simp [Graph.node, h]

namespace Library

variable {library : Library} {entry : GraphId}

theorem graph_push (library : Library) (graph : Graph) (id : GraphId) :
    Library.graph (library.push graph) id = if id = library.size then graph else library.graph id := by
  rw [Library.graph, Array.getD_eq_getD_getElem?, Array.getElem?_push]
  split_ifs
  · rfl
  · rw [Library.graph, Array.getD_eq_getD_getElem?]

theorem graph_of_size_le {id : GraphId} (h : library.size ≤ id) : library.graph id = default := by
  rw [Library.graph, Array.getD_eq_getD_getElem?, Array.getElem?_eq_none h]
  rfl

/-- A graph calls graphs that stand before it. -/
theorem Built.call_lt (built : library.Built) {id callee : GraphId} {via : Nat}
    (h : ((library.graph id).node via).role = .call callee) : callee < id := by
  induction built with
  | empty => cases h
  | @push library graph built hgraph ih =>
    rw [graph_push] at h
    split_ifs at h with hid
    · exact hid ▸ hgraph.callee_lt h
    · exact ih h

theorem Built.callee_lt (built : library.Built) {id callee : GraphId} {via : Nat}
    (h : ((library.graph id).node via).role = .call callee) : callee < library.size := by
  obtain hlt | hle := Nat.lt_or_ge id library.size
  · exact (built.call_lt h).trans hlt
  · rw [graph_of_size_le hle] at h
    cases h

/-- No path leads to a graph behind its entry graph. -/
theorem Built.graph_le (built : library.Built) {path : CallPath} (valid : path.Valid library entry) :
    path.graph ≤ entry := by
  induction valid with
  | start => exact Nat.le_refl entry
  | enter valid hcall ih => exact (Nat.le_of_lt (built.call_lt hcall)).trans ih

theorem getD_expand (library : Library) (sizes : Array Nat) (id : GraphId) :
    (library.expand sizes).getD id 0 = (library.graph id).expanded fun callee => sizes.getD callee 0 := by
  have hsum (graph : Graph) : graph.nodes.foldl (fun sum node => match node.role with
      | .call callee => sum + node.ports.size + sizes.getD callee 0
      | _ => sum + node.ports.size) 0 = graph.expanded fun callee => sizes.getD callee 0 := by
    have hnode : (fun (sum : Nat) (node : GraphNode) => match node.role with
        | .call callee => sum + node.ports.size + sizes.getD callee 0
        | _ => sum + node.ports.size) = fun sum node => sum + node.expanded fun callee => sizes.getD callee 0 := by
      funext sum node
      unfold GraphNode.expanded
      split
      · exact Nat.add_assoc _ _ _
      · rfl
    rw [hnode, ← Array.foldl_toList, ← graph.map_node_range, List.foldl_map, Graph.expanded, List.sum_eq_foldl,
      List.foldl_map]
  rw [Array.getD_eq_getD_getElem?, expand, Array.getElem?_map, Library.graph, Array.getD_eq_getD_getElem?]
  cases library[id]? with
  | none => rfl
  | some graph => exact hsum graph

/-- Calls lead to graphs that stand before, so that a graph has its size after as many rounds as stand before it. -/
theorem getD_repeat_expand (built : library.Built) {n m : Nat} {id : GraphId} (hn : id < n) (hm : id < m) :
    (Nat.repeat library.expand n #[]).getD id 0 = (Nat.repeat library.expand m #[]).getD id 0 := by
  induction n generalizing m id with
  | zero => exact absurd hn (Nat.not_lt_zero id)
  | succ n ih =>
    obtain ⟨m, rfl⟩ := Nat.exists_eq_succ_of_ne_zero (Nat.ne_zero_of_lt hm)
    rw [Nat.repeat, Nat.repeat, getD_expand, getD_expand]
    refine Graph.expanded_congr fun via callee hcall => ?_
    have hlt := built.call_lt hcall
    exact ih (hlt.trans_le (Nat.lt_succ_iff.mp hn)) (hlt.trans_le (Nat.lt_succ_iff.mp hm))

/-- The ports of a graph with its calls replaced. -/
theorem expandedPorts_getD (built : library.Built) (id : GraphId) :
    library.expandedPorts.getD id 0 = (library.graph id).expanded fun callee => library.expandedPorts.getD callee 0 := by
  obtain hlt | hle := Nat.lt_or_ge id library.size
  · rw [expandedPorts, getD_repeat_expand built hlt (Nat.lt_succ_of_lt hlt), Nat.repeat, getD_expand]
  · have hempty (sizes : GraphId → Nat) : (library.graph id).expanded sizes = 0 := by
      rw [graph_of_size_le hle]
      rfl
    rw [hempty, expandedPorts]
    cases library.size with
    | zero => rfl
    | succ n => rw [Nat.repeat, getD_expand, hempty]

/-- All ports on a path and below it, to a depth of `depth` graphs. -/
def spots (library : Library) : (depth : Nat) → CallPath → List Spot
  | 0, _ => []
  | depth + 1, path =>
    let graph := library.graph path.graph
    (List.range graph.nodes.size).flatMap fun index =>
      (List.range (graph.node index).ports.size).map (⟨path, index, ·⟩) ++
        match (graph.node index).role with
        | .call callee => library.spots depth (path.enter index callee)
        | _ => []

theorem length_spots (built : library.Built) {depth : Nat} {path : CallPath} (h : path.graph < depth) :
    (library.spots depth path).length = library.expandedPorts.getD path.graph 0 := by
  induction depth generalizing path with
  | zero => exact absurd h (Nat.not_lt_zero _)
  | succ depth ih =>
    rw [spots, List.length_flatMap, expandedPorts_getD built, Graph.expanded]
    refine congrArg List.sum (List.map_congr_left fun index _ => ?_)
    rw [List.length_append, List.length_map, List.length_range, GraphNode.expanded]
    split
    next callee hrole =>
      have hlt : (path.enter index callee).graph < depth := (built.call_lt hrole).trans_le (Nat.lt_succ_iff.mp h)
      rw [ih hlt, CallPath.graph_enter]
    next => rfl

/-- What is below a valid path is below the entry graph. -/
theorem spots_subset (built : library.Built) {path : CallPath} (valid : path.Valid library entry) :
    ∃ depth, path.graph < depth ∧ library.spots depth path ⊆ library.spots (entry + 1) (.start entry) := by
  induction valid with
  | start => exact ⟨entry + 1, Nat.lt_succ_self entry, fun _ h => h⟩
  | @enter path via callee valid hcall ih =>
    obtain ⟨depth, hdepth, hsubset⟩ := ih
    obtain ⟨depth, rfl⟩ := Nat.exists_eq_succ_of_ne_zero (Nat.ne_zero_of_lt hdepth)
    refine ⟨depth, (built.call_lt hcall).trans_le (Nat.lt_succ_iff.mp hdepth), fun spot hspot => hsubset ?_⟩
    refine List.mem_flatMap.mpr ⟨via, List.mem_range.mpr (Graph.lt_of_role hcall (by simp)), ?_⟩
    rw [hcall]
    exact List.mem_append_right _ hspot

end Library

namespace Spot

variable {library : Library} {entry : GraphId} {spot next : Spot}

/-- A port that is there, on a path of calls that are there. -/
structure Within (library : Library) (entry : GraphId) (spot : Spot) : Prop where
  path : spot.path.Valid library entry
  port : spot.port < ((spot.graph library).node spot.node).ports.size

theorem Within.node_lt (within : spot.Within library entry) : spot.node < (spot.graph library).nodes.size := by
  by_contra hnode
  have hport := within.port
  have hnone : (spot.graph library).nodes[spot.node]? = none := Array.getElem?_eq_none (Nat.not_lt.mp hnode)
  rw [Graph.node, Array.getD_eq_getD_getElem?, hnone] at hport
  exact absurd hport (Nat.not_lt_zero _)

theorem Within.mem_spots (built : library.Built) (within : spot.Within library entry) :
    spot ∈ library.spots (entry + 1) (.start entry) := by
  obtain ⟨depth, hdepth, hsubset⟩ := Library.spots_subset built within.path
  obtain ⟨depth, rfl⟩ := Nat.exists_eq_succ_of_ne_zero (Nat.ne_zero_of_lt hdepth)
  refine hsubset (List.mem_flatMap.mpr ⟨spot.node, List.mem_range.mpr within.node_lt, List.mem_append_left _ ?_⟩)
  exact List.mem_map.mpr ⟨spot.port, List.mem_range.mpr within.port, rfl⟩

/-- The port to which a wire leads on is there. -/
def Onward (library : Library) (entry : GraphId) {α : Type} : Hop α → Prop
  | .stop _ => True
  | .onward next => next.Within library entry

theorem leaveThrough_onward {α : Type} {path : CallPath} (valid : path.Valid library entry) (node : Nat)
    (name : String) : Onward library entry (leaveThrough library path node name : Hop (Option α) × Trail).1 := by
  unfold leaveThrough
  dsimp only
  split
  next next hout =>
    obtain ⟨⟨outer, via⟩, hleave, hout⟩ := Option.bind_eq_some_iff.mp hout
    obtain ⟨port, hport, hnext⟩ := Option.bind_eq_some_iff.mp hout
    obtain rfl := Option.some.inj hnext
    exact ⟨(valid.leave hleave).1, (GraphNode.port?_eq_some hport).1⟩
  next => trivial

variable {path : CallPath} {via : Nat} {callee : GraphId}

theorem enterFlow_onward (valid : path.Valid library entry)
    (hcall : ((library.graph path.graph).node via).role = .call callee) (name : String) :
    Onward library entry (enterFlow library path via callee name).1 := by
  unfold enterFlow
  dsimp only
  split
  next => trivial
  next input _ =>
    split
    next => trivial
    next port hport =>
      split
      next => trivial
      next => exact ⟨.enter valid hcall, (GraphNode.port?_eq_some hport).1⟩

theorem enterValue_onward (valid : path.Valid library entry)
    (hcall : ((library.graph path.graph).node via).role = .call callee) (name : String) (type : ValueType) :
    Onward library entry (enterValue library path via callee name type).1 := by
  unfold enterValue
  dsimp only
  split
  next => trivial
  next output _ =>
    split
    next => trivial
    next port hport =>
      split_ifs
      · trivial
      · exact ⟨.enter valid hcall, (GraphNode.port?_eq_some hport).1⟩

theorem flowHop_onward (valid : spot.path.Valid library entry) : Onward library entry (spot.flowHop library).1 := by
  unfold flowHop
  dsimp only
  split
  next => trivial
  next link others _ =>
    dsimp only
    split
    next callee hrole => exact enterFlow_onward valid hrole _
    next => exact leaveThrough_onward valid _ _
    all_goals trivial

theorem valueHop_onward (valid : spot.path.Valid library entry) {hop : Hop (Option ValueSource)} {seen : Trail}
    (h : spot.valueHop library = .ok (hop, seen)) : Onward library entry hop := by
  unfold valueHop at h
  dsimp only at h
  split at h
  next => cases h
  next type _ =>
    split at h
    next =>
      split at h <;> obtain ⟨rfl, -⟩ := Prod.mk.inj (Except.ok.inj h) <;> trivial
    next link others _ =>
      obtain ⟨rfl, -⟩ := Prod.mk.inj (Except.ok.inj h)
      split
      next => trivial
      next callee hrole => exact enterValue_onward valid hrole _ _
      next => exact leaveThrough_onward valid _ _
      all_goals trivial

/-- A flow port leads on to another port. -/
def PassesFlow (library : Library) : Spot → Spot → Prop :=
  Passes fun spot => .ok (spot.flowHop library)

/-- A value port is fed through another port. -/
def PassesValue (library : Library) : Spot → Spot → Prop :=
  Passes (valueHop library)

theorem PassesFlow.within (passes : spot.PassesFlow library next) (within : spot.Within library entry) :
    next.Within library entry := by
  obtain ⟨seen, hhop⟩ := passes
  have honward := flowHop_onward within.path
  rw [Except.ok.inj hhop] at honward
  exact honward

theorem PassesValue.within (passes : spot.PassesValue library next) (within : spot.Within library entry) :
    next.Within library entry := by
  obtain ⟨seen, hhop⟩ := passes
  exact valueHop_onward within.path hhop

theorem PassesFlow.valid (passes : spot.PassesFlow library next) (valid : spot.path.Valid library entry) :
    next.path.Valid library entry := by
  obtain ⟨seen, hhop⟩ := passes
  have honward := flowHop_onward valid
  rw [Except.ok.inj hhop] at honward
  exact honward.path

theorem PassesValue.valid (passes : spot.PassesValue library next) (valid : spot.path.Valid library entry) :
    next.path.Valid library entry := by
  obtain ⟨seen, hhop⟩ := passes
  exact (valueHop_onward valid hhop).path

/-- What every hop keeps holds all along a wire. -/
theorem kept_of_path (inv : Spot → Prop) {passes : Spot → Spot → Prop}
    (hpasses : ∀ spot next, passes spot next → inv spot → inv next) (hinv : inv spot)
    (h : ReflTransGen passes spot next) : inv next := by
  induction h with
  | refl => exact hinv
  | tail _ passes ih => exact hpasses _ _ passes ih

/-- The value of a port comes through a flow port. -/
def MeetsFlow (library : Library) (spot : Spot) : Prop :=
  ∃ last, ReflTransGen (PassesValue library) spot last ∧ (last.portOf library).kind = .flow

end Spot

/-- No wire comes back to a port that it has passed. -/
def Library.Acyclic (library : Library) (entry : GraphId) : Prop :=
  ∀ spot : Spot, spot.Within library entry →
    ¬TransGen (Spot.PassesFlow library) spot spot ∧ ¬TransGen (Spot.PassesValue library) spot spot

namespace Library

variable {library : Library} {entry : GraphId} {spot : Spot}

/-- A wire that stays among the ports below the entry graph and never comes back is followed to its end. -/
theorem follow_of_acyclic (built : library.Built) {α : Type} {hop : Spot → Except Fault (Hop α × Trail)}
    (hpasses : ∀ spot next, Spot.Passes hop spot next → spot.Within library entry → next.Within library entry)
    (acyclic : ∀ spot : Spot, spot.Within library entry → ¬TransGen (Spot.Passes hop) spot spot)
    (within : spot.Within library entry) :
    (∃ result, Spot.follow hop (library.wireBound entry) spot [] = .ok result) ∨
      ∃ fault, Spot.follow hop (library.wireBound entry) spot [] = .error fault ∧ Spot.Breaks hop spot fault := by
  classical
  let space := (library.spots (entry + 1) (.start entry)).filter (Spot.Within library entry ·)
  have hmem {spot : Spot} : spot ∈ space ↔ spot.Within library entry := by
    rw [List.mem_filter, decide_eq_true_eq]
    exact ⟨fun h => h.2, fun h => ⟨h.mem_spots built, h⟩⟩
  have hlength : space.length < ([] : List Spot).length + library.wireBound entry := by
    have hfilter : space.length ≤ (library.spots (entry + 1) (.start entry)).length := List.length_filter_le _ _
    rw [length_spots built (Nat.lt_succ_self entry)] at hfilter
    rw [List.length_nil, Nat.zero_add]
    exact Nat.lt_succ_of_le hfilter
  exact Spot.follow_of_space (fun spot hspot next passes => hmem.mpr (hpasses spot next passes (hmem.mp hspot)))
    (fun spot hspot => acyclic spot (hmem.mp hspot)) .nil (by simp) (hmem.mpr within) hlength []

/-- A flow port of an acyclic library runs something or nothing. -/
theorem flowTarget_total (built : library.Built) (acyclic : library.Acyclic entry)
    (within : spot.Within library entry) :
    ∃ target trail, library.flowTarget (library.wireBound entry) spot = .ok (target, trail) := by
  rcases follow_of_acyclic built (fun _ _ => Spot.PassesFlow.within) (fun spot h => (acyclic spot h).1) within with
    ⟨⟨target, trail⟩, h⟩ | ⟨fault, -, last, -, hbreaks⟩
  · exact ⟨target, trail, h⟩
  · cases hbreaks

/-- A value port of an acyclic library is fed by something or nothing, unless its value comes through a flow port. -/
theorem valueSource_total (built : library.Built) (acyclic : library.Acyclic entry)
    (within : spot.Within library entry) :
    (∃ source trail, library.valueSource (library.wireBound entry) spot = .ok (source, trail)) ∨
      ∃ name, library.valueSource (library.wireBound entry) spot = .error (.flowAsValue name) ∧
        spot.MeetsFlow library := by
  rcases follow_of_acyclic built (fun _ _ => Spot.PassesValue.within) (fun spot h => (acyclic spot h).2) within with
    ⟨⟨source, trail⟩, h⟩ | ⟨fault, h, last, hpath, hbreaks⟩
  · exact .inl ⟨source, trail, h⟩
  · unfold Spot.valueHop at hbreaks
    dsimp only at hbreaks
    split at hbreaks
    next hkind =>
      obtain rfl := Except.error.inj hbreaks
      exact .inr ⟨_, h, last, hpath, hkind⟩
    next =>
      split at hbreaks
      next => split at hbreaks <;> cases hbreaks
      next => cases hbreaks

/-- What is found at the end of a wire did not come through a flow port. -/
theorem not_meetsFlow_of_valueSource {bound : Nat} {source : Option ValueSource} {trail : Trail}
    (h : library.valueSource bound spot = .ok (source, trail)) : ¬spot.MeetsFlow library := by
  rintro ⟨last, hpath, hkind⟩
  refine (Spot.ends_of_follow h).not_breaks (.flowAsValue (last.portOf library).name) ⟨last, hpath, ?_⟩
  simp only [Spot.valueHop, hkind]

end Library

end BehaviorTree
