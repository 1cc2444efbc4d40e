import BehaviorTree.Proofs.Compile.Walk

/-! Graphs under other numbers. The number of a graph stands in the calls of other graphs, in the hashes of paths, and
in what is met along a wire. When the graphs of a library are renumbered, every wire still ends in the same place and
reports the same. -/

namespace BehaviorTree

variable {ρ σ : GraphId → GraphId}

/-! ### Graphs -/

def Role.renumber (ρ : GraphId → GraphId) : Role → Role
  | .call callee => .call (ρ callee)
  | role => role

/-- The node that calls the same graph under its other number. -/
def GraphNode.renumber (ρ : GraphId → GraphId) (node : GraphNode) : GraphNode :=
  { node with role := node.role.renumber ρ }

def Graph.renumber (ρ : GraphId → GraphId) (graph : Graph) : Graph :=
  { graph with nodes := graph.nodes.map (·.renumber ρ) }

namespace Library

/-- More than any number that is given to a graph. -/
def extent (ρ : GraphId → GraphId) (library : Library) : Nat :=
  (Finset.range library.size).sup (ρ · + 1)

/-- The graph to which a number is given. It is empty if there is none. -/
def numbered (ρ : GraphId → GraphId) (library : Library) (id : GraphId) : Graph :=
  match (List.range library.size).find? (ρ · = id) with
  | some place => (library.graph place).renumber ρ
  | none => default

/-- The graphs of a library under other numbers. -/
def renumber (ρ : GraphId → GraphId) (library : Library) : Library :=
  Array.ofFn fun id : Fin (library.extent ρ) => library.numbered ρ id

end Library

namespace Role

@[simp] theorem renumber_eq_input {role : Role} : role.renumber ρ = .input ↔ role = .input := by
  cases role <;> simp [renumber]

@[simp] theorem renumber_eq_output {role : Role} : role.renumber ρ = .output ↔ role = .output := by
  cases role <;> simp [renumber]

@[simp] theorem renumber_eq_action {role : Role} {a : Action} : role.renumber ρ = .action a ↔ role = .action a := by
  cases role <;> simp [renumber]

@[simp] theorem isBoundary_renumber (role : Role) : (role.renumber ρ).isBoundary = role.isBoundary := by
  cases role <;> rfl

end Role

namespace GraphNode

@[simp] theorem role_renumber (node : GraphNode) : (node.renumber ρ).role = node.role.renumber ρ :=
  rfl

@[simp] theorem ports_renumber (node : GraphNode) : (node.renumber ρ).ports = node.ports :=
  rfl

@[simp] theorem port_renumber (node : GraphNode) (index : Nat) : (node.renumber ρ).port index = node.port index :=
  rfl

@[simp] theorem port?_renumber (node : GraphNode) (name : String) : (node.renumber ρ).port? name = node.port? name :=
  rfl

theorem expanded_renumber (sizes : GraphId → Nat) (node : GraphNode) :
    (node.renumber ρ).expanded sizes = node.expanded (sizes ∘ ρ) := by
  obtain ⟨label, role, ports⟩ := node
  cases role <;> rfl

end GraphNode

namespace Graph

@[simp] theorem name_renumber (graph : Graph) : (graph.renumber ρ).name = graph.name :=
  rfl

@[simp] theorem linksFrom_renumber (graph : Graph) (source : PortRef) :
    (graph.renumber ρ).linksFrom source = graph.linksFrom source :=
  rfl

@[simp] theorem linksTo_renumber (graph : Graph) (target : PortRef) :
    (graph.renumber ρ).linksTo target = graph.linksTo target :=
  rfl

@[simp] theorem size_nodes_renumber (graph : Graph) : (graph.renumber ρ).nodes.size = graph.nodes.size :=
  Array.size_map

@[simp] theorem node_renumber (graph : Graph) (index : Nat) :
    (graph.renumber ρ).node index = (graph.node index).renumber ρ := by
  rw [node, node, renumber, Array.getD_eq_getD_getElem?, Array.getD_eq_getD_getElem?, Array.getElem?_map]
  cases graph.nodes[index]? <;> rfl

@[simp] theorem location_renumber (graph : Graph) (index : Nat) :
    (graph.renumber ρ).location index = graph.location index := by
  rw [location, node_renumber]
  rfl

@[simp] theorem inputNode?_renumber (graph : Graph) : (graph.renumber ρ).inputNode? = graph.inputNode? := by
  simp [inputNode?, renumber, Array.findIdx?_map, Function.comp_def]

@[simp] theorem outputNode?_renumber (graph : Graph) : (graph.renumber ρ).outputNode? = graph.outputNode? := by
  simp [outputNode?, renumber, Array.findIdx?_map, Function.comp_def]

@[simp] theorem renumber_default : (default : Graph).renumber ρ = default := by
  have hnodes : (default : Graph).nodes.map (GraphNode.renumber ρ) = #[] := Array.map_empty
  rw [renumber, hnodes]
  rfl

theorem expanded_renumber (sizes : GraphId → Nat) (graph : Graph) :
    (graph.renumber ρ).expanded sizes = graph.expanded (sizes ∘ ρ) := by
  simp only [expanded, size_nodes_renumber, node_renumber, GraphNode.expanded_renumber]

/-- Only the numbers of called graphs matter. -/
theorem renumber_congr {graph : Graph}
    (h : ∀ via callee, (graph.node via).role = .call callee → ρ callee = σ callee) :
    graph.renumber ρ = graph.renumber σ := by
  rw [renumber, renumber, mk.injEq]
  refine ⟨rfl, Array.map_congr_left fun node hnode => ?_, rfl⟩
  obtain ⟨via, hvia⟩ := Array.mem_iff_getElem?.mp hnode
  have hcalls := h via
  rw [Graph.node_of_getElem? hvia] at hcalls
  obtain ⟨label, role, ports⟩ := node
  cases role with
  | call callee => simp only [GraphNode.renumber, Role.renumber, hcalls callee rfl]
  | _ => rfl

end Graph

namespace Library

variable {library : Library}

theorem lt_extent {id : GraphId} (h : id < library.size) : ρ id < library.extent ρ :=
  Nat.lt_of_succ_le (Finset.le_sup (f := (ρ · + 1)) (Finset.mem_range.mpr h))

theorem graph_renumber_eq (id : GraphId) : (library.renumber ρ).graph id = library.numbered ρ id := by
  rw [Library.graph, Array.getD_eq_getD_getElem?, renumber, Array.getElem?_ofFn]
  split_ifs with hlt
  · rfl
  · have hnone : (List.range library.size).find? (ρ · = id) = none := by
      refine List.find?_eq_none.mpr fun place hplace => ?_
      rw [decide_eq_true_eq]
      rintro rfl
      exact hlt (lt_extent (List.mem_range.mp hplace))
    rw [numbered, hnone]
    rfl

/-- A graph stands at its other number, with its calls renumbered. -/
@[simp] theorem graph_renumber (inj : Function.Injective ρ) (id : GraphId) :
    (library.renumber ρ).graph (ρ id) = (library.graph id).renumber ρ := by
  have hfind : (List.range library.size).find? (ρ · = ρ id) = if id < library.size then some id else none := by
    simp only [inj.eq_iff]
    split_ifs with hlt
    · exact List.find?_range_eq_some.mpr ⟨by simp, List.mem_range.mpr hlt, fun other hother => by simpa using Nat.ne_of_lt hother⟩
    · refine List.find?_eq_none.mpr fun place hplace => ?_
      rw [decide_eq_true_eq]
      rintro rfl
      exact hlt (List.mem_range.mp hplace)
  rw [graph_renumber_eq, numbered, hfind]
  split_ifs with hlt
  · rfl
  · rw [graph_of_size_le (Nat.not_lt.mp hlt), Graph.renumber_default]

/-- A number stands for a renumbered graph or for none. -/
theorem graph_renumber_cases (id : GraphId) :
    (∃ place, (library.renumber ρ).graph id = (library.graph place).renumber ρ) ∨
      (library.renumber ρ).graph id = default := by
  rw [graph_renumber_eq, numbered]
  split
  next place _ => exact .inl ⟨place, rfl⟩
  next => exact .inr rfl

/-- Only the numbers of the graphs that are there matter. -/
theorem Built.renumber_congr (built : library.Built) (h : ∀ id < library.size, ρ id = σ id) :
    library.renumber ρ = library.renumber σ := by
  have hextent : library.extent ρ = library.extent σ :=
    Finset.sup_congr rfl fun id hid => by rw [h id (Finset.mem_range.mp hid)]
  have hnumbered : library.numbered ρ = library.numbered σ := by
    funext id
    have hfind : (List.range library.size).find? (ρ · = id) = (List.range library.size).find? (σ · = id) :=
      List.find?_congr fun place hplace => by rw [h place (List.mem_range.mp hplace)]
    have hgraph (place : GraphId) : (library.graph place).renumber ρ = (library.graph place).renumber σ :=
      Graph.renumber_congr fun via callee hcall => h callee (built.callee_lt hcall)
    simp only [numbered, hfind, hgraph]
  unfold renumber
  rw [hextent, hnumbered]

/-- There is room for all graphs under their other numbers. -/
theorem size_le_extent (inj : Function.Injective ρ) : library.size ≤ library.extent ρ := by
  have hmaps : ∀ id ∈ Finset.range library.size, ρ id ∈ Finset.range (library.extent ρ) :=
    fun id hid => Finset.mem_range.mpr (lt_extent (Finset.mem_range.mp hid))
  simpa using Finset.card_le_card_of_injOn ρ hmaps inj.injOn

theorem getD_repeat_expand_renumber (inj : Function.Injective ρ) (n : Nat) (id : GraphId) :
    (Nat.repeat (library.renumber ρ).expand n #[]).getD (ρ id) 0 = (Nat.repeat library.expand n #[]).getD id 0 := by
  induction n generalizing id with
  | zero => rfl
  | succ n ih =>
    rw [Nat.repeat, Nat.repeat, getD_expand, getD_expand, graph_renumber inj, Graph.expanded_renumber]
    exact Graph.expanded_congr fun via callee _ => ih callee

/-- Wires are as long as before. -/
theorem wireBound_renumber (built : library.Built) (inj : Function.Injective ρ) {entry : GraphId}
    (hentry : entry < library.size) : (library.renumber ρ).wireBound (ρ entry) = library.wireBound entry := by
  have hsize : (library.renumber ρ).size = library.extent ρ := Array.size_ofFn
  rw [wireBound, wireBound, expandedPorts, expandedPorts, hsize, getD_repeat_expand_renumber inj,
    getD_repeat_expand built (hentry.trans_le (size_le_extent inj)) hentry]

end Library

/-! ### Paths -/

namespace CallPath

/-- The path through the same call nodes, with the hashes of the other numbers. -/
def renumber (ρ : GraphId → GraphId) (path : CallPath) : CallPath :=
  path.calls.foldr (fun call outer => outer.enter call.via (ρ call.graph)) (.start (ρ path.entry))

@[simp] theorem renumber_start (entry : GraphId) : (start entry).renumber ρ = start (ρ entry) :=
  rfl

@[simp] theorem renumber_enter (path : CallPath) (via : Nat) (callee : GraphId) :
    (path.enter via callee).renumber ρ = (path.renumber ρ).enter via (ρ callee) :=
  rfl

@[simp] theorem graph_renumber (path : CallPath) : (path.renumber ρ).graph = ρ path.graph := by
  obtain ⟨entry, calls⟩ := path
  cases calls <;> rfl

theorem leave?_renumber (path : CallPath) :
    (path.renumber ρ).leave? = path.leave?.map fun (outer, via) => (outer.renumber ρ, via) := by
  obtain ⟨entry, calls⟩ := path
  cases calls <;> rfl

variable {library : Library} {entry : GraphId} {path path' : CallPath}

theorem Valid.renumber (inj : Function.Injective ρ) (valid : path.Valid library entry) :
    (path.renumber ρ).Valid (library.renumber ρ) (ρ entry) := by
  induction valid with
  | start => exact .start
  | enter _ hcall ih =>
    refine ih.enter ?_
    rw [graph_renumber, Library.graph_renumber inj, Graph.node_renumber, GraphNode.role_renumber, hcall]
    rfl

/-- Every path between renumbered graphs comes from one between the graphs. -/
theorem exists_of_valid_renumber (inj : Function.Injective ρ) (valid : path'.Valid (library.renumber ρ) (ρ entry)) :
    ∃ path : CallPath, path.Valid library entry ∧ path' = path.renumber ρ := by
  induction valid with
  | start => exact ⟨.start entry, .start, rfl⟩
  | @enter path' via callee' _ hcall ih =>
    obtain ⟨path, valid, rfl⟩ := ih
    rw [graph_renumber, Library.graph_renumber inj, Graph.node_renumber, GraphNode.role_renumber] at hcall
    cases hrole : ((library.graph path.graph).node via).role with
    | call callee =>
      rw [hrole] at hcall
      obtain rfl := Role.call.inj hcall
      exact ⟨path.enter via callee, valid.enter hrole, rfl⟩
    | _ =>
      rw [hrole] at hcall
      cases hcall

/-- Different paths are different under other numbers. -/
theorem Valid.renumber_inj (inj : Function.Injective ρ) (valid : path.Valid library entry)
    (valid' : path'.Valid library entry) (h : path.renumber ρ = path'.renumber ρ) : path = path' := by
  induction valid generalizing path' with
  | start =>
    cases valid' with
    | start => rfl
    | enter => cases congrArg leave? h
  | enter valid hcall ih =>
    cases valid' with
    | start => cases congrArg leave? h
    | enter valid' hcall' =>
      simp only [renumber_enter] at h
      obtain ⟨houter, rfl⟩ := Prod.mk.inj (Option.some.inj (congrArg leave? h))
      obtain rfl := inj (congrArg CallPath.graph h)
      rw [ih valid' houter]

theorem instanceIds_cons (library : Library) (entry : GraphId) (call : Call) (outer : List Call) :
    instanceIds library ⟨entry, call :: outer⟩ = instanceIds library ⟨entry, outer⟩ ++
      [instanceId (library.graph (CallPath.graph ⟨entry, outer⟩)).name call.via] := by
  simp [instanceIds, sitesFrom]

theorem instanceIds_enter (library : Library) (path : CallPath) (via : Nat) (callee : GraphId) :
    (path.enter via callee).instanceIds library =
      path.instanceIds library ++ [instanceId (library.graph path.graph).name via] :=
  instanceIds_cons library path.entry _ path.calls

/-- Call nodes are identified by the names of their graphs. -/
theorem instanceIds_renumber (inj : Function.Injective ρ) (path : CallPath) :
    (path.renumber ρ).instanceIds (library.renumber ρ) = path.instanceIds library := by
  obtain ⟨entry, calls⟩ := path
  induction calls with
  | nil => simp [renumber, instanceIds, sitesFrom, start]
  | cons call outer ih =>
    have hgraph : (CallPath.renumber ρ ⟨entry, outer⟩).graph = ρ (CallPath.graph ⟨entry, outer⟩) := graph_renumber _
    have henter : CallPath.renumber ρ ⟨entry, call :: outer⟩ =
        ((CallPath.renumber ρ ⟨entry, outer⟩).enter call.via (ρ call.graph)) := rfl
    rw [henter, instanceIds_enter, instanceIds_cons, ih, hgraph, Library.graph_renumber inj, Graph.name_renumber]

end CallPath

namespace Instance

def renumber (ρ : GraphId → GraphId) (i : Instance) : Instance :=
  ⟨i.path.renumber ρ, i.node⟩

variable {library : Library}

theorem graph_renumber (inj : Function.Injective ρ) (i : Instance) :
    (i.renumber ρ).graph (library.renumber ρ) = (i.graph library).renumber ρ := by
  rw [graph, renumber, CallPath.graph_renumber, Library.graph_renumber inj]
  rfl

theorem graphNode_renumber (inj : Function.Injective ρ) (i : Instance) :
    (i.renumber ρ).graphNode (library.renumber ρ) = (i.graphNode library).renumber ρ := by
  rw [graphNode, graph_renumber inj, Graph.node_renumber]
  rfl

/-- Instances are identified by the names of graphs. -/
theorem debugId_renumber (inj : Function.Injective ρ) (i : Instance) :
    (i.renumber ρ).debugId (library.renumber ρ) = i.debugId library := by
  have hids : (i.renumber ρ).path.instanceIds (library.renumber ρ) = i.path.instanceIds library :=
    CallPath.instanceIds_renumber inj i.path
  have hnode : (i.renumber ρ).node = i.node := rfl
  unfold debugId
  rw [hids, hnode, graph_renumber inj, Graph.name_renumber]

end Instance

/-! ### Wires -/

def ValueSource.renumber (ρ : GraphId → GraphId) : ValueSource → ValueSource
  | .operator i => .operator (i.renumber ρ)
  | .constant value => .constant value

/-- The same errors and warnings, and the visited nodes under the other numbers of their graphs. -/
def Trail.renumber (ρ : GraphId → GraphId) (trail : Trail) : Trail :=
  { trail with visits := trail.visits.map (Prod.map ρ id) }

namespace Trail

@[simp] theorem renumber_empty : Trail.empty.renumber ρ = .empty :=
  rfl

@[simp] theorem renumber_visit (graph : GraphId) (node : Nat) : (visit graph node).renumber ρ = visit (ρ graph) node :=
  rfl

@[simp] theorem renumber_error (e : CompileError) : (error e).renumber ρ = error e :=
  rfl

@[simp] theorem renumber_warning (w : CompileWarning) : (warning w).renumber ρ = warning w :=
  rfl

@[simp] theorem renumber_append (a b : Trail) : (a ++ b).renumber ρ = a.renumber ρ ++ b.renumber ρ := by
  simp only [renumber, HAppend.hAppend, Append.append]
  simp

theorem renumber_concat (trails : List Trail) :
    (concat trails).renumber ρ = concat (trails.map (·.renumber ρ)) := by
  simp [concat, renumber, List.map_flatMap, List.flatMap_map]

end Trail

namespace Spot

def renumber (ρ : GraphId → GraphId) (spot : Spot) : Spot :=
  ⟨spot.path.renumber ρ, spot.node, spot.port⟩

end Spot

/-- The hop to the same port under the other numbers, or the end that `f` makes of its end. -/
def Hop.renumber {α β : Type} (ρ : GraphId → GraphId) (f : α → β) : Hop α → Hop β
  | .stop result => .stop (f result)
  | .onward spot => .onward (spot.renumber ρ)

namespace Spot

variable {library : Library} (inj : Function.Injective ρ)

include inj

theorem graph_renumber (spot : Spot) :
    (spot.renumber ρ).graph (library.renumber ρ) = (spot.graph library).renumber ρ := by
  rw [graph, renumber, CallPath.graph_renumber, Library.graph_renumber inj]
  rfl

theorem location_renumber (spot : Spot) :
    (spot.renumber ρ).location (library.renumber ρ) = spot.location library := by
  rw [location, graph_renumber inj, Graph.location_renumber]
  rfl

theorem portOf_renumber (spot : Spot) : (spot.renumber ρ).portOf (library.renumber ρ) = spot.portOf library := by
  rw [portOf, graph_renumber inj, Graph.node_renumber, GraphNode.port_renumber]
  rfl

theorem ambiguity_renumber (spot : Spot) (others : List Link) :
    (spot.renumber ρ).ambiguity (library.renumber ρ) others = (spot.ambiguity library others).renumber ρ := by
  cases others with
  | nil => rfl
  | cons => rw [ambiguity, ambiguity, location_renumber inj, portOf_renumber inj, Trail.renumber_error]

theorem outward?_renumber (path : CallPath) (name : String) :
    outward? (library.renumber ρ) (path.renumber ρ) name = (outward? library path name).map (·.renumber ρ) := by
  unfold outward?
  rw [CallPath.leave?_renumber]
  cases path.leave? with
  | none => rfl
  | some left =>
    obtain ⟨outer, via⟩ := left
    simp only [Option.map_some, Option.bind_eq_bind, Option.bind_some, CallPath.graph_renumber,
      Library.graph_renumber inj, Graph.node_renumber, GraphNode.port?_renumber]
    cases ((library.graph outer.graph).node via).port? name <;> rfl

theorem leaveThrough_renumber {α β : Type} (f : α → β) (path : CallPath) (node : Nat) (name : String) :
    leaveThrough (library.renumber ρ) (path.renumber ρ) node name =
      Prod.map (Hop.renumber ρ (Option.map f)) (Trail.renumber ρ) (leaveThrough library path node name) := by
  unfold leaveThrough
  rw [outward?_renumber inj]
  cases outward? library path name <;>
    simp [Hop.renumber, Library.graph_renumber inj]

theorem enterFlow_renumber (path : CallPath) (via : Nat) (callee : GraphId) (name : String) :
    enterFlow (library.renumber ρ) (path.renumber ρ) via (ρ callee) name =
      Prod.map (Hop.renumber ρ (Option.map (Instance.renumber ρ))) (Trail.renumber ρ)
        (enterFlow library path via callee name) := by
  simp only [enterFlow, CallPath.graph_renumber, Library.graph_renumber inj, Graph.inputNode?_renumber,
    Graph.node_renumber, GraphNode.port?_renumber, Graph.linksFrom_renumber, Graph.location_renumber]
  cases (library.graph callee).inputNode? with
  | none => rfl
  | some input =>
    cases hport : ((library.graph callee).node input).port? name with
    | none => simp [hport, Hop.renumber]
    | some port => cases hlinks : (library.graph callee).linksFrom ⟨input, port⟩ <;> simp [hport, hlinks, Hop.renumber, renumber]

theorem flowHop_renumber (spot : Spot) : (spot.renumber ρ).flowHop (library.renumber ρ) =
    Prod.map (Hop.renumber ρ (Option.map (Instance.renumber ρ))) (Trail.renumber ρ) (spot.flowHop library) := by
  have href : (spot.renumber ρ).ref = spot.ref := rfl
  have hpath : (spot.renumber ρ).path = spot.path.renumber ρ := rfl
  simp only [flowHop, graph_renumber inj, Graph.linksFrom_renumber, href, hpath]
  cases (spot.graph library).linksFrom spot.ref with
  | nil => rfl
  | cons link others =>
    simp only [Graph.node_renumber, GraphNode.port_renumber, GraphNode.role_renumber, ambiguity_renumber inj]
    cases ((spot.graph library).node link.target.node).role <;>
      simp [Role.renumber, enterFlow_renumber inj, leaveThrough_renumber inj (Instance.renumber ρ), Hop.renumber,
        Instance.renumber]

theorem enterValue_renumber (path : CallPath) (via : Nat) (callee : GraphId) (name : String) (type : ValueType) :
    enterValue (library.renumber ρ) (path.renumber ρ) via (ρ callee) name type =
      Prod.map (Hop.renumber ρ (Option.map (ValueSource.renumber ρ))) (Trail.renumber ρ)
        (enterValue library path via callee name type) := by
  simp only [enterValue, CallPath.graph_renumber, Library.graph_renumber inj, Graph.outputNode?_renumber,
    Graph.node_renumber, GraphNode.port?_renumber, GraphNode.port_renumber, Graph.linksTo_renumber,
    Graph.location_renumber]
  cases (library.graph callee).outputNode? with
  | none => rfl
  | some output =>
    cases hport : ((library.graph callee).node output).port? name with
    | none => simp [hport, Hop.renumber]
    | some port =>
      dsimp only
      rw [hport]
      dsimp only
      split_ifs <;> simp [Hop.renumber, ValueSource.renumber, renumber]

theorem valueHop_renumber (spot : Spot) : (spot.renumber ρ).valueHop (library.renumber ρ) =
    (spot.valueHop library).map
      (Prod.map (Hop.renumber ρ (Option.map (ValueSource.renumber ρ))) (Trail.renumber ρ)) := by
  have href : (spot.renumber ρ).ref = spot.ref := rfl
  have hpath : (spot.renumber ρ).path = spot.path.renumber ρ := rfl
  simp only [valueHop, portOf_renumber inj, graph_renumber inj, Graph.linksTo_renumber, location_renumber inj, href,
    hpath]
  cases (spot.portOf library).kind with
  | flow => rfl
  | value type =>
    cases (spot.graph library).linksTo spot.ref with
    | nil => cases (spot.portOf library).inline <;> rfl
    | cons link others =>
      simp only [Graph.node_renumber, GraphNode.port_renumber, GraphNode.role_renumber, ambiguity_renumber inj]
      cases ((spot.graph library).node link.source.node).role <;>
        simp [Role.renumber, enterValue_renumber inj, leaveThrough_renumber inj (ValueSource.renumber ρ), Hop.renumber,
          ValueSource.renumber, Instance.renumber, Except.map]

omit inj in
/-- A wire whose hops are the same under other numbers is the same. -/
theorem follow_renumber {α β : Type} {f : α → β} {hop : Spot → Except Fault (Hop α × Trail)}
    {hop' : Spot → Except Fault (Hop β × Trail)}
    (hhop : ∀ spot : Spot, hop' (spot.renumber ρ) = (hop spot).map (Prod.map (Hop.renumber ρ f) (Trail.renumber ρ)))
    (ports : Nat) (spot : Spot) (before : List Trail) :
    follow hop' ports (spot.renumber ρ) (before.map (Trail.renumber ρ)) =
      (follow hop ports spot before).map (Prod.map f (Trail.renumber ρ)) := by
  induction ports generalizing spot before with
  | zero => rfl
  | succ ports ih =>
    rw [follow, follow, hhop]
    rcases hop spot with fault | ⟨result | next, seen⟩
    · rfl
    · simp [Except.map, Hop.renumber, Trail.renumber_concat]
    · exact ih next (seen :: before)

end Spot

namespace Library

variable {library : Library}

/-- A flow port runs the same instance, known by other numbers. -/
theorem flowTarget_renumber (inj : Function.Injective ρ) (bound : Nat) (spot : Spot) :
    (library.renumber ρ).flowTarget bound (spot.renumber ρ) =
      (library.flowTarget bound spot).map (Prod.map (Option.map (Instance.renumber ρ)) (Trail.renumber ρ)) :=
  Spot.follow_renumber (fun spot => congrArg Except.ok (Spot.flowHop_renumber inj spot)) bound spot []

/-- A value port is fed by the same source, known by other numbers. -/
theorem valueSource_renumber (inj : Function.Injective ρ) (bound : Nat) (spot : Spot) :
    (library.renumber ρ).valueSource bound (spot.renumber ρ) =
      (library.valueSource bound spot).map (Prod.map (Option.map (ValueSource.renumber ρ)) (Trail.renumber ρ)) :=
  Spot.follow_renumber (Spot.valueHop_renumber inj) bound spot []

end Library

/-! ### Sources -/

namespace Sources

/-- The same sources, with their graphs under other numbers. -/
def renumber (ρ : GraphId → GraphId) (src : Sources) : Sources :=
  { src with library := src.library.renumber ρ, entry := ρ src.entry }

theorem maxPorts_renumber (inj : Function.Injective ρ) (src : Sources) : (src.renumber ρ).maxPorts = src.maxPorts := by
  refine Nat.le_antisymm (Registry.maxPorts_le fun id index => ?_) (Registry.maxPorts_le fun id index => ?_)
  · rw [renumber]
    rcases Library.graph_renumber_cases id with ⟨place, hgraph⟩ | hnone
    · rw [hgraph, Graph.node_renumber]
      exact Registry.size_ports_le src ⟨.start place, index⟩
    · rw [hnone]
      exact Nat.zero_le _
  · have hports := Registry.size_ports_le (src.renumber ρ) ⟨.start (ρ id), index⟩
    rwa [Instance.graphNode, Instance.graph, renumber, CallPath.start, CallPath.graph, Library.graph_renumber inj,
      Graph.node_renumber] at hports

end Sources

end BehaviorTree
