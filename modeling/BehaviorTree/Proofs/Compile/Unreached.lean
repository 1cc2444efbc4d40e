import BehaviorTree.Proofs.Compile.Extension
import BehaviorTree.Proofs.Compile.Likeness

/-! Nodes that are not reached. When the entry graph is extended, registration meets the same instances in the same
order, however long the lists of nodes and links have become, and emission asks nothing about the new nodes. So the
program stays the same, and so do the errors; of the new nodes it is only said that they are never reached. -/

namespace BehaviorTree

open Relation Refusal

/-- What is reported as never reached. -/
theorem Registry.mem_unreached {src : Sources} {r : Registry} {w : CompileWarning} : w ∈ r.unreached src ↔
    ∃ id ∈ r.graphs, ∃ index < (src.library.graph id).nodes.size,
      ¬((src.library.graph id).node index).role.isBoundary ∧ (id, index) ∉ r.visited ∧
        w = .unreachable ((src.library.graph id).location index) := by
  simp only [unreached, List.mem_flatMap, Array.mem_toList_iff, List.mem_filterMap, List.mem_range]
  refine exists_congr fun id => and_congr_right fun _ => exists_congr fun index => and_congr_right fun _ => ?_
  by_cases hvisited : (id, index) ∈ r.visited <;>
    by_cases hboundary : ((src.library.graph id).node index).role.isBoundary <;>
    simp [hvisited, hboundary, @eq_comm _ w]

namespace Sources

variable {src : Sources} {graph : Graph}

namespace Extended

variable (h : src.Extended graph) {i : Instance} {bound bound' : Nat} (hle : bound ≤ bound') {r r' : Registry}

include h

/-! ### Registration -/

theorem graphNode_eq (hi : src.Met i) : i.graphNode (src.withEntry graph).library = i.graphNode src.library :=
  h.node_eq (Registry.lt_of_met hi)

theorem place_eq (hi : src.Met i) :
    (i.graph (src.withEntry graph).library).location i.node = (i.graph src.library).location i.node :=
  h.location_eq (Registry.lt_of_met hi)

include hle

/-- A task about what is met does the same, and leads to the same tasks. -/
theorem step_eq {task : Task} {out : List Task × Registry} (met : Registry.TaskMet src task)
    (hstep : r.step src bound task = .ok out) : r.step (src.withEntry graph) bound' task = .ok out := by
  cases task with
  | action i =>
    rw [← hstep, Registry.step, Registry.step, Registry.registerAction, Registry.registerAction, h.graphNode_eq met.1]
    rfl
  | flow spot =>
    obtain ⟨i, port, rfl, hi, hport⟩ := met
    obtain ⟨found, hfound, hout⟩ := bind_eq_ok_iff.mp hstep
    exact bind_eq_ok_iff.mpr ⟨found, h.flowTarget_eq hle hi hport hfound, hout⟩
  | value spot =>
    obtain ⟨i, port, rfl, hi, hport⟩ := met
    obtain ⟨found, hfound, hout⟩ := bind_eq_ok_iff.mp hstep
    exact bind_eq_ok_iff.mpr ⟨found, h.valueSource_eq hle hi hport hfound, hout⟩
  | operator i =>
    rw [← hstep, Registry.step, Registry.step, Registry.registerOperator, Registry.registerOperator,
      h.graphNode_eq met.1, h.place_eq met.1]
    rfl
  | «seal» i => exact hstep

/-- The walk meets the same in the same order. -/
theorem walk_eq {fuel fuel' : Nat} (hfuel : fuel ≤ fuel') {tasks : List Task}
    (met : ∀ task ∈ tasks, Registry.TaskMet src task) (hwalk : Registry.walk src bound fuel tasks r = .ok r') :
    Registry.walk (src.withEntry graph) bound' fuel' tasks r = .ok r' := by
  -- The step agrees on tasks about what is met, and these lead to such tasks only.
  induction fuel generalizing fuel' tasks r with
  | zero =>
    cases tasks with
    | nil => simpa [Registry.walk] using hwalk
    | cons => cases hwalk
  | succ fuel ih =>
    obtain ⟨fuel', rfl⟩ := Nat.exists_eq_succ_of_ne_zero (Nat.ne_zero_of_lt hfuel)
    cases tasks with
    | nil => simpa [Registry.walk] using hwalk
    | cons task tasks =>
      rw [Registry.walk] at hwalk ⊢
      cases hstep : r.step src bound task with
      | error e => simp [hstep] at hwalk
      | ok out =>
        have htask := met task List.mem_cons_self
        rw [hstep] at hwalk
        rw [h.step_eq hle htask hstep]
        refine ih (Nat.le_of_succ_le_succ hfuel) (fun next hnext => ?_) hwalk
        rcases List.mem_append.mp hnext with hnext | hnext
        · exact (Registry.step_taken hstep).met htask next hnext
        · exact met next (List.mem_cons_of_mem task hnext)

omit hle

theorem roots_eq : Registry.roots (src.withEntry graph) = Registry.roots src := by
  obtain ⟨more, hmore⟩ := Nat.exists_eq_add_of_le h.ext.size_le
  have hgraph : (src.withEntry graph).library.graph (src.withEntry graph).entry = graph := graph_withEntry h.entry
  simp only [Registry.roots, hgraph, hmore, List.range_add, List.filter_append]
  have hold : ∀ index ∈ List.range (src.library.graph src.entry).nodes.size,
      graph.node index = (src.library.graph src.entry).node index :=
    fun index hindex => h.ext.node_eq (List.mem_range.mp hindex)
  have hnew : ((List.range more).map ((src.library.graph src.entry).nodes.size + ·)).filter
      (fun index => (graph.node index).role = .action .root) = [] := by
    refine List.filter_eq_nil_iff.mpr fun index hindex => ?_
    obtain ⟨k, -, rfl⟩ := List.mem_map.mp hindex
    simpa using h.ext.roots _ (Nat.le_add_right _ k)
  rw [hnew, List.append_nil]
  exact List.filter_congr fun index hindex => by rw [hold index hindex]

/-- Registration ends with the same registry. -/
theorem build_eq (hbuild : Registry.build src = .ok r) : Registry.build (src.withEntry graph) = .ok r := by
  have hname := h.name_eq src.entry
  unfold Registry.build at hbuild ⊢
  dsimp only at hbuild ⊢
  rw [h.roots_eq]
  cases hroots : Registry.roots src with
  | nil =>
    rw [hroots] at hbuild
    rw [← hbuild]
    simp only [withEntry] at hname ⊢
    rw [hname]
  | cons root others =>
    rw [hroots] at hbuild
    -- Second roots are reported by their labels, but no new node is a root.
    have hextra : ∀ extra ∈ others, extra < (src.library.graph src.entry).nodes.size := fun extra hextra =>
      Graph.lt_of_role (Registry.mem_roots.mp (hroots ▸ List.mem_cons_of_mem root hextra)) (by simp)
    have herrors : others.foldl (fun r extra => r.addError
        (.duplicateRoot (((src.withEntry graph).library.graph src.entry).location extra))) (Registry.start src.entry) =
        others.foldl (fun r extra => r.addError
          (.duplicateRoot ((src.library.graph src.entry).location extra))) (Registry.start src.entry) :=
      List.foldl_ext _ _ _ fun r extra hmem => by rw [h.location_eq (hextra extra hmem)]
    have hroot : Registry.TaskMet src (.action ⟨.start src.entry, root⟩) :=
      ⟨.root hroots, _, Registry.mem_roots.mp (hroots ▸ List.mem_cons_self)⟩
    have hwalk := h.walk_eq h.wireBound_le h.taskBound_le (by simpa using hroot) hbuild
    rw [← herrors] at hwalk
    exact hwalk

/-! ### Emission -/

theorem links_formed (id : GraphId) : ∀ link ∈ ((src.withEntry graph).library.graph id).links,
    ((src.withEntry graph).library.graph id).LinkFormed link := by
  obtain rfl | hne := eq_or_ne id src.entry
  · rw [graph_withEntry h.entry]
    exact h.ext.formed
  · rw [graph_withEntry_of_ne hne]
    exact (h.built.formed.graph id).links

/-- What a registered action runs is found by both compilations. -/
theorem flowTarget_port_eq (w : Registry.Walked src (src.library.wireBound src.entry) [] r) (hi : i ∈ r.actionOrder)
    (port : Nat) : (src.withEntry graph).library.flowTarget ((src.withEntry graph).library.wireBound src.entry)
      (i.spot port) = src.library.flowTarget (src.library.wireBound src.entry) (i.spot port) := by
  obtain ⟨met, a, hrole⟩ := (w.metActions i hi).1
  -- Registration has followed the flow outputs. No link leaves the other ports, in either graph.
  by_cases hport : port ∈ (i.graphNode src.library).flowOutputs
  · rcases w.flows i hi port hport with hmem | ⟨target, trail, hflow, -⟩
    · cases hmem
    · rw [hflow, h.flowTarget_eq h.wireBound_le ⟨met, a, hrole⟩ hport hflow]
  · have hnone : ((i.spot port).graph src.library).linksFrom (i.spot port).ref = [] :=
      Graph.linksFrom_eq_nil (h.built.formed.graph _).links (h.built.formed.ne_outgoing hrole hport)
    have hnone' : ((i.spot port).graph (src.withEntry graph).library).linksFrom (i.spot port).ref = [] := by
      refine Graph.linksFrom_eq_nil (h.links_formed _) ?_
      have hnode := h.graphNode_eq met
      exact (congrArg (fun node => (GraphNode.port node port).direction) hnode).trans_ne
        (h.built.formed.ne_outgoing hrole hport)
    refine Spot.follow_of_last (Spot.not_passesFlow hnone) ?_
    rw [h.flowHop_eq (Registry.lt_of_met met) (Registry.valid_of_met met).1 (hnone'.trans hnone.symm)]

/-- What feeds a registered instance is found by both compilations. -/
theorem valueSource_port_eq (w : Registry.Walked src (src.library.wireBound src.entry) [] r)
    (hi : i ∈ r.actionOrder ∨ i ∈ r.operatorOrder) (met : src.Met i) (port : Nat) :
    (src.withEntry graph).library.valueSource ((src.withEntry graph).library.wireBound src.entry) (i.spot port) =
      src.library.valueSource (src.library.wireBound src.entry) (i.spot port) := by
  by_cases hport : port ∈ (i.graphNode src.library).valueInputs
  · rcases w.values i (hi.imp_right .inl) port hport with hmem | ⟨source, trail, hvalue, -⟩
    · cases hmem
    · rw [hvalue, h.valueSource_eq h.wireBound_le met hport hvalue]
  · have hlinks (hkind : ((i.spot port).portOf src.library).kind ≠ .flow) :
        ((i.spot port).graph src.library).linksTo (i.spot port).ref = [] :=
      Graph.linksTo_eq_nil (h.built.formed.graph _).links (GraphNode.ne_incoming hport hkind)
    refine Spot.follow_of_last (Spot.not_passesValue hlinks) ?_
    exact h.valueHop_eq (Registry.lt_of_met met) (Registry.valid_of_met met).1 (h.linksTo_eq (Registry.lt_of_met met))

theorem instanceIds_eq (path : CallPath) :
    path.instanceIds src.library = path.instanceIds (src.withEntry graph).library := by
  simp only [CallPath.instanceIds, h.name_eq]

theorem debugId_eq (i : Instance) : i.debugId src.library = i.debugId (src.withEntry graph).library := by
  simp only [Instance.debugId, h.instanceIds_eq, Instance.graph, h.name_eq]

theorem sameTarget {j : Instance} (hj : j.node < (j.graph src.library).nodes.size) :
    (Plan.ofRegistry src r).SameTarget (.ofRegistry (src.withEntry graph) r) j j where
  node := .of_eq (h.node_eq hj).symm
  location := (h.location_eq hj).symm
  nodeId := rfl

theorem sameOperands (w : Registry.Walked src (src.library.wireBound src.entry) [] r)
    (hi : i ∈ r.actionOrder ∨ i ∈ r.operatorOrder) (met : src.Met i) :
    (Plan.ofRegistry src r).SameOperands (.ofRegistry (src.withEntry graph) r) i i where
  node := .of_eq (h.graphNode_eq met).symm
  location := (h.place_eq met).symm
  valueSource port := by
    change Emit.Agree _ _ (Emit.trailed ((src.withEntry graph).library.valueSource
      ((src.withEntry graph).library.wireBound src.entry) (i.spot port)))
    rw [h.valueSource_port_eq w hi met port]
    refine Emit.Returns.agree_self fun d source d' hrun => ?_
    rcases source with - | j | value
    · exact .none
    · exact .some (.operator rfl)
    · exact .some (.constant value)

theorem sameAction (w : Registry.Walked src (src.library.wireBound src.entry) [] r) (hi : i ∈ r.actionOrder) :
    (Plan.ofRegistry src r).SameAction (.ofRegistry (src.withEntry graph) r) i i where
  toSameOperands := h.sameOperands w (.inl hi) (w.metActions i hi).1.1
  debugId := h.debugId_eq i
  instanceIds := h.instanceIds_eq i.path
  flowTarget port := by
    change Emit.Agree _ _ (Emit.trailed ((src.withEntry graph).library.flowTarget
      ((src.withEntry graph).library.wireBound src.entry) (i.spot port)))
    rw [h.flowTarget_port_eq w hi port]
    refine Emit.Returns.agree_self fun d target d' hrun => ?_
    cases target with
    | none => exact .none
    | some j =>
      obtain ⟨trail, hflow⟩ := Emit.Returns.trailed _ d (some j) d' hrun
      have valid := (Registry.valid_of_met (w.metActions i hi).1.1).1
      obtain ⟨-, a, hrole⟩ := Spot.EndsFlow.action valid (Spot.ends_of_follow hflow)
      exact .some (h.sameTarget (Graph.lt_of_role hrole (by simp)))

/-- Emission asks nothing about the new nodes. -/
theorem agrees (w : Registry.Walked src (src.library.wireBound src.entry) [] r) :
    (Plan.ofRegistry src r).Agrees (.ofRegistry (src.withEntry graph) r) where
  catalog := rfl
  blackboard := rfl
  typeNames := rfl
  lookups := rfl
  actions := List.forall₂_same.mpr fun _ hi => h.sameAction w (Array.mem_toList_iff.mp hi)
  operators := List.forall₂_same.mpr fun i hi =>
    h.sameOperands w (.inr (Array.mem_toList_iff.mp hi)) (w.metOperators i (Array.mem_toList_iff.mp hi)).1

/-! ### Warnings -/

/-- Of the old nodes, the same are never reached. -/
theorem unreached_mem {warning : CompileWarning} (hmem : warning ∈ r.unreached src) :
    warning ∈ r.unreached (src.withEntry graph) := by
  obtain ⟨id, hid, index, hindex, hboundary, hvisited, rfl⟩ := Registry.mem_unreached.mp hmem
  refine Registry.mem_unreached.mpr ⟨id, hid, index, hindex.trans_le (h.size_le id), ?_, hvisited, ?_⟩
  · rwa [h.node_eq hindex]
  · rw [h.location_eq hindex]

/-- What else is never reached is new. -/
theorem of_mem_unreached {warning : CompileWarning} (hmem : warning ∈ r.unreached (src.withEntry graph)) :
    warning ∈ r.unreached src ∨ ∃ index, (src.library.graph src.entry).nodes.size ≤ index ∧
      index < graph.nodes.size ∧ warning = .unreachable (graph.location index) := by
  obtain ⟨id, hid, index, hindex, hboundary, hvisited, rfl⟩ := Registry.mem_unreached.mp hmem
  obtain hlt | hle := Nat.lt_or_ge index (src.library.graph id).nodes.size
  · rw [h.node_eq hlt] at hboundary
    exact .inl (Registry.mem_unreached.mpr ⟨id, hid, index, hlt, hboundary, hvisited, by rw [h.location_eq hlt]⟩)
  · obtain rfl | hne := eq_or_ne id src.entry
    · rw [graph_withEntry h.entry] at hindex ⊢
      exact .inr ⟨index, hle, hindex, rfl⟩
    · rw [graph_withEntry_of_ne hne] at hindex
      exact absurd hindex (Nat.not_lt.mpr hle)

end Extended

/-- Nodes that are not reached do not matter. If the entry graph is extended by nodes to which control does not lead
and from which no value comes, then it is compiled to the same program with the same errors, and to the warnings are
only added those that new nodes are never reached. -/
theorem compile_withEntry (built : src.library.Built) (hentry : src.entry < src.library.size)
    (ext : (src.library.graph src.entry).Extends graph) (clear : src.Clear graph) {c : Compilation}
    (h : src.compile = .ok c) :
    ∃ c', (src.withEntry graph).compile = .ok c' ∧ c'.program = c.program ∧ c'.errors = c.errors ∧
      (∀ warning ∈ c.warnings, warning ∈ c'.warnings) ∧
      ∀ warning ∈ c'.warnings, warning ∈ c.warnings ∨
        ∃ index, (src.library.graph src.entry).nodes.size ≤ index ∧ index < graph.nodes.size ∧
          warning = .unreachable (graph.location index) := by
  have extended : src.Extended graph := ⟨built, hentry, ext, clear⟩
  obtain ⟨r, hbuild, hrest⟩ := bind_eq_ok_iff.mp h
  obtain ⟨⟨program, draft⟩, hprogram, hc⟩ := bind_eq_ok_iff.mp hrest
  obtain rfl := Except.ok.inj hc
  have hbuild' := extended.build_eq hbuild
  rw [(extended.agrees (Registry.walked_of_build hbuild)).program] at hprogram
  refine ⟨_, bind_eq_ok_iff.mpr ⟨r, hbuild', bind_eq_ok_iff.mpr ⟨(program, draft), hprogram, rfl⟩⟩, rfl, rfl, ?_, ?_⟩
  · intro warning hmem
    simp only [List.mem_eraseDups, List.mem_append] at hmem ⊢
    exact hmem.imp_left (Or.imp_right extended.unreached_mem)
  · intro warning hmem
    simp only [List.mem_eraseDups, List.mem_append] at hmem ⊢
    rcases hmem with (hmem | hmem) | hmem
    · exact .inl (.inl (.inl hmem))
    · exact (extended.of_mem_unreached hmem).imp_left fun hmem => .inl (.inr hmem)
    · exact .inl (.inr hmem)

/-- Control leaves graphs with one output node through flow ports only. -/
theorem clear_of_bounded (built : src.library.Built) (bounded : src.library.Bounded src.entry)
    (ext : (src.library.graph src.entry).Extends graph) : src.Clear graph := by
  rintro i ⟨met, -⟩ port hport spot hpath hentry hkind link hlink
  have valid := (Registry.valid_of_met met).1
  have within := Spot.kept_of_path (Spot.Within src.library src.entry) (fun _ _ => Spot.PassesFlow.within)
    (Registry.within_of_flowOutputs valid hport) hpath
  have controls := Spot.kept_of_path (Spot.Controls src.library src.entry)
    (fun spot next ⟨seen, hhop⟩ controls => Spot.flowHop_controls built.formed bounded controls (by
      rw [Except.ok.inj hhop]))
    (Registry.controls_of_mem_flowOutputs valid hport) hpath
  have hlt := within.node_lt
  rw [Spot.graph, hentry] at hlt
  have hnone : graph.linksFrom spot.ref = [] := by
    refine Graph.linksFrom_eq_nil ext.formed fun houtgoing => hkind (controls.kind ?_)
    rw [Spot.ref, ext.node_eq hlt] at houtgoing
    rwa [Spot.portOf, Spot.graph, hentry]
  rw [hnone] at hlink
  cases hlink

/-! ### Extended crossings -/

/-- The crossing with a guarded way to its write, which nobody takes. -/
def detour : Graph :=
  ((((crossing.add .optional).1.add .not).1.link (7, "child") (4, "in")).link (6, "out") (8, "a")).link
    (8, "out") (7, "guard")

theorem crossing_extends_detour : crossing.Extends detour := by
  have hsize : crossing.nodes.size = 7 := by cbv
  have added : crossing.Extends ((crossing.add .optional).1.add .not).1 :=
    ((Graph.Extends.refl (crossings_built.formed.graph 1).links).add _ (by decide)).add _ (by decide)
  have joined := added.link (7, "child") (4, "in") .flow (by cbv) (by simp [hsize]) (by simp [hsize]) (by simp)
  have fed := joined.link (6, "out") (8, "a") (.value .bool) (by cbv) (by simp [hsize]) (by simp)
    (by simp [hsize])
  exact fed.link (8, "out") (7, "guard") (.value .bool) (by cbv) (by simp [hsize]) (by simp)
    (by simp [hsize])

/-- The detour changes nothing, and is reported. -/
theorem compile_withEntry_detour : ∃ c c', crossings.compile = .ok c ∧ c.errors = [] ∧
    (crossings.withEntry detour).compile = .ok c' ∧ c'.program = c.program ∧ c'.errors = [] ∧
    ∀ warning ∈ c'.warnings, warning ∈ c.warnings ∨ ∃ index, 7 ≤ index ∧ index < 9 ∧
      warning = .unreachable (detour.location index) := by
  have ext : (crossings.library.graph crossings.entry).Extends detour := crossing_extends_detour
  obtain ⟨c', hc', hprogram, herrors, -, hwarnings⟩ := compile_withEntry crossings_built (by decide) ext
    (clear_of_bounded crossings_built crossings_bounded ext) crossings_compile
  have hsize : (crossings.library.graph crossings.entry).nodes.size = 7 := by cbv
  have hsize' : detour.nodes.size = 9 := by cbv
  rw [hsize, hsize'] at hwarnings
  exact ⟨_, c', crossings_compile, rfl, hc', hprogram, herrors, hwarnings⟩

/-- A graph with two output nodes. Control leaves it by the name of a value. -/
def leak : Graph :=
  .assemble "leak" [.input [("go", .flow)], .output [("x", .value .int)], .output [("x", .flow)]]
    [((0, "go"), (2, "x"))] [((1, "x"), .int 3)]

def bucket : Graph :=
  .assemble "bucket" [.root, .call 0 leak] [((0, "child"), (1, "go"))] []

/-- The value is written. -/
def drain : Graph :=
  (bucket.add (.writeVar "level" .int)).1.link (1, "x") (2, "value")

def leaking : Sources :=
  ⟨#[leak, bucket], .empty, (BlackboardLayout.empty.declare "level" .int).1, 1⟩

theorem leaking_built : leaking.library.Built := by
  have leakBuilt : Library.Built #[leak] := .push .empty (Graph.built_assemble (by simp [NodeSpec.Known]))
  exact .push leakBuilt (Graph.built_assemble (by simp [NodeSpec.Known]))

theorem bucket_extends_drain : bucket.Extends drain := by
  have hsize : bucket.nodes.size = 2 := by cbv
  have added : bucket.Extends (bucket.add (.writeVar "level" .int)).1 :=
    (Graph.Extends.refl (leaking_built.formed.graph 1).links).add _ (by decide)
  exact added.link (1, "x") (2, "value") (.value .int) (by cbv) (by simp [hsize]) (by simp) (by simp [hsize])

/-- Where control takes the way of a value, a node that only reads the value is run. -/
theorem not_forall_compile_withEntry : ¬ ∀ (src : Sources) (graph : Graph) (c : Compilation), src.library.Built →
    src.entry < src.library.size → (src.library.graph src.entry).Extends graph → src.compile = .ok c →
    ∃ c', (src.withEntry graph).compile = .ok c' ∧ c'.program = c.program := by
  intro hkept
  have hcompile : leaking.compile.map (·.program.size) = .ok 2 := by cbv
  have hdrain : (leaking.withEntry drain).compile.map (·.program.size) = .ok 3 := by cbv
  obtain ⟨c, hc, hsize⟩ := map_eq_ok_iff.mp hcompile
  obtain ⟨c', hc', hprogram⟩ := hkept leaking drain c leaking_built (by decide) bucket_extends_drain hc
  rw [hc'] at hdrain
  have hsame : c'.program.size = 3 := Except.ok.inj hdrain
  rw [hprogram, hsize] at hsame
  exact absurd hsame (by decide)

/-- An operator in the place of the write is not run, but reported. -/
example : (leaking.withEntry ((bucket.add (.arith .add .int)).1.link (1, "x") (2, "a"))).compile.map (·.errors) =
    .ok [.wrongCategory ⟨"bucket", "arith2"⟩ "a"] := by
  cbv

end Sources

end BehaviorTree
