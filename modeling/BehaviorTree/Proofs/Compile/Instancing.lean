import BehaviorTree.Proofs.Compile.Soundness

/-! A program that is compiled without errors has one node for every instance that is run from the root, and
every child of a node is the instance that its flow port runs. Instances are told apart by the hashes of their
paths, so this holds as long as no two paths of calls have the same hash. -/

namespace BehaviorTree

/-- No two paths of calls have the same hash. -/
def CallPath.Distinct (library : Library) (entry : GraphId) : Prop :=
  ∀ path path' : CallPath, path.Valid library entry → path'.Valid library entry → path.hash = path'.hash → path = path'

namespace Instance

/-- The number of what is run: one more than its place among the instances, and zero for nothing. -/
def Numbered (instances : List Instance) (target : Option Instance) (id : NodeId) : Prop :=
  match target with
  | none => id = .nop
  | some j => ∃ k, instances[k]? = some j ∧ id.toNat = k + 1

/-- The entry of an instance. Each child is the only instance that its flow port runs. -/
structure Compiled (library : Library) (instances : List Instance) (i : Instance) (entry : Entry) : Prop where
  debugId : entry.debugId = i.debugId library
  path : entry.path = i.path.instanceIds library
  kind : ∃ a, (i.graphNode library).role = .action a ∧ entry.node.kind = a.kind
  children : List.Forall₂ (fun port child => ∃ target,
    (∀ other, FlowsTo library ⟨i.path, i.node, port⟩ other ↔ other = target) ∧ Numbered instances target child)
    (i.graphNode library).flowOutputs entry.node.children

/-- Instances of one key are one if no hashes collide. -/
theorem eq_of_key {library : Library} {entry : GraphId} (distinct : CallPath.Distinct library entry) {i j : Instance}
    (hi : i.path.Valid library entry) (hj : j.path.Valid library entry) (h : i.key = j.key) : i = j := by
  obtain ⟨hhash, -, hnode⟩ := InstanceKey.mk.inj h
  obtain ⟨path, node⟩ := i
  obtain ⟨path', node'⟩ := j
  rw [mk.injEq]
  exact ⟨distinct path path' hi hj hhash, hnode⟩

end Instance

namespace Registry

variable {src : Sources} {bound : Nat} {r : Registry}

/-- The numbered actions are those that are run from the root. -/
theorem Complete.mem_actionOrder_iff (complete : Complete src bound r) (formed : src.library.Formed)
    (bounded : src.library.Bounded src.entry) (distinct : CallPath.Distinct src.library src.entry) {i : Instance} :
    i ∈ r.actionOrder ↔ Reached src.library src.entry i := by
  constructor
  · exact fun hi => (complete.reached i hi).1
  · intro reached
    induction reached with
    | @root index hrole =>
      obtain ⟨root, hroots, hfirst⟩ := complete.root
      obtain rfl : index = root := by
        have hmem := mem_roots.mpr hrole
        simpa [hroots] using hmem
      exact Array.mem_of_getElem? hfirst
    | @child i j reached port hport hflow ih =>
      obtain ⟨target, leads, hknown⟩ := complete.flows i ih port hport
      have controls := controls_of_mem_flowOutputs reached.action.1 hport
      obtain ⟨n, hn⟩ := hknown j ((leads.iff formed bounded controls (some j)).mp hflow).symm
      obtain ⟨k, other, hother, hkey, -⟩ := (complete.actions _ _).mp hn
      have hmem := Array.mem_of_getElem? hother
      have hvalid := (complete.reached other hmem).1.action.1
      rwa [Instance.eq_of_key distinct hvalid (reached.child hport hflow).action.1 hkey] at hmem

/-- The number of a reached instance is one more than its place. -/
theorem Complete.numbered (complete : Complete src bound r) (distinct : CallPath.Distinct src.library src.entry)
    {j : Instance} (reached : Reached src.library src.entry j) {id : NodeId} (hid : r.actions[j.key]? = some id) :
    Instance.Numbered r.actionOrder.toList (some j) id := by
  have hnumber : r.actionNumber j.key = some id.toNat := by rw [actionNumber, hid]; rfl
  obtain ⟨k, other, hother, hkey, hk⟩ := (complete.actions _ _).mp hnumber
  have hvalid := (complete.reached other (Array.mem_of_getElem? hother)).1.action.1
  obtain rfl := Instance.eq_of_key distinct hvalid reached.action.1 hkey
  exact ⟨k, (Array.getElem?_toList ..).trans hother, by omega⟩

theorem Complete.nodup_actionOrder (complete : Complete src bound r) : r.actionOrder.toList.Nodup := by
  refine List.nodup_iff_getElem?_ne_getElem?.mpr fun k k' hlt hlt' hsame => ?_
  have hi := List.getElem?_eq_getElem hlt'
  simp only [Array.getElem?_toList] at hi hsame
  have := complete.actions.inj (hsame.trans hi) hi rfl
  omega

end Registry

/-- The entry of an instance stands behind the terminal node, at the place of the instance. -/
theorem Plan.Made.compiled {plan : Plan} {p : Program} {entries : List Entry} {operations : List Operation}
    (made : plan.Made p entries operations) (sound : plan.Sound)
    (distinct : CallPath.Distinct plan.src.library plan.src.entry) {k : Nat} {i : Instance}
    (hi : plan.registry.actionOrder[k]? = some i) : ∃ entry, p.entries[k + 1]? = some entry ∧ plan.EntryOf p i entry ∧
      i.Compiled plan.src.library plan.registry.actionOrder.toList entry := by
  have reached := (sound.complete.reached i (Array.mem_of_getElem? hi)).1
  obtain ⟨entry, hentry, of⟩ := made.entry hi
  obtain ⟨a, hrole, emitted⟩ := of.node
  refine ⟨entry, by rw [Nat.add_comm]; exact hentry, of, of.debugId, of.path, ⟨a, hrole, emitted.kind⟩, ?_⟩
  have hports : ∀ port ∈ (i.graphNode plan.src.library).flowOutputs, port ∈ (i.graphNode plan.src.library).flowOutputs :=
    fun _ h => h
  refine ((List.forall₂_and_left _ _).mpr ⟨hports, emitted.children⟩).imp ?_
  rintro port child ⟨hport, target, hflow, hid⟩
  refine ⟨target, hflow, ?_⟩
  cases target with
  | none => exact hid
  | some j => exact sound.complete.numbered distinct (reached.child hport ((hflow _).mpr rfl)) hid

namespace Sources

/-- Compilation without errors makes one node of every instance that is run from the root, and no others. -/
theorem instances_of_compile {src : Sources} (built : src.library.Built) (bounded : src.library.Bounded src.entry)
    (distinct : CallPath.Distinct src.library src.entry) {c : Compilation} (h : src.compile = .ok c)
    (hclean : c.errors = []) :
    ∃ instances : List Instance, instances.Nodup ∧ (∀ i, i ∈ instances ↔ Reached src.library src.entry i) ∧
      c.program.size = instances.length + 1 ∧ ∀ k i, instances[k]? = some i →
        ∃ entry, c.program.entries[k + 1]? = some entry ∧ i.Compiled src.library instances entry := by
  obtain ⟨registry, entries, operations, sound, made⟩ := made_of_compile built bounded h hclean
  have complete := sound.complete
  refine ⟨registry.actionOrder.toList, complete.nodup_actionOrder, fun i => ?_, made.size, fun k i hi => ?_⟩
  · rw [Array.mem_toList_iff]
    exact complete.mem_actionOrder_iff built.formed bounded distinct
  · rw [Array.getElem?_toList] at hi
    obtain ⟨entry, hentry, -, compiled⟩ := made.compiled sound distinct hi
    exact ⟨entry, hentry, compiled⟩

section

variable {library : Library}
  (hcalls : ∀ via callee, ((library.graph 1).node via).role = .call callee → (via = 2 ∨ via = 3) ∧ callee = 0)
  (hflat : ∀ via callee, ((library.graph 0).node via).role ≠ .call callee)

include hcalls hflat

/-- A graph that calls another one at two nodes is entered once, and the other one through each of its calls. -/
theorem paths_of_two_calls {path : CallPath} (valid : path.Valid library 1) :
    path ∈ [CallPath.start 1, (CallPath.start 1).enter 2 0, (CallPath.start 1).enter 3 0] := by
  induction valid with
  | start => decide
  | @enter path via callee valid hcall ih =>
    simp only [List.mem_cons, List.not_mem_nil, or_false] at ih
    rcases ih with rfl | rfl | rfl
    · obtain ⟨rfl | rfl, rfl⟩ := hcalls via callee hcall
      · simp
      · simp
    · exact absurd hcall (hflat via callee)
    · exact absurd hcall (hflat via callee)

theorem distinct_of_two_calls : CallPath.Distinct library 1 := by
  have hhashes : [CallPath.start 1, (CallPath.start 1).enter 2 0, (CallPath.start 1).enter 3 0].map (·.hash) =
    [0, 12050860564758774805, 1903288345924078488] := by cbv
  intro path path' valid valid' hsame
  exact List.inj_on_of_nodup_map (by rw [hhashes]; decide) (paths_of_two_calls hcalls hflat valid)
    (paths_of_two_calls hcalls hflat valid') hsame

end

theorem crossings_calls (via : Nat) (callee : GraphId)
    (h : ((crossings.library.graph 1).node via).role = .call callee) : (via = 2 ∨ via = 3) ∧ callee = 0 := by
  change (crossing.node via).role = _ at h
  rw [Graph.role_node, crossing_roles] at h
  rcases via with - | - | - | - | - | - | - | via <;> simp_all

theorem crossings_flat (via : Nat) (callee : GraphId) :
    ((crossings.library.graph 0).node via).role ≠ .call callee := by
  intro h
  change (gate.node via).role = _ at h
  rw [Graph.role_node, gate_roles] at h
  rcases via with - | - | - | via <;> simp_all

theorem crossings_paths {path : CallPath} (valid : path.Valid crossings.library crossings.entry) :
    path ∈ [CallPath.start 1, (CallPath.start 1).enter 2 0, (CallPath.start 1).enter 3 0] :=
  paths_of_two_calls crossings_calls crossings_flat valid

theorem crossings_distinct : CallPath.Distinct crossings.library crossings.entry :=
  distinct_of_two_calls crossings_calls crossings_flat

/-- The crossing has a gate of its own for each of its calls. -/
theorem instances_of_compile_crossings : ∃ c, crossings.compile = .ok c ∧ c.errors = [] ∧ c.program.size = 7 ∧
    ∃ instances : List Instance, instances.Nodup ∧
      (∀ i, i ∈ instances ↔ Reached crossings.library crossings.entry i) ∧
      c.program.size = instances.length + 1 ∧ ∀ k i, instances[k]? = some i →
        ∃ entry, c.program.entries[k + 1]? = some entry ∧ i.Compiled crossings.library instances entry := by
  have instances := instances_of_compile crossings_built crossings_bounded crossings_distinct crossings_compile rfl
  exact ⟨_, crossings_compile, rfl, rfl, instances⟩

end Sources

end BehaviorTree
