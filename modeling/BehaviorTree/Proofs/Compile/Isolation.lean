import BehaviorTree.Proofs.Machine.Isolation
import BehaviorTree.Proofs.Memory.Apart

/-! What compiled programs leave alone. A node of a program writes the variable, or the fields, that a node of the
graph names, and different names stand for different bytes. So a variable or a field that is named by no node that
is run from the root keeps its value, whatever happens. -/

namespace BehaviorTree

/-- The node writes nothing. -/
def Node.Silent (node : Node) : Prop :=
  node.slot? = none ∧ ∀ index fields, node ≠ .writeField index fields

/-- The node writes the variable. -/
def Action.Assigns (a : Action) (var : String) : Prop :=
  a = .writeVar var ∨ ∃ id, a = .query id var

namespace Sources

/-- A node that is run from the root writes the variable. -/
def AssignsVar (src : Sources) (var : String) : Prop :=
  ∃ i a, Reached src.library src.entry i ∧ (i.graphNode src.library).role = .action a ∧ a.Assigns var

/-- A node that is run from the root writes the field of the component. -/
def AssignsField (src : Sources) (component field : String) : Prop :=
  ∃ i, Reached src.library src.entry i ∧ (i.graphNode src.library).role = .action (.writeField component) ∧
    ∃ port ∈ (i.graphNode src.library).valueInputs, ((i.graphNode src.library).port port).name = field

/-- Variables and fields that are written by no node that is run from the root are as they were, and all memory has
kept its size. -/
structure Isolated {σ : Type} (src : Sources) (p : Program) (world world' : World σ) : Prop where
  blackboard : world'.blackboard.size = world.blackboard.size
  vars : ∀ var slot, src.blackboard.get? var = some slot → ¬src.AssignsVar var →
    world'.blackboard.slice slot.offset.toNat slot.length = world.blackboard.slice slot.offset.toNat slot.length
  count : world'.components.size = world.components.size
  components : ∀ (index : Nat) (store : Storage), world.components[index]? = some store →
    ∃ store', world'.components[index]? = some store' ∧ store'.data.size = store.data.size ∧
      ∀ type layout, p.types[index]? = some type → src.catalog.get? type.name = some layout →
        ∀ field ∈ layout.fields, ¬src.AssignsField type.name field.name →
          store'.data.slice field.offset.toNat field.type.size = store.data.slice field.offset.toNat field.type.size

end Sources

/-! ### Emission -/

namespace Plan

variable {plan : Plan} {i : Instance}

/-- The write goes to the field that the port names. -/
def Names (plan : Plan) (i : Instance) (layout : ComponentLayout) (port : Nat) (write : FieldWrite) : Prop :=
  ∃ field, layout.field? ((plan.node i).port port).name = some field ∧ write.offset = field.offset ∧
    write.length = UInt16.ofNat field.type.size

/-- The node writes what the action names. -/
structure Targets (plan : Plan) (i : Instance) (a : Action) (node : Node) : Prop where
  slot : ∀ slot, node.slot? = some slot → ∃ var, a.Assigns var ∧ plan.src.blackboard.get? var = some slot
  fields : ∀ index fields, node = .writeField index fields → ∃ component layout, a = .writeField component ∧
    plan.componentIndex? component = some index ∧ plan.src.catalog.get? component = some layout ∧
    ∀ write ∈ fields, ∃ port ∈ (plan.node i).valueInputs, plan.Names i layout port write

theorem Targets.of_silent {a : Action} {node : Node} (silent : node.Silent) : plan.Targets i a node where
  slot slot h := by simp [silent.1] at h
  fields index fields h := absurd h (silent.2 index fields)

theorem slot?_of_blackboard (site : Location) (var : String) :
    (plan.slot? site var).Returns fun found => ∀ slot, found = some slot → plan.src.blackboard.get? var = some slot := by
  unfold slot?
  split
  next slot hslot => exact .pure fun _ h => hslot.trans h
  next => exact .seq fun _ => .pure fun _ h => nomatch h

theorem fieldWrite?_names (plan : Plan) (i : Instance) (layout : ComponentLayout) (port : Nat) :
    (plan.fieldWrite? i layout ((plan.node i).port port)).Returns fun result =>
      ∀ write, result = some write → plan.Names i layout port write := by
  unfold fieldWrite?
  dsimp only
  split
  next => exact .pure fun _ h => nomatch h
  next => exact .seq fun _ => .pure fun _ h => nomatch h
  next type field _ hfield =>
    refine .seq fun _ => .seq fun value => .pure fun write h => ?_
    obtain rfl := Option.some.inj h
    exact ⟨field, hfield, rfl, rfl⟩

theorem writeField_targets (plan : Plan) (i : Instance) (component : String) :
    (plan.writeField i component).Returns (plan.Targets i (.writeField component)) := by
  unfold writeField
  split
  next layout index hlayout hindex =>
    refine (Emit.Returns.mapM fun port _ => plan.fieldWrite?_names i layout port).bind fun writes hwrites => .pure ?_
    refine ⟨fun slot h => by simp [Node.slot?] at h, fun index' fields h => ?_⟩
    obtain ⟨rfl, rfl⟩ := Node.writeField.inj h
    refine ⟨component, layout, rfl, hindex, hlayout, fun write hwrite => ?_⟩
    obtain ⟨result, hresult, hsome⟩ := List.mem_filterMap.mp hwrite
    obtain ⟨port, hport, hnames⟩ := Emit.exists_of_mem_right hwrites hresult
    exact ⟨port, hport, hnames write hsome⟩
  next => exact .seq fun _ => .pure (.of_silent ⟨rfl, by simp⟩)

theorem withChildren_targets {emit : List Nat → Emit Node} {a : Action} (h : ∀ ports, (emit ports).Returns (plan.Targets i a)) :
    (plan.withChildren i emit).Returns (plan.Targets i a) := by
  unfold withChildren
  dsimp only
  split_ifs
  · exact .seq fun _ => .pure (.of_silent ⟨rfl, by simp⟩)
  · exact h _

/-- What is emitted for an action writes what the action names. -/
theorem action_targets (plan : Plan) (i : Instance) (a : Action) : (plan.action i a).Returns (plan.Targets i a) := by
  cases a with
  | root | «catch» | threadRoot | waitFor | waitUntil =>
    rw [action]
    exact .seq fun _ => .pure (.of_silent ⟨rfl, by simp⟩)
  | sequence =>
    rw [action]
    refine withChildren_targets fun ports => .seq fun children => .pure ?_
    exact .of_silent ⟨rfl, by simp⟩
  | selector =>
    rw [action]
    refine withChildren_targets fun ports => .seq fun branches => .pure ?_
    exact .of_silent ⟨rfl, by simp⟩
  | writeField component => exact plan.writeField_targets i component
  | fail => exact .pure (.of_silent ⟨rfl, by simp⟩)
  | optional | parallel =>
    rw [action]
    exact .seq fun _ => .seq fun _ => .pure (.of_silent ⟨rfl, by simp⟩)
  | writeVar var =>
    refine (slot?_of_blackboard _ var).bind fun found hfound => ?_
    cases found with
    | none => exact .pure (.of_silent ⟨rfl, by simp⟩)
    | some slot =>
      refine .seq fun _ => .seq fun value => .pure ⟨fun slot' h => ?_, fun _ _ h => (by cases h)⟩
      obtain rfl := Option.some.inj h
      exact ⟨var, .inl rfl, hfound slot rfl⟩
  | query id var =>
    refine (slot?_of_blackboard _ var).bind fun found hfound => ?_
    cases found with
    | none => exact .pure (.of_silent ⟨rfl, by simp⟩)
    | some slot =>
      refine .pure ⟨fun slot' h => ?_, fun _ _ h => (by cases h)⟩
      obtain rfl := Option.some.inj h
      exact ⟨var, .inr ⟨id, rfl⟩, hfound slot rfl⟩

/-- The node writes nothing, or what the action of an instance names. -/
def Accounted (plan : Plan) (node : Node) : Prop :=
  node.Silent ∨ ∃ i ∈ plan.registry.actionOrder, ∃ a, (plan.node i).role = .action a ∧ plan.Targets i a node

theorem entry_accounted (hi : i ∈ plan.registry.actionOrder) :
    (plan.entry i).Returns fun entry => plan.Accounted entry.node := by
  unfold entry
  cases hrole : (plan.node i).role with
  | action a => exact (plan.action_targets i a).bind fun node targets => .pure (.inr ⟨i, hi, a, hrole, targets⟩)
  | _ =>
    have hnop : (pure .nop : Emit Node).Returns Node.Silent := .pure ⟨rfl, by simp⟩
    exact hnop.bind fun node silent => .pure (.inl silent)

theorem entries_accounted (plan : Plan) :
    plan.entries.Returns fun entries => ∀ entry ∈ entries, plan.Accounted entry.node := by
  unfold entries
  split
  next =>
    refine .pure fun entry h => ?_
    obtain rfl := List.mem_singleton.mp h
    exact .inl ⟨rfl, by simp [Entry.ofNode]⟩
  next =>
    intro d entries d' hrun entry hentry
    have hall := Emit.Returns.mapM (fun i hi => plan.entry_accounted (Array.mem_toList_iff.mp hi)) d entries d' hrun
    obtain ⟨i, -, accounted⟩ := Emit.exists_of_mem_right hall hentry
    exact accounted

theorem accounted_of_program {d d' : Draft} {p : Program} (h : plan.program d = .ok (p, d')) {id : NodeId} {node : Node}
    (hnode : p.node? id = some node) : plan.Accounted node := by
  obtain ⟨entries, d₁, hentries, h⟩ := Emit.bind_eq_ok_iff.mp h
  obtain ⟨operations, d₂, hoperations, h⟩ := Emit.bind_eq_ok_iff.mp h
  obtain ⟨_, _, hget, h⟩ := Emit.bind_eq_ok_iff.mp h
  obtain ⟨rfl, -⟩ := Prod.mk.inj (Except.ok.inj h)
  obtain ⟨entry, hentry, rfl⟩ := Option.map_eq_some_iff.mp hnode
  have hmem : entry ∈ Entry.ofNode .nop :: entries := List.mem_toArray.mp (Array.mem_of_getElem? hentry)
  obtain rfl | hmem := List.mem_cons.mp hmem
  · exact .inl ⟨rfl, by simp [Entry.ofNode]⟩
  · exact plan.entries_accounted d entries d₁ hentries entry hmem

/-! ### Memory -/

section

variable {p : Program} {k : Nat} (sound : plan.Sound)
  (accounted : ∀ id node, p.node? id = some node → plan.Accounted node)

include sound accounted

/-- No node writes into a variable that no node of the graph names. -/
theorem not_stores (declared : plan.src.blackboard.Built) (hboard : plan.src.blackboard.size < 2 ^ 32) {var : String}
    {slot : VarSlot} (hslot : plan.src.blackboard.get? var = some slot) (free : ¬plan.src.AssignsVar var)
    (hk : Memory.Within slot.offset.toNat slot.length k) : ¬p.Stores k := by
  rintro ⟨id, node, written, hnode, hwritten, hk'⟩
  obtain silent | ⟨i, hi, a, hrole, targets⟩ := accounted id node hnode
  · cases silent.1.symm.trans hwritten
  · obtain ⟨other, assigns, hother⟩ := targets.slot written hwritten
    have hne : var ≠ other := fun heq => free ⟨i, a, (sound.complete.reached i hi).1, hrole, heq ▸ assigns⟩
    obtain ⟨hlow, hhigh⟩ := hk
    obtain ⟨hlow', hhigh'⟩ := hk'
    obtain h | h := declared.apart hboard hne hslot hother <;> omega

/-- No node writes into a field that no node of the graph names. -/
theorem not_storesField (made : ∀ component index layout, plan.componentIndex? component = some index →
      plan.src.catalog.get? component = some layout →
      p.types[index.toNat]? = some ⟨component, componentTypeId component, layout.size⟩)
    (built : plan.src.catalog.Built) (fields : plan.src.catalog.InRange) {index : Nat} {type : ComponentType}
    {layout : ComponentLayout} (htype : p.types[index]? = some type) (hlayout : plan.src.catalog.get? type.name = some layout)
    {field : Field} (hfield : field ∈ layout.fields) (free : ¬plan.src.AssignsField type.name field.name)
    (hk : Memory.Within field.offset.toNat field.type.size k) : ¬p.StoresField index k := by
  rintro ⟨id, written, writes, hnode, rfl, write, hwrite, hk'⟩
  obtain silent | ⟨i, hi, a, hrole, targets⟩ := accounted id _ hnode
  · exact silent.2 written writes rfl
  · obtain ⟨component, other, rfl, hindex, hother, hnames⟩ := targets.fields written writes rfl
    obtain ⟨port, hport, target, htarget, hoffset, hlength⟩ := hnames write hwrite
    obtain rfl := Option.some.inj (htype.symm.trans (made component written other hindex hother))
    obtain rfl := Option.some.inj (hlayout.symm.trans hother)
    have hname : target.name = ((plan.node i).port port).name := by
      simpa using List.find?_some htarget
    have hne : field ≠ target := by
      rintro rfl
      exact free ⟨i, (sound.complete.reached i hi).1, hrole, port, hport, hname.symm⟩
    obtain ⟨hlow, hhigh⟩ := hk
    obtain ⟨hlow', hhigh'⟩ := hk'
    rw [hlength, size_toNat, hoffset] at hhigh'
    rw [hoffset] at hlow'
    obtain h | h := built.apart fields hlayout hfield (ComponentLayout.mem_of_field? htarget) hne
    · have : field.offset.toNat + field.type.size ≤ target.offset.toNat := h
      omega
    · have : target.offset.toNat + target.type.size ≤ field.offset.toNat := h
      omega

end

end Plan

namespace Sources

/-- In every run of a program that was compiled without errors, from any memory and whatever happens in its ticks and
between them, variables and fields that are written by no node that is run from the root keep their values, and all
memory keeps its size: between ticks, and whenever a step begins. -/
theorem isolated_of_compile {src : Sources} (built : src.library.Built) (bounded : src.library.Bounded src.entry)
    (defined : src.catalog.Built) (fields : src.catalog.InRange) (declared : src.blackboard.Built)
    (hboard : src.blackboard.size < 2 ^ 32) {c : Compilation} (h : src.compile = .ok c) (hclean : c.errors = [])
    (htypes : c.program.types.size ≤ 65536) {σ : Type} [QuerySystem σ] {agent₀ agent : Agent} {world₀ world : World σ}
    (reaches : c.program.Reaches agent₀) (arrives : c.program.Arrives agent₀ world₀ agent world) :
    src.Isolated c.program world₀ world ∧
      ∀ (world' : World σ) (maxCycles index : Nat) (u : Tick σ), world'.components = world.components →
        world'.blackboard = world.blackboard → world'.check c.program = .ok () →
        c.program.Visits maxCycles agent world' index u →
        src.Isolated c.program world₀ u.world ∧ u.world.lookups = world'.lookups := by
  obtain ⟨registry, draft, sound, hprogram, hnil⟩ := program_of_compile built bounded h hclean
  obtain ⟨entries, operations, made⟩ := Plan.made_of_program sound hprogram ConstantPool.formed_empty hnil
  have valid := made.valid sound (made.carried sound htypes fields declared.inRange hboard)
  have accounted (id : NodeId) (node : Node) (hnode : c.program.node? id = some node) :
      (Plan.ofRegistry src registry).Accounted node := Plan.accounted_of_program hprogram hnode
  have isolated {world world' : World σ} (spared : world.Spared c.program world') : src.Isolated c.program world world' := by
    refine ⟨spared.blackboard.size, fun var slot hslot free => ?_, spared.count, fun index store hstore => ?_⟩
    · exact spared.blackboard.slice_eq fun k hk => Plan.not_stores sound accounted declared hboard hslot free hk
    · obtain ⟨store', hstore', -, data⟩ := spared.components index store hstore
      refine ⟨store', hstore', data.size, fun type layout htype hlayout field hfield free => ?_⟩
      exact data.slice_eq fun k hk => Plan.not_storesField sound accounted
        (fun _ _ _ hindex hlayout => made.type sound htypes hindex hlayout) defined fields htype hlayout hfield free hk
  have spared := arrives.spared valid reaches
  refine ⟨isolated spared, fun world' maxCycles index u hcomponents hblackboard checked visits => ?_⟩
  obtain ⟨hstep, hlookups⟩ := visits.spared valid (arrives.reaches reaches) checked
  exact ⟨isolated ((spared.trans (.of_same hcomponents hblackboard)).trans hstep), hlookups⟩

/-- The crossing reads its variable and never writes it. -/
theorem crossings_not_assignsVar (var : String) : ¬crossings.AssignsVar var := by
  rintro ⟨i, a, -, hrole, assigns⟩
  obtain ⟨node, hnode, hsame⟩ := Graph.getElem?_of_role hrole (by simp)
  have hgraph : i.graph crossings.library = gate ∨ i.graph crossings.library = crossing ∨
      (i.graph crossings.library).nodes = #[] := by
    rw [Instance.graph]
    rcases i.path.graph with - | - | id
    · exact .inl rfl
    · exact .inr (.inl rfl)
    · exact .inr (.inr rfl)
  have hroles : Role.action a ∈ gate.nodes.toList.map (·.role) ++ crossing.nodes.toList.map (·.role) := by
    have hmem := Array.mem_of_getElem? hnode
    rw [← hsame, List.mem_append, List.mem_map, List.mem_map]
    obtain hgraph | hgraph | hgraph := hgraph
    · exact .inl ⟨node, Array.mem_toList_iff.mpr (hgraph ▸ hmem), rfl⟩
    · exact .inr ⟨node, Array.mem_toList_iff.mpr (hgraph ▸ hmem), rfl⟩
    · simp [hgraph] at hmem
  rw [gate_roles, crossing_roles] at hroles
  obtain rfl | ⟨id, rfl⟩ := assigns <;> simp at hroles

/-- A tick through the open gate of the crossing changes the speed, and leaves the variable alone. -/
theorem isolated_of_compile_crossings : ∃ c t, crossings.compile = .ok c ∧ c.errors = [] ∧
    c.program.types.size ≤ 65536 ∧ c.program.Reaches .fresh ∧ ¬crossings.AssignsVar "alert" ∧
    c.program.tick 40 .fresh (.blank c.program (Memory.ofBytes [1]) QueryBoard.empty) = .ok t ∧
    t.world.components.map (·.data.data) = #[#[0, 0, 128, 63]] ∧
    crossings.Isolated c.program (.blank c.program (Memory.ofBytes [1]) QueryBoard.empty) t.world := by
  have htick : (crossed.tick 40 Agent.fresh (.blank crossed (Memory.ofBytes [1]) QueryBoard.empty)).map
      (fun t => t.world.components.map (·.data.data)) = .ok #[#[0, 0, 128, 63]] := by decide +kernel
  obtain ⟨t, ht, hwritten⟩ := Refusal.map_eq_ok_iff.mp htick
  have htypes : crossed.types.size ≤ 65536 := by decide
  have hboard : crossings.blackboard.size < 2 ^ 32 := by decide
  have reaches : crossed.Reaches .fresh := .new (show Agent.new 32 8 = .ok .fresh from rfl)
  have isolated := (isolated_of_compile crossings_built crossings_bounded (.define .empty "body" _) crossings_inRange
    (.declare .empty "alert" .bool) hboard crossings_compile rfl htypes reaches (.tick .start rfl rfl ht)).1
  exact ⟨_, t, crossings_compile, rfl, htypes, reaches, crossings_not_assignsVar "alert", ht, hwritten, isolated⟩

end Sources

end BehaviorTree
