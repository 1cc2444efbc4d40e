import BehaviorTree.Proofs.Compile.Emission
import BehaviorTree.Proofs.Program.Validity

/-! The instruction that is emitted for each kind of action and of operator. Whatever a program has to offer an
instruction is gathered first; an emission without errors asks for nothing else. -/

namespace BehaviorTree

def Action.kind : Action → NodeKind
  | root => .root
  | sequence => .sequence
  | selector => .selector
  | writeField _ => .writeField
  | waitFor | waitUntil => .wait
  | fail => .fail
  | optional => .optional
  | .catch => .catch
  | writeVar _ => .writeVar
  | query _ _ => .query
  | parallel => .parallel
  | threadRoot _ => .threadRoot

/-- Every field lies in its component. -/
def Catalog.InRange (catalog : Catalog) : Prop :=
  ∀ name layout, catalog.get? name = some layout →
    ∀ field ∈ layout.fields, field.offset.toNat + field.type.size ≤ layout.size.toNat

/-- Every variable lies in the blackboard. -/
def BlackboardLayout.InRange (layout : BlackboardLayout) : Prop :=
  ∀ name slot, layout.get? name = some slot → slot.offset.toNat + slot.length ≤ layout.size

theorem ComponentLayout.mem_of_field? {layout : ComponentLayout} {name : String} {field : Field}
    (h : layout.field? name = some field) : field ∈ layout.fields :=
  List.mem_of_find?_eq_some h

open Registry

namespace Plan

variable {plan : Plan} {p : Program} {final : Bytes} {below k : Nat} {i : Instance} {type : ValueType}

/-- The program has the instances of the plan at their numbers, and what they refer to. -/
structure Carried (plan : Plan) (p : Program) : Prop where
  numbered : ∀ (key : InstanceKey) (id : NodeId), plan.registry.actions[key]? = some id → id.toNat < p.size
  kinds : ∀ (j : Instance) (id : NodeId) (a : Action), plan.registry.actions[j.key]? = some id → (plan.node j).role = .action a →
    (p.node? id).map Node.kind = some a.kind
  operations : p.expressions.operations.size = plan.registry.operatorOrder.size
  outputs : ∀ (k : Nat) (j : Instance) (t : ValueType), plan.registry.operatorOrder[k]? = some j → (plan.node j).valueType? "out" = some t →
    ∃ operation : Operation, p.expressions.operations[k]? = some operation ∧ operation.outputType = t
  types : ∀ (component : String) (index : UInt16) (layout : ComponentLayout), component ∈ plan.registry.types →
    plan.componentIndex? component = some index → plan.src.catalog.get? component = some layout →
    ∃ type, p.types[index.toNat]? = some type ∧ type.size = layout.size
  lookups : ∀ (lookup : UInt16) (component : String) (layout : ComponentLayout),
    plan.registry.lookups[lookup.toNat]? = some component → plan.src.catalog.get? component = some layout →
    ∃ type, p.lookups[lookup.toNat]? = some (some type) ∧ type.size = layout.size
  slots : ∀ (var : String) (slot : VarSlot), plan.src.blackboard.get? var = some slot → p.VarValid slot
  fields : plan.src.catalog.InRange

/-- A value that fits is there and has its size. -/
theorem Carried.value (carried : plan.Carried p) {ref : ValueRef}
    (fits : plan.Fits p.expressions.constants below type ref) : p.RefValid below ref ∧ p.HasSize ref type.size := by
  cases ref with
  | constant offset length => exact ⟨fits.1, fits.2⟩
  | output index slot =>
    obtain ⟨hslot, hbelow, j, hj, hout⟩ := fits
    obtain ⟨operation, hoperation, rfl⟩ := carried.outputs _ _ _ hj hout
    have hlt := (Array.getElem?_eq_some_iff.mp hoperation).1
    refine ⟨⟨hslot, hlt, hbelow⟩, ?_⟩
    rw [Program.HasSize, Expressions.resultSize?, hoperation]
    rfl

theorem Carried.argument (carried : plan.Carried p) {ref : ValueRef}
    (fits : plan.Fits p.expressions.constants plan.registry.operatorOrder.size type ref) :
    p.RefValid p.expressions.operations.size ref ∧ p.HasSize ref type.size := by
  rw [carried.operations]
  exact carried.value fits

/-- A child is there. -/
theorem Carried.child (carried : plan.Carried p) (hpos : 0 < p.size) {port : Nat} {id : NodeId}
    (runs : plan.Runs i port id) : id.toNat < p.size := by
  obtain ⟨target, -, hid⟩ := runs
  cases target with
  | none => rw [show id = .nop from hid]; exact hpos
  | some j => exact carried.numbered _ _ hid

/-! ### Small parts -/

theorem expectType_ensures (site : Location) (expected found : ValueType) :
    (expectType site expected found).Ensures final fun _ => expected = found := by
  unfold expectType
  split_ifs with h
  · exact Emit.Ensures.pure h
  · exact (Emit.Ensures.report _).mono fun _ h => h.elim

theorem slot?_ensures (site : Location) (var : String) : (plan.slot? site var).Ensures final fun found =>
    ∃ slot, found = some slot ∧ plan.src.blackboard.get? var = some slot := by
  unfold slot?
  split
  next slot hslot => exact Emit.Ensures.pure ⟨slot, rfl, hslot⟩
  next => exact Emit.Ensures.bind (Emit.Ensures.report _) fun _ => Emit.Ensures.pure fun h => h.elim

theorem withChildren_ensures {emit : List Nat → Emit Node} {post : Node → Prop}
    (h : (plan.node i).flowOutputs.length ≤ maxChildren → (emit (plan.node i).flowOutputs).Ensures final post) :
    (plan.withChildren i emit).Ensures final post := by
  unfold withChildren
  dsimp only
  split_ifs with hcount
  · exact Emit.Ensures.bind (Emit.Ensures.report _) fun _ => Emit.Ensures.pure fun h => h.elim
  · exact h (by unfold maxChildren; unfold maxIndex at hcount; omega)

theorem size_toNat (type : ValueType) : (UInt16.ofNat type.size).toNat = type.size := by
  cases type <;> rfl

/-! ### Writing fields -/

/-- A write of a field of the component. -/
def Writes (p : Program) (type : ComponentType) (write : FieldWrite) : Prop :=
  p.RefValid p.expressions.operations.size write.value ∧
    Program.FieldValid type write.offset write.length.toNat ∧ p.HasSize write.value write.length.toNat

/-- A field takes the value of its port. -/
theorem Sound.fieldWrite?_ensures (sound : plan.Sound) (fed : plan.Fed plan.registry.operatorOrder.size i)
    {layout : ComponentLayout} {component : String} (hlayout : plan.src.catalog.get? component = some layout)
    {port : Nat} (hport : port ∈ (plan.node i).valueInputs) :
    (plan.fieldWrite? i layout ((plan.node i).port port)).Ensures p.expressions.constants fun write =>
      ∃ w, write = some w ∧ plan.Supplied p.expressions.constants i port w.value ∧
        (plan.Carried p → ∀ type : ComponentType, type.size = layout.size → Writes p type w) := by
  obtain ⟨hlt, hincoming, t, hkind⟩ := GraphNode.mem_valueInputs.mp hport
  unfold fieldWrite?
  simp only [hkind]
  split
  next h => cases h
  next => exact Emit.Ensures.bind (Emit.Ensures.report _) fun _ => Emit.Ensures.pure fun h => h.elim
  next t' field ht hfield =>
    obtain rfl := PortKind.value.inj ht
    refine Emit.Ensures.bind (expectType_ensures _ _ _) fun _ => ?_
    refine Emit.Ensures.bind (sound.value_ensures fed (sound.first_of_fed fed hport) hincoming) fun ref => ?_
    refine Emit.Ensures.pure ?_
    rintro ⟨supplied, t', hkind', hfits⟩ htype
    refine ⟨_, rfl, supplied, fun carried type hsize => ?_⟩
    have hsame : t' = field.type := (PortKind.value.inj (hkind'.symm.trans hkind)).trans htype.symm
    obtain ⟨hvalid, hvalue⟩ := carried.argument (hfits hsame)
    refine ⟨hvalid, ?_, ?_⟩
    · rw [Program.FieldValid, size_toNat, hsize]
      exact carried.fields component layout hlayout field (ComponentLayout.mem_of_field? hfield)
    · rw [size_toNat]
      exact hsame ▸ hvalue

/-! ### Actions -/

/-- The instruction of an action: its children are what the flow ports run, its values are what feeds the value ports,
and it is valid where the plan is carried out. -/
structure Emitted (plan : Plan) (p : Program) (i : Instance) (a : Action) (node : Node) : Prop where
  kind : node.kind = a.kind
  children : List.Forall₂ (plan.Runs i) (plan.node i).flowOutputs node.children
  arguments : List.Forall₂ (plan.Supplied p.expressions.constants i) (plan.node i).valueInputs node.values
  values : plan.Carried p → ∀ value ∈ node.values, p.RefValid p.expressions.operations.size value
  payload : plan.Carried p → p.PayloadValid node

theorem flowOutputs_eq_nil {spec : NodeSpec} (built : (plan.node i).BuiltFrom spec)
    (h : ∀ port ∈ spec.ports, port.direction = .outgoing → port.kind ≠ .flow) : (plan.node i).flowOutputs = [] := by
  refine List.eq_nil_iff_forall_not_mem.mpr fun k hk => ?_
  obtain ⟨hlt, hdirection, hflow⟩ := GraphNode.mem_flowOutputs.mp hk
  obtain ⟨port, hmem, -, hsame, hkind⟩ := built.exists_port hlt
  exact h port hmem (hsame.trans hdirection) (hkind.trans hflow)

theorem valueInputs_eq_nil {spec : NodeSpec} (built : (plan.node i).BuiltFrom spec)
    (h : ∀ port ∈ spec.ports, port.direction = .incoming → port.kind = .flow) : (plan.node i).valueInputs = [] := by
  refine List.eq_nil_iff_forall_not_mem.mpr fun k hk => ?_
  obtain ⟨hlt, hdirection, type, hvalue⟩ := GraphNode.mem_valueInputs.mp hk
  obtain ⟨port, hmem, -, hsame, hkind⟩ := built.exists_port hlt
  cases (hkind.symm.trans (h port hmem (hsame.trans hdirection))).symm.trans hvalue

/-- The type of a name of which all ports have it. -/
theorem valueType?_eq {spec : NodeSpec} (built : (plan.node i).BuiltFrom spec) {name : String} {index : Nat}
    (hindex : spec.ports.findIdx? (·.name = name) = some index)
    (hall : ∀ port ∈ spec.ports, port.name = name → port.kind = .value type) :
    (plan.node i).valueType? name = some type := by
  have hfirst := (built.port?_eq name).trans hindex
  obtain ⟨hlt, hname⟩ := GraphNode.port?_eq_some hfirst
  obtain ⟨port, hmem, hsame, -, hkind⟩ := built.exists_port hlt
  rw [GraphNode.valueType?, hfirst, Option.bind_some, ← hkind, hall port hmem (hsame.trans hname)]
  rfl

section

variable (sound : plan.Sound) (hi : i ∈ plan.registry.actionOrder)

include sound hi

theorem writeField_ensures {component : String}
    {fields : List (String × ValueType)} (built : (plan.node i).BuiltFrom (.writeField component fields))
    (noted : Noted plan.src plan.registry (.action (.writeField component))) :
    (plan.writeField i component).Ensures p.expressions.constants (plan.Emitted p i (.writeField component)) := by
  have hflow : (plan.node i).flowOutputs = [] :=
    flowOutputs_eq_nil built (by simp [NodeSpec.ports, Port.flowIn, Port.valueIn]; aesop)
  unfold writeField
  split
  next layout index hlayout hindex =>
    refine Emit.Ensures.bind (Emit.Ensures.mapM fun k hk =>
      sound.fieldWrite?_ensures (p := p) (sound.fed_of_action hi) hlayout hk) fun writes => ?_
    refine Emit.Ensures.pure fun hwrites => ?_
    have hwrites := Emit.forall₂_filterMap hwrites
    have hwritten (carried : plan.Carried p) :
        ∃ type, p.types[index.toNat]? = some type ∧ ∀ w ∈ writes.filterMap id, Writes p type w := by
      obtain ⟨type, htype, hsize⟩ := carried.types component index layout (noted (by rw [hlayout]; rfl)) hindex hlayout
      refine ⟨type, htype, fun w hw => ?_⟩
      obtain ⟨k, -, -, hwrite⟩ := Emit.exists_of_mem_right hwrites hw
      exact hwrite carried type hsize
    refine ⟨rfl, by rw [hflow]; exact .nil, ?_, fun carried value hvalue => ?_, fun carried => ?_⟩
    · exact List.forall₂_map_right_iff.mpr (hwrites.imp fun port w h => h.1)
    · obtain ⟨type, -, hwritten⟩ := hwritten carried
      obtain ⟨w, hw, rfl⟩ := List.mem_map.mp hvalue
      exact (hwritten w hw).1
    · obtain ⟨type, htype, hwritten⟩ := hwritten carried
      exact ⟨type, htype, fun w hw => (hwritten w hw).2⟩
  next => exact Emit.Ensures.bind (Emit.Ensures.report _) fun _ => Emit.Ensures.pure fun h => h.elim

/-- Every branch has a guard, since flow and value ports of a selector come in pairs. -/
theorem selector_ensures {count : Nat} (built : (plan.node i).BuiltFrom (.selector count)) :
    (plan.action i .selector).Ensures p.expressions.constants (plan.Emitted p i .selector) := by
  have hlength : (plan.node i).flowOutputs.length = (plan.node i).valueInputs.length := by
    rw [GraphNode.flowOutputs, GraphNode.valueInputs, built.length_portsWhere, built.length_portsWhere]
    simp [NodeSpec.ports, Port.flowIn, Port.flowOut, Port.valueIn, List.countP_flatMap,
      Function.comp_def]
  have hguard (k : Nat) (hk : k ∈ (plan.node i).valueInputs) : k < (plan.node i).ports.size ∧
      ((plan.node i).port k).direction = .incoming ∧ ((plan.node i).port k).kind = .value .bool := by
    obtain ⟨hlt, hincoming, t, hkind⟩ := GraphNode.mem_valueInputs.mp hk
    have hall : ∀ port ∈ (NodeSpec.selector count).ports, port.kind ≠ .flow → port.kind = .value .bool := by
      simp only [NodeSpec.ports, Port.flowIn, Port.flowOut, Port.valueIn, List.mem_cons, List.mem_flatMap,
        List.mem_nil_iff]
      rintro port (rfl | ⟨k, -, rfl | rfl | ⟨⟨⟩⟩⟩) hflow
      · exact absurd rfl hflow
      · exact absurd rfl hflow
      · rfl
    obtain ⟨port, hmem, -, -, hsame⟩ := built.exists_port hlt
    refine ⟨hlt, hincoming, hsame.symm.trans (hall port hmem ?_)⟩
    simp [hsame, hkind]
  rw [action]
  refine withChildren_ensures fun hcount => ?_
  have hturn (pair : Nat × Nat) (hpair : pair ∈ (plan.node i).flowOutputs.zip (plan.node i).valueInputs) :
      Emit.Ensures p.expressions.constants (do
        let guard ← plan.valueAt i pair.2 .bool
        return Branch.mk guard (← plan.childAt i pair.1)) fun branch => plan.Runs i pair.1 branch.child ∧
          plan.Supplied p.expressions.constants i pair.2 branch.guard ∧
          plan.Fits p.expressions.constants plan.registry.operatorOrder.size .bool branch.guard := by
    obtain ⟨hport, hvalue⟩ := List.of_mem_zip hpair
    obtain ⟨hlt, hincoming, hkind⟩ := hguard _ hvalue
    refine Emit.Ensures.bind (sound.valueAt_ensures (sound.fed_of_action hi) hlt hincoming) fun guard => ?_
    refine Emit.Ensures.bind (sound.childAt_ensures hi hport) fun child => ?_
    refine Emit.Ensures.pure ?_
    rintro runs ⟨supplied, t, hkind', hfits⟩
    exact ⟨runs, supplied, hfits (PortKind.value.inj (hkind'.symm.trans hkind))⟩
  refine Emit.Ensures.bind (Emit.Ensures.mapM hturn) fun branches => ?_
  refine Emit.Ensures.pure fun hbranches => ⟨rfl, ?_, ?_, fun carried value hvalue => ?_, fun carried => ⟨?_, ?_⟩⟩
  · have hruns : List.Forall₂ (fun port branch => plan.Runs i port (Branch.child branch))
        (((plan.node i).flowOutputs.zip (plan.node i).valueInputs).map Prod.fst) branches :=
      List.forall₂_map_left_iff.mpr (hbranches.imp fun pair branch h => h.1)
    rw [List.map_fst_zip (Nat.le_of_eq hlength)] at hruns
    exact List.forall₂_map_right_iff.mpr hruns
  · have hguards : List.Forall₂ (fun port branch => plan.Supplied p.expressions.constants i port (Branch.guard branch))
        (((plan.node i).flowOutputs.zip (plan.node i).valueInputs).map Prod.snd) branches :=
      List.forall₂_map_left_iff.mpr (hbranches.imp fun pair branch h => h.2.1)
    rw [List.map_snd_zip (Nat.le_of_eq hlength.symm)] at hguards
    exact List.forall₂_map_right_iff.mpr hguards
  · obtain ⟨branch, hbranch, rfl⟩ := List.mem_map.mp hvalue
    obtain ⟨pair, -, -, -, fits⟩ := Emit.exists_of_mem_right hbranches hbranch
    exact (carried.argument fits).1
  · have hzip := hbranches.length_eq
    rw [List.length_zip, ← hlength, Nat.min_self] at hzip
    rwa [← hzip]
  · intro branch hbranch
    obtain ⟨pair, -, -, -, fits⟩ := Emit.exists_of_mem_right hbranches hbranch
    exact (carried.argument fits).2

theorem optional_ensures (built : (plan.node i).BuiltFrom .optional) :
    (plan.action i .optional).Ensures p.expressions.constants (plan.Emitted p i .optional) := by
  have hflow : (plan.node i).flowOutputs = [1] := built.portsWhere_eq _ _
  have hinput : (plan.node i).valueInputs = [2] := built.portsWhere_eq _ _
  have hname : (plan.node i).port? "child" = some 1 := built.port?_eq _
  have hguard : (plan.node i).port? "guard" = some 2 := built.port?_eq _
  rw [action]
  refine Emit.Ensures.bind (sound.value_fits (sound.fed_of_action hi) built hguard
    (by simp [NodeSpec.ports, Port.flowIn, Port.flowOut, Port.valueIn])) fun guard => ?_
  refine Emit.Ensures.bind (sound.child_ensures hi hname (by simp [hflow])) fun child => ?_
  refine Emit.Ensures.pure ?_
  rintro runs ⟨supplied, fits⟩
  refine ⟨rfl, by rw [hflow]; exact .cons runs .nil, by rw [hinput]; exact .cons supplied .nil,
    fun carried value hvalue => ?_, fun carried => (carried.argument fits).2⟩
  rw [List.mem_singleton.mp hvalue]
  exact (carried.argument fits).1

/-- The value of an assignment has the type of the variable, which is checked against the port. -/
theorem writeVar_ensures {var : String} {type : ValueType}
    (built : (plan.node i).BuiltFrom (.writeVar var type)) :
    (plan.action i (.writeVar var)).Ensures p.expressions.constants (plan.Emitted p i (.writeVar var)) := by
  have hflow : (plan.node i).flowOutputs = [] :=
    flowOutputs_eq_nil built (by simp [NodeSpec.ports, Port.flowIn, Port.valueIn])
  have hinput : (plan.node i).valueInputs = [1] := built.portsWhere_eq _ _
  have hname : (plan.node i).port? "value" = some 1 := built.port?_eq _
  obtain ⟨hincoming, hkind⟩ : ((plan.node i).port 1).direction = .incoming ∧
      ((plan.node i).port 1).kind = .value type :=
    built.of_port? (by simp [NodeSpec.ports, Port.flowIn, Port.valueIn]) hname
  have htype : (plan.node i).valueType? "value" = some type :=
    valueType?_eq built rfl (by simp [NodeSpec.ports, Port.flowIn, Port.valueIn])
  rw [action, htype]
  refine Emit.Ensures.bind (slot?_ensures _ _) fun found => ?_
  cases found with
  | none =>
    refine Emit.Ensures.pure ?_
    rintro ⟨_, ⟨⟩, -⟩
  | some slot =>
    refine Emit.Ensures.bind (expectType_ensures _ _ _) fun _ => ?_
    refine Emit.Ensures.bind (sound.value_ensures (sound.fed_of_action hi) hname hincoming) fun ref => ?_
    refine Emit.Ensures.pure ?_
    rintro ⟨supplied, t, hkind', hfits⟩ hsame ⟨_, ⟨⟩, hslot⟩
    have ht : t = slot.type := by
      rw [hsame]
      exact PortKind.value.inj (hkind'.symm.trans hkind)
    refine ⟨rfl, by rw [hflow]; exact .nil, by rw [hinput]; exact .cons supplied .nil, fun carried value hvalue => ?_,
      fun carried => ?_⟩
    · rw [List.mem_singleton.mp hvalue]
      exact (carried.argument (hfits ht)).1
    · exact ⟨carried.slots var slot hslot, (carried.argument (hfits ht)).2⟩

theorem parallel_ensures (built : (plan.node i).BuiltFrom .parallel) :
    (plan.action i .parallel).Ensures p.expressions.constants (plan.Emitted p i .parallel) := by
  have hflow : (plan.node i).flowOutputs = [1, 2] := built.portsWhere_eq _ _
  have hinput : (plan.node i).valueInputs = [] := built.portsWhere_eq _ _
  have hmain : (plan.node i).port? "main" = some 1 := built.port?_eq _
  have hthread : (plan.node i).port? "parallel" = some 2 := built.port?_eq _
  rw [action]
  refine Emit.Ensures.bind (sound.child_ensures hi hmain (by simp [hflow])) fun main => ?_
  refine Emit.Ensures.bind (sound.thread_ensures hi hthread (by simp [hflow])) fun thread => ?_
  refine Emit.Ensures.pure ?_
  rintro ⟨threadRuns, j, looping, hj, hrole⟩ mainRuns
  refine ⟨rfl, by rw [hflow]; exact .cons mainRuns (.cons threadRuns .nil), by rw [hinput]; exact .nil,
    by simp [Node.values], fun carried => ?_⟩
  exact carried.kinds j thread _ hj hrole

/-- An action with a single child. -/
theorem single_ensures {a : Action} {make : NodeId → Node} {port : Nat} (hflow : (plan.node i).flowOutputs = [port])
    (hinput : (plan.node i).valueInputs = []) (hname : (plan.node i).port? "child" = some port)
    (hkind : ∀ child, (make child).kind = a.kind) (hchildren : ∀ child, (make child).children = [child])
    (hvalues : ∀ child, (make child).values = []) (hpayload : ∀ child, p.PayloadValid (make child)) :
    Emit.Ensures p.expressions.constants (do return make (← plan.child i "child")) (plan.Emitted p i a) := by
  refine Emit.Ensures.bind (sound.child_ensures hi hname (by simp [hflow])) fun child => ?_
  refine Emit.Ensures.pure fun runs => ⟨hkind child, ?_, ?_, by simp [hvalues], fun _ => hpayload child⟩
  · rw [hflow, hchildren]
    exact .cons runs .nil
  · rw [hinput, hvalues]
    exact .nil

/-- An action without children that waits for a value. -/
theorem wait_ensures {a : Action} {make : ValueRef → WaitGoal} {spec : NodeSpec} (built : (plan.node i).BuiltFrom spec)
    {name : String} (hports : spec.ports = [.flowIn, .valueIn name type]) (hdistinct : name ≠ "in") (ha : a.kind = .wait)
    (hvalues : ∀ value, (Node.wait (make value)).values = [value])
    (hpayload : ∀ value, p.PayloadValid (.wait (make value)) ↔ p.HasSize value type.size) :
    Emit.Ensures p.expressions.constants (do return .wait (make (← plan.value i name type))) (plan.Emitted p i a) := by
  have hflow : (plan.node i).flowOutputs = [] :=
    flowOutputs_eq_nil built (by simp [hports, Port.flowIn, Port.valueIn])
  have hinput : (plan.node i).valueInputs = [1] := by
    rw [GraphNode.valueInputs, built.portsWhere_eq, hports]
    rfl
  have hname : (plan.node i).port? name = some 1 := by
    rw [built.port?_eq, hports]
    simp [List.findIdx?_cons, Port.flowIn, Port.valueIn, hdistinct.symm]
  refine Emit.Ensures.bind (sound.value_fits (sound.fed_of_action hi) built hname
    (by simp [hports, Port.flowIn, Port.valueIn, hdistinct.symm])) fun ref => ?_
  refine Emit.Ensures.pure ?_
  rintro ⟨supplied, fits⟩
  refine ⟨ha.symm, by rw [hflow]; exact .nil, by rw [hinput, hvalues]; exact .cons supplied .nil,
    fun carried value hvalue => ?_, fun carried => ?_⟩
  · rw [hvalues, List.mem_singleton] at hvalue
    rw [hvalue]
    exact (carried.argument fits).1
  · exact (hpayload ref).mpr (carried.argument fits).2

/-- What is emitted for an action. -/
theorem action_ensures {a : Action} (hrole : (plan.node i).role = .action a) :
    (plan.action i a).Ensures p.expressions.constants (plan.Emitted p i a) := by
  obtain ⟨spec, known, built⟩ := (sound.fed_of_action hi).formed
  have hspec := built.role.symm.trans hrole
  cases a with
  | root =>
    obtain rfl : spec = .root := NodeSpec.of_action hspec
    exact single_ensures sound hi (built.portsWhere_eq _ _) (built.portsWhere_eq _ _) (built.port?_eq _)
      (fun _ => rfl) (fun _ => rfl) (fun _ => rfl) fun _ => trivial
  | sequence =>
    obtain ⟨count, rfl⟩ := NodeSpec.of_action hspec
    have hinput : (plan.node i).valueInputs = [] :=
      valueInputs_eq_nil built (by simp [NodeSpec.ports, Port.flowIn, Port.flowOut])
    rw [action]
    refine withChildren_ensures fun hcount => ?_
    refine Emit.Ensures.bind (Emit.Ensures.mapM fun port hport => sound.childAt_ensures hi hport) fun children => ?_
    refine Emit.Ensures.pure fun runs => ⟨rfl, runs, by rw [hinput]; exact .nil, by simp [Node.values], fun _ => ?_⟩
    show children.toArray.size ≤ maxChildren
    rwa [List.size_toArray, ← runs.length_eq]
  | selector =>
    obtain ⟨count, rfl⟩ := NodeSpec.of_action hspec
    exact selector_ensures sound hi built
  | writeField component =>
    obtain ⟨fields, rfl⟩ := NodeSpec.of_action hspec
    exact writeField_ensures sound hi built (hrole ▸ (sound.complete.reached i hi).2)
  | waitFor =>
    obtain rfl : spec = .waitFor := NodeSpec.of_action hspec
    exact wait_ensures sound hi built rfl (by decide) rfl (fun _ => rfl) fun _ => Iff.rfl
  | waitUntil =>
    obtain rfl : spec = .waitUntil := NodeSpec.of_action hspec
    exact wait_ensures sound hi built rfl (by decide) rfl (fun _ => rfl) fun _ => Iff.rfl
  | fail =>
    obtain rfl : spec = .fail := NodeSpec.of_action hspec
    have hflow : (plan.node i).flowOutputs = [] := built.portsWhere_eq _ _
    have hinput : (plan.node i).valueInputs = [] := built.portsWhere_eq _ _
    exact Emit.Ensures.pure
      ⟨rfl, by rw [hflow]; exact .nil, by rw [hinput]; exact .nil, by simp [Node.values], fun _ => trivial⟩
  | optional =>
    obtain rfl : spec = .optional := NodeSpec.of_action hspec
    exact optional_ensures sound hi built
  | «catch» =>
    obtain rfl : spec = .catch := NodeSpec.of_action hspec
    exact single_ensures sound hi (built.portsWhere_eq _ _) (built.portsWhere_eq _ _) (built.port?_eq _)
      (fun _ => rfl) (fun _ => rfl) (fun _ => rfl) fun _ => trivial
  | writeVar var =>
    obtain ⟨type, rfl⟩ := NodeSpec.of_action hspec
    exact writeVar_ensures sound hi built
  | query id var =>
    obtain rfl : spec = .query id var := NodeSpec.of_action hspec
    have hflow : (plan.node i).flowOutputs = [] := built.portsWhere_eq _ _
    have hinput : (plan.node i).valueInputs = [] := built.portsWhere_eq _ _
    refine Emit.Ensures.bind (slot?_ensures _ _) fun found => ?_
    cases found with
    | none =>
      refine Emit.Ensures.pure ?_
      rintro ⟨_, ⟨⟩, -⟩
    | some slot =>
      refine Emit.Ensures.pure ?_
      rintro ⟨_, ⟨⟩, hslot⟩
      exact ⟨rfl, by rw [hflow]; exact .nil, by rw [hinput]; exact .nil, by simp [Node.values],
        fun carried => carried.slots var slot hslot⟩
  | parallel =>
    obtain rfl : spec = .parallel := NodeSpec.of_action hspec
    exact parallel_ensures sound hi built
  | threadRoot looping =>
    obtain rfl : spec = .threadRoot looping := NodeSpec.of_action hspec
    exact single_ensures sound hi (built.portsWhere_eq _ _) (built.portsWhere_eq _ _) (built.port?_eq _)
      (fun _ => rfl) (fun _ => rfl) (fun _ => rfl) fun _ => trivial

end

/-! ### Operators -/

/-- The operand of the name. -/
def Operand (plan : Plan) (final : Bytes) (i : Instance) (name : String) (ref : ValueRef) : Prop :=
  ∃ port, (plan.node i).port? name = some port ∧ plan.Supplied final i port ref

/-- The operation does what the operator says. -/
def Performs (plan : Plan) (final : Bytes) (i : Instance) : Operator → Operation → Prop
  | .readField component field, operation => ∃ layout found index, plan.src.catalog.get? component = some layout ∧
      layout.field? field = some found ∧ plan.componentIndex? component = some index ∧
      operation = .readField index found.offset found.type
  | .lookupField lookup component field, operation => ∃ layout found, plan.src.catalog.get? component = some layout ∧
      layout.field? field = some found ∧ plan.registry.lookups[lookup.toNat]? = some component ∧
      operation = .lookupField lookup found.offset found.type
  | .readVar var, operation => ∃ slot, plan.src.blackboard.get? var = some slot ∧ operation = .readVar slot
  | .not, operation => ∃ a, operation = .not a ∧ plan.Operand final i "a" a
  | .and, operation => ∃ a b, operation = .and a b ∧ plan.Operand final i "a" a ∧ plan.Operand final i "b" b
  | .or, operation => ∃ a b, operation = .or a b ∧ plan.Operand final i "a" a ∧ plan.Operand final i "b" b
  | .compare op type, operation => ∃ a b, operation = .compare op type a b ∧
      plan.Operand final i "a" a ∧ plan.Operand final i "b" b
  | .arith op type, operation => ∃ a b, operation = .arith op type a b ∧
      plan.Operand final i "a" a ∧ plan.Operand final i "b" b

/-- The operation of an operator: it does what the operator says, its output has the type of the output port, and it is
valid at its number where the plan is carried out. -/
structure Computed (plan : Plan) (p : Program) (k : Nat) (i : Instance) (operation : Operation) : Prop where
  performs : ∀ op, (plan.node i).role = .operator op → plan.Performs p.expressions.constants i op operation
  output : ∀ t, (plan.node i).valueType? "out" = some t → operation.outputType = t
  valid : plan.Carried p → p.OperationValid k operation

theorem Computed.of_type {op : Operator} {operation : Operation} (hrole : (plan.node i).role = .operator op)
    (hout : (plan.node i).valueType? "out" = some type) (performs : plan.Performs p.expressions.constants i op operation)
    (htype : operation.outputType = type) (valid : plan.Carried p → p.OperationValid k operation) :
    plan.Computed p k i operation := by
  refine ⟨fun op' hrole' => ?_, fun t ht => ?_, valid⟩
  · obtain rfl := Role.operator.inj (hrole'.symm.trans hrole)
    exact performs
  · exact htype.trans (Option.some.inj (hout.symm.trans ht))

theorem fieldOffset_ensures (site : Location) (component field : String) :
    (plan.fieldOffset site component field type).Ensures final fun offset =>
      ∃ layout found, plan.src.catalog.get? component = some layout ∧ layout.field? field = some found ∧
        found.type = type ∧ found.offset = offset := by
  unfold fieldOffset
  split
  next => exact Emit.Ensures.bind (Emit.Ensures.report _) fun _ => Emit.Ensures.pure fun h => h.elim
  next layout hlayout =>
    split
    next => exact Emit.Ensures.bind (Emit.Ensures.report _) fun _ => Emit.Ensures.pure fun h => h.elim
    next found hfound =>
      refine Emit.Ensures.bind (expectType_ensures _ _ _) fun _ => ?_
      exact Emit.Ensures.pure fun htype => ⟨layout, found, hlayout, hfound, htype, rfl⟩

/-- A field of a component of the catalog, at the size that a program has for it. -/
theorem Carried.fieldValid (carried : plan.Carried p) {component field : String} {layout : ComponentLayout}
    {found : Field} (hlayout : plan.src.catalog.get? component = some layout)
    (hfound : layout.field? field = some found) {type : ComponentType} (hsize : type.size = layout.size) :
    Program.FieldValid type found.offset found.type.size := by
  rw [Program.FieldValid, hsize]
  exact carried.fields component layout hlayout found (ComponentLayout.mem_of_field? hfound)

/-- A component that is written down has an index. -/
theorem componentIndex?_of_mem (htypes : plan.typeNames = plan.registry.types.toList) {component : String}
    (h : component ∈ plan.registry.types) : ∃ index, plan.componentIndex? component = some index := by
  have hmem : component ∈ plan.typeNames := by
    rw [htypes]
    exact Std.TreeSet.mem_toList.mpr h
  obtain ⟨index, hindex⟩ := Option.isSome_iff_exists.mp (List.isSome_idxOf?.mpr hmem)
  exact ⟨UInt16.ofNat index, by rw [componentIndex?, hindex]; rfl⟩

theorem readField_ensures (sound : plan.Sound) {component field : String} {type : ValueType}
    (built : (plan.node i).BuiltFrom (.readField component field type))
    (noted : Noted plan.src plan.registry (.operator (.readField component field))) :
    (plan.operator i (.readField component field)).Ensures p.expressions.constants (plan.Computed p k i) := by
  have hout : (plan.node i).valueType? "out" = some type :=
    valueType?_eq built rfl (by simp [NodeSpec.ports, Port.valueOut])
  rw [operator, hout]
  refine Emit.Ensures.bind (fieldOffset_ensures _ _ _) fun offset => ?_
  refine Emit.Ensures.pure ?_
  rintro ⟨layout, found, hlayout, hfound, rfl, rfl⟩
  have hmem := noted (by rw [hlayout]; rfl)
  obtain ⟨index, hindex⟩ := componentIndex?_of_mem sound.typeNames hmem
  rw [hindex]
  refine .of_type built.role hout ⟨layout, found, index, hlayout, hfound, hindex, rfl⟩ rfl
    fun carried => ⟨by simp [Operation.operands], ?_⟩
  obtain ⟨component, hcomponent, hsize⟩ := carried.types _ index layout hmem hindex hlayout
  exact ⟨component, hcomponent, carried.fieldValid hlayout hfound hsize⟩

theorem lookupField_ensures {lookup : UInt16} {component field : String}
    {type : ValueType} (built : (plan.node i).BuiltFrom (.lookupField lookup component field type))
    (noted : Noted plan.src plan.registry (.operator (.lookupField lookup component field))) :
    (plan.operator i (.lookupField lookup component field)).Ensures p.expressions.constants
      (plan.Computed p k i) := by
  have hout : (plan.node i).valueType? "out" = some type :=
    valueType?_eq built rfl (by simp [NodeSpec.ports, Port.valueOut])
  rw [operator, hout]
  refine Emit.Ensures.bind (fieldOffset_ensures _ _ _) fun offset => ?_
  refine Emit.Ensures.pure ?_
  rintro ⟨layout, found, hlayout, hfound, rfl, rfl⟩
  have hlookup := noted (by rw [hlayout]; rfl)
  refine .of_type built.role hout ⟨layout, found, hlayout, hfound, hlookup, rfl⟩ rfl
    fun carried => ⟨by simp [Operation.operands], ?_⟩
  obtain ⟨component, hcomponent, hsize⟩ := carried.lookups lookup _ layout hlookup hlayout
  exact ⟨component, hcomponent, carried.fieldValid hlayout hfound hsize⟩

theorem readVar_ensures {var : String} {type : ValueType} (built : (plan.node i).BuiltFrom (.readVar var type)) :
    (plan.operator i (.readVar var)).Ensures p.expressions.constants (plan.Computed p k i) := by
  have hout : (plan.node i).valueType? "out" = some type :=
    valueType?_eq built rfl (by simp [NodeSpec.ports, Port.valueOut])
  rw [operator, hout]
  refine Emit.Ensures.bind (slot?_ensures _ _) fun found => ?_
  cases found with
  | none =>
    refine Emit.Ensures.pure ?_
    rintro ⟨_, ⟨⟩, -⟩
  | some slot =>
    refine Emit.Ensures.bind (expectType_ensures _ _ _) fun _ => ?_
    refine Emit.Ensures.pure ?_
    rintro htype ⟨_, ⟨⟩, hslot⟩
    exact .of_type built.role hout ⟨slot, hslot, rfl⟩ htype
      fun carried => ⟨by simp [Operation.operands], carried.slots var slot hslot⟩

section

variable (sound : plan.Sound) (hi : plan.registry.operatorOrder[k]? = some i)

include sound hi

/-- Two values of a type. -/
theorem operands_ensures {spec : NodeSpec} (built : (plan.node i).BuiltFrom spec) {out : ValueType}
    (hports : spec.ports = [.valueIn "a" type, .valueIn "b" type, .valueOut out])
    (make : ValueRef → ValueRef → Operation) :
    Emit.Ensures final (do
      let a ← plan.value i "a" type
      return make a (← plan.value i "b" type)) fun operation =>
        ∃ a b, operation = make a b ∧
          (plan.Operand final i "a" a ∧ plan.Operand final i "b" b) ∧
          plan.Fits final k type a ∧ plan.Fits final k type b := by
  have fed := sound.fed_of_operator hi
  have ha : (plan.node i).port? "a" = some 0 := by
    rw [built.port?_eq, hports]
    rfl
  have hb : (plan.node i).port? "b" = some 1 := by
    rw [built.port?_eq, hports]
    rfl
  refine Emit.Ensures.bind (sound.value_fits fed built ha (by simp [hports, Port.valueIn, Port.valueOut])) fun a => ?_
  refine Emit.Ensures.bind (sound.value_fits fed built hb (by simp [hports, Port.valueIn, Port.valueOut])) fun b => ?_
  refine Emit.Ensures.pure ?_
  rintro ⟨suppliedB, fitsB⟩ ⟨suppliedA, fitsA⟩
  exact ⟨a, b, rfl, ⟨⟨0, ha, suppliedA⟩, 1, hb, suppliedB⟩, fitsA, fitsB⟩

/-- An operator on two values of a type. -/
theorem binary_ensures {spec : NodeSpec} (built : (plan.node i).BuiltFrom spec) {op : Operator}
    (hrole : (plan.node i).role = .operator op) {make : ValueRef → ValueRef → Operation} {type out : ValueType}
    (hports : spec.ports = [.valueIn "a" type, .valueIn "b" type, .valueOut out])
    (performs : ∀ a b, plan.Operand p.expressions.constants i "a" a ∧ plan.Operand p.expressions.constants i "b" b →
      plan.Performs p.expressions.constants i op (make a b))
    (houtput : ∀ a b, (make a b).outputType = out) (hoperands : ∀ a b, (make a b).operands = [a, b])
    (hvalid : ∀ a b, p.HasSize a type.size → p.HasSize b type.size → p.KindValid (make a b)) :
    Emit.Ensures p.expressions.constants (do
      let a ← plan.value i "a" type
      return make a (← plan.value i "b" type)) (plan.Computed p k i) := by
  have hout : (plan.node i).valueType? "out" = some out :=
    valueType?_eq built (by rw [hports]; rfl) (by simp [hports, Port.valueIn, Port.valueOut])
  refine (operands_ensures sound hi built hports make).mono ?_
  rintro operation ⟨a, b, rfl, operands, ha, hb⟩
  refine .of_type hrole hout (performs a b operands) (houtput a b)
    fun carried => ⟨?_, hvalid a b (carried.value ha).2 (carried.value hb).2⟩
  intro operand hoperand
  rw [hoperands] at hoperand
  rcases List.mem_pair.mp hoperand with rfl | rfl
  · exact (carried.value ha).1
  · exact (carried.value hb).1

/-- What is emitted for an operator. -/
theorem operator_ensures {op : Operator}
    (hrole : (plan.node i).role = .operator op) :
    (plan.operator i op).Ensures p.expressions.constants (plan.Computed p k i) := by
  obtain ⟨spec, known, built⟩ := (sound.fed_of_operator hi).formed
  have hspec := built.role.symm.trans hrole
  have noted : Noted plan.src plan.registry (.operator op) :=
    hrole ▸ (sound.complete.operating i (Array.mem_of_getElem? hi)).2
  cases op with
  | readField component field =>
    obtain ⟨type, rfl⟩ := NodeSpec.of_operator hspec
    exact readField_ensures sound built noted
  | lookupField lookup component field =>
    obtain ⟨type, rfl⟩ := NodeSpec.of_operator hspec
    exact lookupField_ensures built noted
  | readVar var =>
    obtain ⟨type, rfl⟩ := NodeSpec.of_operator hspec
    exact readVar_ensures built
  | not =>
    obtain rfl : spec = .not := NodeSpec.of_operator hspec
    have hout : (plan.node i).valueType? "out" = some .bool :=
      valueType?_eq built rfl (by simp [NodeSpec.ports, Port.valueIn, Port.valueOut])
    refine Emit.Ensures.bind (sound.value_fits (sound.fed_of_operator hi) built (built.port?_eq _)
      (by simp [NodeSpec.ports, Port.valueIn, Port.valueOut])) fun a => ?_
    refine Emit.Ensures.pure ?_
    rintro ⟨supplied, fits⟩
    refine .of_type hrole hout ⟨a, rfl, _, built.port?_eq _, supplied⟩ rfl fun carried => ⟨?_, (carried.value fits).2⟩
    intro operand hoperand
    rw [List.mem_singleton.mp hoperand]
    exact (carried.value fits).1
  | and =>
    obtain rfl : spec = .and := NodeSpec.of_operator hspec
    exact binary_ensures sound hi built hrole rfl (fun a b h => ⟨a, b, rfl, h⟩) (fun _ _ => rfl) (fun _ _ => rfl)
      fun a b ha hb => ⟨ha, hb⟩
  | or =>
    obtain rfl : spec = .or := NodeSpec.of_operator hspec
    exact binary_ensures sound hi built hrole rfl (fun a b h => ⟨a, b, rfl, h⟩) (fun _ _ => rfl) (fun _ _ => rfl)
      fun a b ha hb => ⟨ha, hb⟩
  | compare op type =>
    obtain rfl : spec = .compare op type := NodeSpec.of_operator hspec
    exact binary_ensures sound hi built hrole rfl (fun a b h => ⟨a, b, rfl, h⟩) (fun _ _ => rfl) (fun _ _ => rfl)
      fun a b ha hb => ⟨ha, hb⟩
  | arith op type =>
    obtain rfl : spec = .arith op type := NodeSpec.of_operator hspec
    rw [operator]
    split_ifs with hbool
    · refine Emit.Ensures.bind (Emit.Ensures.report _) fun _ => ?_
      exact (operands_ensures sound hi built rfl (Operation.arith op type)).mono fun _ _ h => h.elim
    · exact binary_ensures sound hi built hrole rfl (fun a b h => ⟨a, b, rfl, h⟩) (fun _ _ => rfl) (fun _ _ => rfl)
        fun a b ha hb => ⟨hbool, ha, hb⟩

end

end Plan

end BehaviorTree
