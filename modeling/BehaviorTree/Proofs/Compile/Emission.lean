import BehaviorTree.Proofs.Compile.Emit
import BehaviorTree.Proofs.Compile.Registry

/-! What emission without errors makes of a registered instance: a node whose children are the numbers of the
instances that its flow ports run, and values of the types that the node asks for. -/

namespace BehaviorTree

/-- An instance that runs or computes is a node of its graph. -/
theorem Library.exists_spec {library : Library} {kind : NodeSpec → Prop}
    (consists : ∀ graph ∈ library, graph.Consists kind) {i : Instance} (h : (i.graphNode library).role ≠ .input) :
    ∃ spec, kind spec ∧ (i.graphNode library).BuiltFrom spec := by
  have hrole : ((i.graph library).node i.node).role = (i.graphNode library).role := rfl
  obtain ⟨node, hnode, -⟩ := Graph.getElem?_of_role hrole h
  rw [Instance.graphNode, Graph.node_of_getElem? hnode]
  exact consists _ (Library.mem_graph hnode) node (Array.mem_of_getElem? hnode)

theorem Library.Formed.graphNode {library : Library} (formed : library.Formed) {i : Instance}
    (h : (i.graphNode library).role ≠ .input) : (i.graphNode library).Formed library :=
  Library.exists_spec (fun graph hgraph => (formed graph hgraph).nodes) h

/-- The key of an instance says which node it is. -/
theorem Instance.graphNode_of_key {library : Library} {i j : Instance} (h : i.key = j.key) :
    i.graphNode library = j.graphNode library := by
  obtain ⟨-, hgraph, hnode⟩ := InstanceKey.mk.inj h
  rw [graphNode, Instance.graph, hgraph, hnode]
  rfl

open Registry

/-- A wire ends in one place. -/
theorem Registry.ValueLeads.unique {src : Sources} {bound : Nat} {spot : Spot} {source source' : Option ValueSource}
    (h : ValueLeads src bound spot source) (h' : ValueLeads src bound spot source') : source = source' := by
  obtain ⟨trail, hsource, -⟩ := h
  obtain ⟨trail', hsource', -⟩ := h'
  exact (Prod.mk.inj (Except.ok.inj (hsource.symm.trans hsource'))).1

namespace Plan

variable {plan : Plan} {final : Bytes} {below : Nat} {i : Instance} {port : Nat} {type : ValueType}

/-! ### Values -/

/-- A value of the type: bytes of the pool, or the output of an operator numbered below `below`. -/
def Fits (plan : Plan) (final : Bytes) (below : Nat) (type : ValueType) : ValueRef → Prop
  | .constant offset length => offset.toNat + length.toNat ≤ final.length ∧ length.toNat = type.size
  | .output index slot => slot = 0 ∧ index.toNat < below ∧
      ∃ i, plan.registry.operatorOrder[index.toNat]? = some i ∧ (plan.node i).valueType? "out" = some type

/-- The reference stands for the source: the bytes of a constant, or the output of the operator of a number. -/
def Stands (plan : Plan) (final : Bytes) : ValueSource → ValueRef → Prop
  | .constant value, ref => ∃ offset, ref = .constant offset (UInt16.ofNat value.bytes.length) ∧
      ConstantPool.Holds final offset value.bytes
  | .operator i, ref => ∃ index, plan.registry.operators[i.key]? = some index ∧ ref = .output index 0

/-- The reference stands for the only thing that feeds the port, which gives values of the type of the port. -/
structure Supplies (plan : Plan) (final : Bytes) (i : Instance) (port : Nat) (ref : ValueRef) (source : ValueSource)
    (type : ValueType) : Prop where
  fed : ∀ other, FedBy plan.src.library ⟨i.path, i.node, port⟩ other ↔ other = source
  kind : ((plan.node i).port port).kind = .value type
  hasType : source.HasType plan.src.library plan.src.entry type
  stands : plan.Stands final source ref

/-- The reference stands for what feeds the port. -/
def Supplied (plan : Plan) (final : Bytes) (i : Instance) (port : Nat) (ref : ValueRef) : Prop :=
  ∃ source type, plan.Supplies final i port ref source type

theorem Stands.fits {value : Constant} {ref : ValueRef} (h : plan.Stands final (.constant value) ref) :
    plan.Fits final below value.type ref := by
  obtain ⟨offset, rfl, hle, -⟩ := h
  have hlength : (UInt16.ofNat value.bytes.length).toNat = value.type.size :=
    value.toNat_length.trans value.length_bytes
  rw [value.length_bytes, ← hlength] at hle
  exact ⟨hle, hlength⟩

theorem intern_ensures (plan : Plan) (value : Constant) :
    (Emit.intern value).Ensures final (plan.Stands final (.constant value)) :=
  Emit.Ensures.intern value

/-- A plan that was made from a registration without errors. -/
structure Sound (plan : Plan) : Prop where
  formed : plan.src.library.Formed
  bounded : plan.src.library.Bounded plan.src.entry
  complete : Complete plan.src plan.bound plan.registry
  typeNames : plan.typeNames = plan.registry.types.toList

/-- An instance whose value inputs end at operators with numbers below `below`. -/
structure Fed (plan : Plan) (below : Nat) (i : Instance) : Prop where
  valid : i.path.Valid plan.src.library plan.src.entry
  formed : (plan.node i).Formed plan.src.library
  operands : ∀ port ∈ (plan.node i).valueInputs,
    OperandBelow plan.src plan.bound plan.registry below ⟨i.path, i.node, port⟩

theorem Sound.fed_of_action (sound : plan.Sound) (hi : i ∈ plan.registry.actionOrder) :
    plan.Fed plan.registry.operatorOrder.size i := by
  obtain ⟨valid, a, ha⟩ := (sound.complete.reached i hi).1.action
  exact ⟨valid, sound.formed.graphNode (by simp [ha]), sound.complete.values i hi⟩

theorem Sound.fed_of_operator (sound : plan.Sound) {k : Nat} (hi : plan.registry.operatorOrder[k]? = some i) :
    plan.Fed k i := by
  obtain ⟨valid, op, hop⟩ := (sound.complete.operating i (Array.mem_of_getElem? hi)).1
  exact ⟨valid, sound.formed.graphNode (by simp [hop]), sound.complete.operands k i hi⟩

/-- The output of a registered operator that feeds a port. -/
theorem Sound.output_fits (sound : plan.Sound) {spot : Spot}
    (operand : OperandBelow plan.src plan.bound plan.registry below spot)
    (carries : spot.Carries plan.src.library plan.src.entry type) {source : Instance}
    (leads : ValueLeads plan.src plan.bound spot (some (.operator source))) :
    ∃ index, plan.registry.operators[source.key]? = some index ∧ plan.Fits final below type (.output index 0) := by
  obtain ⟨other, leads', hbelow⟩ := operand
  obtain rfl := leads.unique leads'
  obtain ⟨n, hn, hlt⟩ := hbelow source rfl
  obtain ⟨index, hindex, rfl⟩ := Option.map_eq_some_iff.mp hn
  obtain ⟨k, j, hj, hkey, hk⟩ := (sound.complete.operators _ _).mp hn
  obtain ⟨-, -, hout⟩ := leads.hasType sound.formed sound.bounded carries rfl
  refine ⟨index, hindex, rfl, hlt, j, by simpa [hk] using hj, ?_⟩
  rw [node, Instance.graphNode_of_key hkey]
  exact hout

/-- A port that is fed is the first of its name. -/
theorem Sound.first_of_fed (sound : plan.Sound) (fed : plan.Fed below i) (hport : port ∈ (plan.node i).valueInputs) :
    (plan.node i).port? ((plan.node i).port port).name = some port := by
  obtain ⟨source, leads, -⟩ := fed.operands port hport
  obtain ⟨type, carries⟩ := carries_of_mem_valueInputs fed.valid hport
  obtain ⟨s, -, hs⟩ := leads.iff sound.formed sound.bounded carries
  have hfirst := Spot.first_of_fedBy sound.formed ((hs s).mpr rfl)
  exact hfirst

/-- The value at an incoming port is what feeds it, and has the type of the port. -/
theorem Sound.valueAt_ensures (sound : plan.Sound) (fed : plan.Fed below i) (hlt : port < (plan.node i).ports.size)
    (hincoming : ((plan.node i).port port).direction = .incoming) :
    (plan.valueAt i port type).Ensures final fun ref => plan.Supplied final i port ref ∧
      ∃ t, ((plan.node i).port port).kind = .value t ∧ (t = type → plan.Fits final below type ref) := by
  unfold valueAt
  refine Emit.Ensures.bind Emit.Ensures.trailed fun source => ?_
  have hcarries (leads : ValueLeads plan.src plan.bound ⟨i.path, i.node, port⟩ source) :
      ∃ t, ((plan.node i).port port).kind = .value t ∧
        Spot.Carries plan.src.library plan.src.entry t ⟨i.path, i.node, port⟩ := by
    cases hkind : ((plan.node i).port port).kind with
    | flow =>
      obtain ⟨trail, hsource, -⟩ := leads
      refine absurd hsource (Library.valueSource_flow ?_ _)
      exact hkind
    | value t => exact ⟨t, rfl, fed.valid, hkind⟩
  match source with
  | none =>
    refine (plan.intern_ensures _).mono fun ref _ leads => ?_
    obtain ⟨t, -, carries⟩ := hcarries leads
    obtain ⟨s, hnone, -⟩ := ValueLeads.iff sound.formed sound.bounded leads carries
    cases hnone
  | some (.constant value) =>
    refine (plan.intern_ensures value).mono fun ref (stands : plan.Stands final (.constant value) ref) leads => ?_
    obtain ⟨t, hkind, carries⟩ := hcarries leads
    obtain ⟨s, hsome, hs⟩ := ValueLeads.iff sound.formed sound.bounded leads carries
    obtain rfl := Option.some.inj hsome
    have htype : value.type = t := ValueLeads.hasType sound.formed sound.bounded leads carries rfl
    refine ⟨⟨_, t, hs, hkind, htype, stands⟩, t, hkind, ?_⟩
    rintro rfl
    exact htype ▸ stands.fits
  | some (.operator source) =>
    dsimp only
    have hoperator (leads : ValueLeads plan.src plan.bound ⟨i.path, i.node, port⟩ (some (.operator source))) :
        ∃ t index, plan.registry.operators[source.key]? = some index ∧
          plan.Supplies final i port (.output index 0) (.operator source) t ∧
          plan.Fits final below t (.output index 0) := by
      obtain ⟨t, hkind, carries⟩ := hcarries leads
      have hport : port ∈ (plan.node i).valueInputs := GraphNode.mem_valueInputs.mpr ⟨hlt, hincoming, t, hkind⟩
      obtain ⟨index, hindex, fits⟩ := sound.output_fits (fed.operands port hport) carries leads
      obtain ⟨s, hsome, hs⟩ := ValueLeads.iff sound.formed sound.bounded leads carries
      obtain rfl := Option.some.inj hsome
      have htype := ValueLeads.hasType sound.formed sound.bounded leads carries rfl
      exact ⟨t, index, hindex, ⟨hs, hkind, htype, index, hindex, rfl⟩, fits⟩
    cases hindex : plan.registry.operators[source.key]? with
    | none =>
      refine (plan.intern_ensures _).mono fun ref _ leads => ?_
      obtain ⟨t, index, hindex', -⟩ := hoperator leads
      cases hindex.symm.trans hindex'
    | some index =>
      refine Emit.Ensures.pure fun leads => ?_
      obtain ⟨t, index', hindex', supplies, fits⟩ := hoperator leads
      obtain rfl := Option.some.inj (hindex.symm.trans hindex')
      exact ⟨⟨_, t, supplies⟩, t, supplies.kind, fun ht => ht ▸ fits⟩

/-- The value at the first port of a name, whose type may only be known in the end. -/
theorem Sound.value_ensures (sound : plan.Sound) (fed : plan.Fed below i) {name : String}
    (hname : (plan.node i).port? name = some port) (hincoming : ((plan.node i).port port).direction = .incoming) :
    (plan.value i name type).Ensures final fun ref => plan.Supplied final i port ref ∧
      ∃ t, ((plan.node i).port port).kind = .value t ∧ (t = type → plan.Fits final below type ref) := by
  rw [value, hname]
  exact sound.valueAt_ensures fed (GraphNode.port?_eq_some hname).1 hincoming

/-- The value at the first port of a name, all ports of which carry values of the type. -/
theorem Sound.value_fits (sound : plan.Sound) (fed : plan.Fed below i) {spec : NodeSpec}
    (built : (plan.node i).BuiltFrom spec) {name : String} (hname : (plan.node i).port? name = some port)
    (hall : ∀ port ∈ spec.ports, port.name = name → port.direction = .incoming ∧ port.kind = .value type) :
    (plan.value i name type).Ensures final fun ref =>
      plan.Supplied final i port ref ∧ plan.Fits final below type ref := by
  obtain ⟨hincoming, hkind⟩ := built.of_port? hall hname
  refine (sound.value_ensures fed hname hincoming).mono ?_
  rintro ref ⟨supplies, t, hkind', hfits⟩
  exact ⟨supplies, hfits (PortKind.value.inj (hkind'.symm.trans hkind))⟩

/-! ### Control -/

/-- The number is that of what the flow port runs. -/
def Runs (plan : Plan) (i : Instance) (port : Nat) (id : NodeId) : Prop :=
  ∃ target, (∀ other, FlowsTo plan.src.library ⟨i.path, i.node, port⟩ other ↔ other = target) ∧
    match target with
    | none => id = .nop
    | some j => plan.registry.actions[j.key]? = some id

theorem Sound.flowTarget_ensures (sound : plan.Sound) (hi : i ∈ plan.registry.actionOrder)
    (hport : port ∈ (plan.node i).flowOutputs) :
    (plan.flowTarget i port).Ensures final fun target =>
      (∀ other, FlowsTo plan.src.library ⟨i.path, i.node, port⟩ other ↔ other = target) ∧
        ∀ j, target = some j → plan.registry.actions[j.key]? = some (plan.nodeId j) := by
  refine Emit.Ensures.trailed.mono fun target (leads : FlowLeads plan.src plan.bound _ target) => ?_
  have controls := controls_of_mem_flowOutputs (sound.complete.reached i hi).1.action.1 hport
  refine ⟨leads.iff sound.formed sound.bounded controls, ?_⟩
  rintro j rfl
  obtain ⟨target, leads', hknown⟩ := sound.complete.flows i hi port hport
  have hsame := (leads.iff sound.formed sound.bounded controls target).mp
    ((leads'.iff sound.formed sound.bounded controls target).mpr rfl)
  obtain ⟨n, hn⟩ := hknown j hsame
  obtain ⟨id, hid, -⟩ := Option.map_eq_some_iff.mp hn
  rw [hid, nodeId, Std.HashMap.getD_eq_getD_getElem?, hid]
  rfl

theorem Sound.childAt_ensures (sound : plan.Sound) (hi : i ∈ plan.registry.actionOrder)
    (hport : port ∈ (plan.node i).flowOutputs) : (plan.childAt i port).Ensures final (plan.Runs i port) := by
  unfold childAt
  refine Emit.Ensures.bind (sound.flowTarget_ensures hi hport) fun target => ?_
  cases target with
  | none => exact Emit.Ensures.pure fun ⟨hflows, _⟩ => ⟨none, hflows, rfl⟩
  | some child =>
    dsimp only
    split
    · exact Emit.Ensures.bind (Emit.Ensures.report _) fun _ => Emit.Ensures.pure fun h => h.elim
    · exact Emit.Ensures.bind (Emit.Ensures.report _) fun _ => Emit.Ensures.pure fun h => h.elim
    · exact Emit.Ensures.pure fun ⟨hflows, hid⟩ => ⟨some child, hflows, hid child rfl⟩

/-- The first flow port of a name. -/
theorem Sound.child_ensures (sound : plan.Sound) (hi : i ∈ plan.registry.actionOrder) {name : String}
    (hname : (plan.node i).port? name = some port) (hport : port ∈ (plan.node i).flowOutputs) :
    (plan.child i name).Ensures final (plan.Runs i port) := by
  rw [child, hname]
  exact sound.childAt_ensures hi hport

/-- The thread of a parallel node begins at a thread root. -/
theorem Sound.thread_ensures (sound : plan.Sound) (hi : i ∈ plan.registry.actionOrder)
    (hname : (plan.node i).port? "parallel" = some port) (hport : port ∈ (plan.node i).flowOutputs) :
    (plan.thread i).Ensures final fun id => plan.Runs i port id ∧
      ∃ j looping, plan.registry.actions[j.key]? = some id ∧ (plan.node j).role = .action (.threadRoot looping) := by
  have hinvalid {Q : NodeId → Prop} : (thread.invalid plan i).Ensures final Q :=
    Emit.Ensures.bind (Emit.Ensures.report _) fun _ => Emit.Ensures.pure fun h => h.elim
  unfold thread
  rw [hname]
  refine Emit.Ensures.bind (sound.flowTarget_ensures hi hport) fun target => ?_
  cases target with
  | none => exact hinvalid
  | some child =>
    dsimp only
    split
    next looping hrole =>
      refine Emit.Ensures.pure fun ⟨hflows, hid⟩ => ?_
      exact ⟨⟨some child, hflows, hid child rfl⟩, child, looping, hid child rfl, hrole⟩
    next => exact hinvalid

end Plan

end BehaviorTree
