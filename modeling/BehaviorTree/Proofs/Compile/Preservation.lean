import BehaviorTree.Proofs.Compile.Meaning

/-! Compilation keeps the meaning of value ports: in every world that suits the program, the reference that is emitted
for a value input of an instance evaluates to the value that the graph gives the input. -/

namespace BehaviorTree

open Refusal

/-! ### Reading -/

theorem Scalar.ofBytes_eq_ok_iff {bytes : Bytes} {v : Scalar} : Scalar.ofBytes bytes = .ok v ↔ bytes = v.bytes := by
  unfold ofBytes
  constructor
  · intro h
    split_ifs at h
    obtain rfl := Except.ok.inj h
    rfl
  · rintro rfl
    rw [dif_pos v.short]

namespace Surroundings

theorem readStorage_eq_ok_iff {stores : Array Storage} {index offset : UInt16} {type : ValueType} {v : Scalar} :
    readStorage stores index offset type = .ok v ↔
      ∃ store, stores[index.toNat]? = some store ∧ store.data.slice offset.toNat type.size = .ok v.bytes := by
  unfold readStorage
  cases stores[index.toNat]? with
  | none => simp
  | some store => simp [bind_eq_ok_iff, Scalar.ofBytes_eq_ok_iff]

end Surroundings

namespace Plan

variable {σ : Type} {plan : Plan} {p : Program} {world : World σ} {entries : List Entry} {operations : List Operation}
  {final : Bytes}

/-- A constant is evaluated to its bytes. -/
theorem Stands.evalWithin {value : Constant} {ref : ValueRef}
    (stands : plan.Stands p.expressions.constants (.constant value) ref)
    (hpool : p.expressions.constants.length < 2 ^ 32) (world : World σ) (depth : Nat) :
    (world.surroundings p).evalWithin depth ref = .ok value.scalar := by
  obtain ⟨offset, rfl, hle, hbytes⟩ := stands
  have hslice : p.expressions.constants.slice offset.toNat (UInt16.ofNat value.bytes.length).toNat =
      .ok value.scalar.bytes := by
    rw [value.toNat_length, Bytes.slice, if_pos hle, hbytes hpool]
    rfl
  cases depth <;>
    simp only [Surroundings.evalWithin, World.surroundings, bind_eq_ok_iff, Scalar.ofBytes_eq_ok_iff] <;>
    exact ⟨_, hslice, rfl⟩

theorem sublist_names (src : Sources) (names : List String) :
    ((names.filterMap src.componentType?).map ComponentType.name).Sublist names := by
  induction names with
  | nil => exact .slnil
  | cons name names ih =>
    cases hname : src.componentType? name with
    | none =>
      rw [List.filterMap_cons_none hname]
      exact ih.cons name
    | some type =>
      obtain ⟨layout, -, rfl⟩ := Option.map_eq_some_iff.mp hname
      rw [List.filterMap_cons_some hname]
      exact ih.cons_cons name

section

variable (made : plan.Made p entries operations) (sound : plan.Sound)

include made sound

/-- A component type is found by its name. -/
theorem Made.index_of_name {i j : Nat} {a b : ComponentType} (ha : p.types[i]? = some a) (hb : p.types[j]? = some b)
    (hname : a.name = b.name) : i = j := by
  have hnodup : plan.typeNames.Nodup := by
    rw [sound.typeNames]
    exact Std.TreeSet.distinct_toList.imp fun h hsame => h (Std.LawfulEqCmp.compare_eq_iff_eq.mpr hsame)
  have hnames := hnodup.sublist (sublist_names plan.src plan.typeNames)
  rw [made.types, List.getElem?_toArray] at ha hb
  have ha := congrArg (Option.map ComponentType.name) ha
  have hb := congrArg (Option.map ComponentType.name) hb
  rw [← List.getElem?_map] at ha hb
  obtain ⟨hi, ha⟩ := List.getElem?_eq_some_iff.mp ha
  obtain ⟨hj, hb⟩ := List.getElem?_eq_some_iff.mp hb
  exact hnames.getElem_inj_iff.mp (ha.trans (hname.trans hb.symm))

/-- What an operation without operands gives is what its operator reads. -/
theorem Made.reads_iff (hsmall : p.types.size ≤ 65536) {i : Instance} {op : Operator} {operation : Operation}
    (performs : plan.Performs final i op operation) (hnone : operation.operands = [])
    {operand : ValueRef → Except Fault Scalar} {v : Scalar} :
    Reads plan.src p world op v ↔ (world.surroundings p).apply operand operation = .ok v := by
  cases op with
  | readField component field =>
    obtain ⟨layout, found, index, hlayout, hfound, hindex, rfl⟩ := performs
    have htype := made.type sound hsmall hindex hlayout
    rw [Surroundings.apply, Surroundings.readStorage_eq_ok_iff]
    constructor
    · rintro ⟨hlayout', hfound', htype', hname, hstore, hbytes⟩
      obtain rfl := Option.some.inj (hlayout'.symm.trans hlayout)
      obtain rfl := Option.some.inj (hfound'.symm.trans hfound)
      rw [made.index_of_name sound htype' htype hname] at hstore
      exact ⟨_, hstore, hbytes⟩
    · rintro ⟨store, hstore, hbytes⟩
      exact .field hlayout hfound htype rfl hstore hbytes
  | lookupField lookup component field =>
    obtain ⟨layout, found, hlayout, hfound, hlookup, rfl⟩ := performs
    rw [Surroundings.apply, Surroundings.readStorage_eq_ok_iff]
    constructor
    · rintro (_ | ⟨hlayout', hfound', -, -, hstore, hbytes⟩)
      obtain rfl := Option.some.inj (hlayout'.symm.trans hlayout)
      obtain rfl := Option.some.inj (hfound'.symm.trans hfound)
      exact ⟨_, hstore, hbytes⟩
    · rintro ⟨store, hstore, hbytes⟩
      exact .lookup hlayout hfound (made.lookup hlookup hlayout) rfl hstore hbytes
  | readVar var =>
    obtain ⟨slot, hslot, rfl⟩ := performs
    simp only [Surroundings.apply, bind_eq_ok_iff, Scalar.ofBytes_eq_ok_iff]
    constructor
    · rintro (_ | _ | ⟨hslot', hbytes⟩)
      obtain rfl := Option.some.inj (hslot'.symm.trans hslot)
      exact ⟨_, hbytes, rfl⟩
    · rintro ⟨bytes, hbytes, rfl⟩
      exact .var hslot hbytes
  | not =>
    obtain ⟨a, rfl, -⟩ := performs
    cases hnone
  | and | or | compare | arith =>
    obtain ⟨a, b, rfl, -⟩ := performs
    cases hnone

/-- An operation gives the value of its operator if its operands have the values of their ports. -/
theorem Made.gives (hsmall : p.types.size ≤ 65536) (suits : world.Suits p) {i : Instance} {op : Operator}
    {operation : Operation} (performs : plan.Performs final i op operation) (kind : p.KindValid operation)
    {operand : ValueRef → Except Fault Scalar}
    (hoperand : ∀ name, ∀ ref ∈ operation.operands, plan.Operand final i name ref →
      ∃ v, operand ref = .ok v ∧ ∀ w, i.Takes plan.src p world name w ↔ w = v) :
    ∃ v, (world.surroundings p).apply operand operation = .ok v ∧ ∀ w, i.Gives plan.src p world op w ↔ w = v := by
  have hread (hnone : operation.operands = []) :
      ∃ v, (world.surroundings p).apply operand operation = .ok v ∧ ∀ w, i.Gives plan.src p world op w ↔ w = v := by
    obtain ⟨v, hv, -⟩ : ∃ v, (world.surroundings p).apply operand operation = .ok v ∧ _ :=
      Surroundings.apply_ok suits kind (by simp [hnone])
    refine ⟨v, hv, fun w => gives_read_iff fun w => ?_⟩
    rw [made.reads_iff sound hsmall performs hnone, hv]
    exact ⟨fun h => (Except.ok.inj h).symm, fun h => congrArg _ h.symm⟩
  have htwo {a b : ValueRef} (hmem : a ∈ operation.operands ∧ b ∈ operation.operands)
      (operands : plan.Operand final i "a" a ∧ plan.Operand final i "b" b)
      (hv : ∀ va vb, operand a = .ok va → operand b = .ok vb →
        ∃ v, op.combine? va vb = some v ∧ (world.surroundings p).apply operand operation = .ok v) :
      ∃ v, (world.surroundings p).apply operand operation = .ok v ∧ ∀ w, i.Gives plan.src p world op w ↔ w = v := by
    obtain ⟨va, hva, takesA⟩ := hoperand "a" a hmem.1 operands.1
    obtain ⟨vb, hvb, takesB⟩ := hoperand "b" b hmem.2 operands.2
    obtain ⟨v, hcombine, happly⟩ := hv va vb hva hvb
    exact ⟨v, happly, fun w => gives_combine_iff hcombine takesA takesB⟩
  cases op with
  | readField component field =>
    obtain ⟨layout, found, index, -, -, -, rfl⟩ := performs
    exact hread rfl
  | lookupField lookup component field =>
    obtain ⟨layout, found, -, -, -, rfl⟩ := performs
    exact hread rfl
  | readVar var =>
    obtain ⟨slot, -, rfl⟩ := performs
    exact hread rfl
  | not =>
    obtain ⟨a, rfl, operand⟩ := performs
    obtain ⟨va, hva, takes⟩ := hoperand "a" a (by simp [Operation.operands]) operand
    exact ⟨.ofBool !va.toBool, by simp only [Surroundings.apply, hva, bind, Except.bind]; rfl, fun w => gives_not_iff takes⟩
  | and =>
    obtain ⟨a, b, rfl, operands⟩ := performs
    refine htwo (by simp [Operation.operands]) operands fun va vb hva hvb => ⟨_, rfl, ?_⟩
    cases htrue : va.toBool <;> simp [Surroundings.apply, hva, hvb, htrue, bind, Except.bind, pure, Except.pure]
  | or =>
    obtain ⟨a, b, rfl, operands⟩ := performs
    refine htwo (by simp [Operation.operands]) operands fun va vb hva hvb => ⟨_, rfl, ?_⟩
    cases htrue : va.toBool <;> simp [Surroundings.apply, hva, hvb, htrue, bind, Except.bind, pure, Except.pure]
  | compare op type =>
    obtain ⟨a, b, rfl, operands⟩ := performs
    refine htwo (by simp [Operation.operands]) operands fun va vb hva hvb => ⟨_, rfl, ?_⟩
    simp [Surroundings.apply, hva, hvb, bind, Except.bind, pure, Except.pure]
  | arith op type =>
    obtain ⟨a, b, rfl, operands⟩ := performs
    refine htwo (by simp [Operation.operands]) operands fun va vb hva hvb => ?_
    obtain ⟨v, hv⟩ : ∃ v, op.apply type va vb = .ok v := by
      cases type with
      | bool => exact absurd rfl kind.1
      | int => exact ⟨_, rfl⟩
      | float => exact ⟨_, rfl⟩
    refine ⟨v, by rw [Operator.combine?, hv]; rfl, ?_⟩
    simp [Surroundings.apply, hva, hvb, hv, bind, Except.bind]

/-- The operation at the number of an operator is its own. -/
theorem Made.operation (distinct : CallPath.Distinct plan.src.library plan.src.entry) {i : Instance}
    (valid : i.path.Valid plan.src.library plan.src.entry) {index : UInt16}
    (hindex : plan.registry.operators[i.key]? = some index) :
    ∃ operation, p.expressions.operations[index.toNat]? = some operation ∧
      plan.Computed p index.toNat i operation := by
  have hnumber : plan.registry.operatorNumber i.key = some index.toNat := by rw [Registry.operatorNumber, hindex]; rfl
  obtain ⟨k, j, hj, hkey, hk⟩ := (sound.complete.operators _ _).mp hnumber
  obtain rfl := Instance.eq_of_key distinct (sound.complete.operating j (Array.mem_of_getElem? hj)).1.1 valid hkey
  obtain ⟨operation, hoperation, computed⟩ := Emit.getElem?_left made.operationsOf ((Array.getElem?_toList ..).trans hj)
  rw [hk, Nat.zero_add]
  refine ⟨operation, ?_, computed k hj⟩
  rw [made.operations, List.getElem?_toArray]
  exact hoperation

/-- A reference that is supplied to a port evaluates to the value of the port. Operands stand below their operation, so
that the depth goes down with them. -/
theorem Made.denotes (distinct : CallPath.Distinct plan.src.library plan.src.entry) (carried : plan.Carried p)
    (hsmall : p.types.size ≤ 65536) (hpool : p.expressions.constants.length < 2 ^ 32) (suits : world.Suits p)
    {depth : Nat} {i : Instance} {port : Nat} {ref : ValueRef} (href : p.RefValid depth ref)
    (supplied : plan.Supplied p.expressions.constants i port ref) :
    ∃ v, (world.surroundings p).evalWithin depth ref = .ok v ∧
      ∀ w, Denotes plan.src p world ⟨i.path, i.node, port⟩ w ↔ w = v := by
  induction depth generalizing i port ref with
  | zero =>
    obtain ⟨source, type, supplies⟩ := supplied
    cases source with
    | constant value => exact ⟨_, supplies.stands.evalWithin hpool world 0, fun w => denotes_constant_iff supplies.fed⟩
    | operator j =>
      obtain ⟨index, -, rfl⟩ := supplies.stands
      exact absurd href.2.2 (Nat.not_lt_zero _)
  | succ depth ih =>
    obtain ⟨source, type, supplies⟩ := supplied
    cases source with
    | constant value =>
      exact ⟨_, supplies.stands.evalWithin hpool world (depth + 1), fun w => denotes_constant_iff supplies.fed⟩
    | operator j =>
      obtain ⟨index, hindex, rfl⟩ := supplies.stands
      obtain ⟨valid, ⟨op, hrole⟩, -⟩ := supplies.hasType
      obtain ⟨operation, hoperation, computed⟩ := made.operation sound distinct valid hindex
      obtain ⟨hoperands, kind⟩ := computed.valid carried
      have hdepth : index.toNat < depth + 1 := href.2.2
      have hoperand : ∀ name, ∀ ref ∈ operation.operands, plan.Operand p.expressions.constants j name ref →
          ∃ v, (world.surroundings p).evalWithin depth ref = .ok v ∧ ∀ w, j.Takes plan.src p world name w ↔ w = v := by
        rintro name ref hmem ⟨port, hport, supplied⟩
        obtain ⟨v, hv, denotes⟩ := ih ((hoperands ref hmem).mono (by omega)) supplied
        refine ⟨v, hv, fun w => ?_⟩
        rw [← denotes w]
        constructor
        · rintro ⟨port', hport', hw⟩
          obtain rfl := Option.some.inj (hport'.symm.trans hport)
          exact hw
        · exact fun hw => ⟨port, hport, hw⟩
      obtain ⟨v, hv, gives⟩ := made.gives sound hsmall suits (computed.performs op hrole) kind hoperand
      refine ⟨v, ?_, fun w => (denotes_operator_iff supplies.fed hrole).trans (gives w)⟩
      have hprogram : (world.surroundings p).expressions.operations[index.toNat]? = some operation := hoperation
      simp only [Surroundings.evalWithin, ne_eq, not_true_eq_false, if_false, hprogram]
      exact hv

/-- What is supplied to a port has the size of its type. -/
theorem Made.hasSize (distinct : CallPath.Distinct plan.src.library plan.src.entry) (carried : plan.Carried p)
    {i : Instance} {port : Nat} {ref : ValueRef} {source : ValueSource} {type : ValueType}
    (supplies : plan.Supplies p.expressions.constants i port ref source type) : p.HasSize ref type.size := by
  cases source with
  | constant value =>
    obtain rfl : value.type = type := supplies.hasType
    have fits : plan.Fits p.expressions.constants 0 value.type ref := supplies.stands.fits
    exact (carried.value fits).2
  | operator j =>
    obtain ⟨index, hindex, rfl⟩ := supplies.stands
    obtain ⟨valid, -, hout⟩ := supplies.hasType
    obtain ⟨operation, hoperation, computed⟩ := made.operation sound distinct valid hindex
    rw [Program.HasSize, Expressions.resultSize?, hoperation, ← computed.output type hout]
    rfl

end

end Plan

/-- The reference evaluates to the only value of the port, in as many bytes as its type has. -/
def Spot.Evaluates {σ : Type} (spot : Spot) (src : Sources) (p : Program) (world : World σ) (ref : ValueRef) : Prop :=
  ∃ type v, (spot.portOf src.library).kind = .value type ∧ (world.surroundings p).evaluate ref type.size = .ok v.bytes ∧
    ∀ w, Denotes src p world spot w ↔ w = v

namespace Plan

variable {σ : Type} {plan : Plan} {p : Program} {world : World σ} {entries : List Entry} {operations : List Operation}

theorem Made.evaluates (made : plan.Made p entries operations) (sound : plan.Sound)
    (distinct : CallPath.Distinct plan.src.library plan.src.entry) (carried : plan.Carried p)
    (hsmall : p.types.size ≤ 65536) (hpool : p.expressions.constants.length < 2 ^ 32) (suits : world.Suits p)
    {i : Instance} {port : Nat} {ref : ValueRef} (href : p.RefValid p.expressions.operations.size ref)
    (supplied : plan.Supplied p.expressions.constants i port ref) :
    Spot.Evaluates ⟨i.path, i.node, port⟩ plan.src p world ref := by
  have href := href.mono (Nat.le_succ _)
  obtain ⟨v, hv, denotes⟩ := made.denotes sound distinct carried hsmall hpool suits href supplied
  obtain ⟨source, type, supplies⟩ := supplied
  obtain ⟨v', hv', hlength⟩ := Surroundings.evalWithin_ok (made.valid sound carried) suits href
    (made.hasSize sound distinct carried supplies) (Surroundings.size_le_four type)
  obtain rfl := Except.ok.inj (hv.symm.trans hv')
  refine ⟨type, v, supplies.kind, ?_, denotes⟩
  have heval : (world.surroundings p).eval ref = .ok v := hv
  simp only [Surroundings.evaluate, heval, bind, Except.bind, hlength, if_true]
  rfl

end Plan

namespace Sources

/-- In a program that is compiled without errors, the values of every instance are those that the graph gives its value
inputs, in every world that is let through to the program. -/
theorem values_of_compile {src : Sources} (built : src.library.Built) (bounded : src.library.Bounded src.entry)
    (distinct : CallPath.Distinct src.library src.entry) (fields : src.catalog.InRange)
    (declared : src.blackboard.Built) (hboard : src.blackboard.size < 2 ^ 32) {c : Compilation}
    (h : src.compile = .ok c) (hclean : c.errors = []) (htypes : c.program.types.size ≤ 65536)
    (hpool : c.program.expressions.constants.length < 2 ^ 32) :
    ∃ instances : List Instance, instances.Nodup ∧ (∀ i, i ∈ instances ↔ Reached src.library src.entry i) ∧
      c.program.size = instances.length + 1 ∧ ∀ k i, instances[k]? = some i →
        ∃ entry, c.program.entries[k + 1]? = some entry ∧ i.Compiled src.library instances entry ∧
          ∀ {σ : Type} (world : World σ), world.check c.program = .ok () →
            List.Forall₂ (fun port ref => Spot.Evaluates ⟨i.path, i.node, port⟩ src c.program world ref)
              (i.graphNode src.library).valueInputs entry.node.values := by
  obtain ⟨registry, entries, operations, sound, made⟩ := made_of_compile built bounded h hclean
  have complete := sound.complete
  have carried := made.carried sound htypes fields declared.inRange hboard
  refine ⟨registry.actionOrder.toList, complete.nodup_actionOrder, fun i => ?_, made.size, fun k i hi => ?_⟩
  · rw [Array.mem_toList_iff]
    exact complete.mem_actionOrder_iff built.formed bounded distinct
  · rw [Array.getElem?_toList] at hi
    obtain ⟨entry, hentry, of, compiled⟩ := made.compiled sound distinct hi
    obtain ⟨a, -, emitted⟩ := of.node
    refine ⟨entry, hentry, compiled, fun world hcheck => ?_⟩
    refine ((List.forall₂_and_left _ _).mpr ⟨emitted.values carried, emitted.arguments.flip⟩).flip.imp ?_
    rintro port ref ⟨href, supplied⟩
    exact made.evaluates sound distinct carried htypes hpool (World.suits_of_check hcheck) href supplied

/-- The gates of the crossing are guarded by what the crossing gives them. A world in which everything is zero is let
through. -/
theorem values_of_compile_crossings : ∃ c, crossings.compile = .ok c ∧ c.errors = [] ∧
    c.program.types.size ≤ 65536 ∧ c.program.expressions.constants.length < 2 ^ 32 ∧
    (World.blank c.program crossings.blackboard.blank ()).check c.program = .ok () ∧
    ∃ instances : List Instance, instances.Nodup ∧
      (∀ i, i ∈ instances ↔ Reached crossings.library crossings.entry i) ∧
      c.program.size = instances.length + 1 ∧ ∀ k i, instances[k]? = some i →
        ∃ entry, c.program.entries[k + 1]? = some entry ∧ i.Compiled crossings.library instances entry ∧
          ∀ {σ : Type} (world : World σ), world.check c.program = .ok () →
            List.Forall₂ (fun port ref => Spot.Evaluates ⟨i.path, i.node, port⟩ crossings c.program world ref)
              (i.graphNode crossings.library).valueInputs entry.node.values := by
  have htypes : crossed.types.size ≤ 65536 := by decide
  have hpool : crossed.expressions.constants.length < 2 ^ 32 := by decide
  have hblank : (World.blank crossed crossings.blackboard.blank ()).check crossed = .ok () := by decide +kernel
  have hboard : crossings.blackboard.size < 2 ^ 32 := by decide
  exact ⟨_, crossings_compile, rfl, htypes, hpool, hblank, values_of_compile crossings_built crossings_bounded
    crossings_distinct crossings_inRange (.declare .empty "alert" .bool) hboard crossings_compile rfl htypes hpool⟩

end Sources

end BehaviorTree
