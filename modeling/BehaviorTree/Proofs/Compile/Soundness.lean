import Mathlib
import BehaviorTree.Compile.Basic
import BehaviorTree.Proofs.Compile.Instructions

/-! Programs that are compiled without errors are valid. -/

namespace BehaviorTree

/-! ### Blackboards -/

namespace BlackboardLayout

/-- The layouts that are declared variable by variable. -/
inductive Built : BlackboardLayout → Prop
  | empty : Built .empty
  | declare {layout : BlackboardLayout} (built : Built layout) (name : String) (type : ValueType) :
    Built (layout.declare name type).1

/-- A variable stays where it is, or is placed behind all others. -/
theorem declare_cases (layout : BlackboardLayout) (name : String) (type : ValueType) :
    (layout.declare name type).1 = layout ∨ (layout.declare name type).1 =
      ⟨layout.vars.insert name (layout.nextSlot type), alignUp layout.size type.size + type.size⟩ := by
  unfold declare
  split
  · exact .inl rfl
  · exact .inr rfl

/-- Every declared variable lies in the blackboard. -/
theorem Built.inRange {layout : BlackboardLayout} (built : layout.Built) : layout.InRange := by
  induction built with
  | empty => simp [InRange, get?, BlackboardLayout.empty]
  | @declare layout built name type ih =>
    rcases layout.declare_cases name type with h | h
    · rw [h]
      exact ih
    · rw [h]
      intro other slot hslot
      have hslot : (layout.vars.insert name (layout.nextSlot type))[other]? = some slot := hslot
      have hle := le_alignUp layout.size type
      rw [Std.TreeMap.getElem?_insert] at hslot
      split_ifs at hslot
      · obtain rfl := Option.some.inj hslot
        have hwrap : (UInt32.ofNat (alignUp layout.size type.size)).toNat ≤ alignUp layout.size type.size := by
          rw [UInt32.toNat_ofNat']
          exact Nat.mod_le _ _
        exact Nat.add_le_add_right hwrap type.size
      · have := ih other slot hslot
        show slot.offset.toNat + slot.length ≤ alignUp layout.size type.size + type.size
        omega

end BlackboardLayout

/-! ### Programs -/

open Registry

namespace Plan

variable {plan : Plan} {p : Program}

/-- The entry of an instance: the instruction of its action, and where it came from. -/
structure EntryOf (plan : Plan) (p : Program) (i : Instance) (entry : Entry) : Prop where
  node : ∃ a, (plan.node i).role = .action a ∧ plan.Emitted p i a entry.node
  debugId : entry.debugId = i.debugId plan.src.library
  path : entry.path = i.path.instanceIds plan.src.library

theorem map_some_filterMap {α β : Type} {f : α → Option β} {items : List α} (h : ∀ a ∈ items, (f a).isSome) :
    (items.filterMap f).map some = items.map f := by
  induction items with
  | nil => rfl
  | cons a items ih =>
    obtain ⟨b, hb⟩ := Option.isSome_iff_exists.mp (h a (by simp))
    rw [List.filterMap_cons_some hb, List.map_cons, List.map_cons, hb, ih fun a ha => h a (by simp [ha])]

section

variable (sound : plan.Sound)

include sound

theorem entry_ensures {i : Instance} (hi : i ∈ plan.registry.actionOrder) :
    (plan.entry i).Ensures p.expressions.constants (plan.EntryOf p i) := by
  obtain ⟨-, a, hrole⟩ := (sound.complete.reached i hi).1.action
  have hrole : (plan.node i).role = .action a := hrole
  unfold entry
  rw [hrole]
  refine Emit.Ensures.bind (action_ensures sound hi hrole) fun node => ?_
  exact Emit.Ensures.pure fun emitted => ⟨⟨a, hrole, emitted⟩, rfl, rfl⟩

theorem entries_ensures : plan.entries.Ensures p.expressions.constants
    (List.Forall₂ (plan.EntryOf p) plan.registry.actionOrder.toList) := by
  obtain ⟨root, -, hroot⟩ := sound.complete.root
  unfold entries
  split
  next hnil =>
    rw [← Array.getElem?_toList, hnil] at hroot
    cases hroot
  next => exact Emit.Ensures.mapM fun i hi => entry_ensures sound (Array.mem_toList_iff.mp hi)

theorem operations_ensures :
    (plan.registry.operatorOrder.toList.mapM plan.operation).Ensures p.expressions.constants
      (List.Forall₂ (fun i operation => ∀ k, plan.registry.operatorOrder[k]? = some i →
        plan.Computed p k i operation) plan.registry.operatorOrder.toList) := by
  refine Emit.Ensures.mapM fun i hi => ?_
  obtain ⟨k, hk⟩ := Array.mem_iff_getElem?.mp (Array.mem_toList_iff.mp hi)
  obtain ⟨-, op, hrole⟩ := (sound.complete.operating i (Array.mem_of_getElem? hk)).1
  have hrole : (plan.node i).role = .operator op := hrole
  unfold operation
  rw [hrole]
  refine (operator_ensures sound hk hrole).mono fun operation computed k' hk' => ?_
  rwa [sound.complete.operators.inj hk' hk rfl]

/-- A program that is emitted without errors for a plan. -/
structure Made (plan : Plan) (p : Program) (entries : List Entry) (operations : List Operation) : Prop where
  entriesOf : List.Forall₂ (plan.EntryOf p) plan.registry.actionOrder.toList entries
  operationsOf : List.Forall₂ (fun i operation => ∀ k, plan.registry.operatorOrder[k]? = some i →
    plan.Computed p k i operation) plan.registry.operatorOrder.toList operations
  entries : p.entries = (Entry.ofNode .nop :: entries).toArray
  operations : p.expressions.operations = operations.toArray
  types : p.types = (plan.typeNames.filterMap plan.src.componentType?).toArray
  lookups : p.lookups = plan.lookups
  blackboard : p.blackboardSize = UInt32.ofNat plan.src.blackboard.size

theorem made_of_program {d d' : Draft} (h : plan.program d = .ok (p, d')) (hformed : d.pool.Formed)
    (hclean : d'.errors = #[]) : ∃ entries operations, plan.Made p entries operations := by
  obtain ⟨entries, d₁, hentries, h⟩ := Emit.bind_eq_ok_iff.mp h
  obtain ⟨operations, d₂, hoperations, h⟩ := Emit.bind_eq_ok_iff.mp h
  obtain ⟨_, _, hget, h⟩ := Emit.bind_eq_ok_iff.mp h
  obtain ⟨rfl, rfl⟩ := Prod.mk.inj (Except.ok.inj hget)
  obtain ⟨hp, rfl⟩ := Prod.mk.inj (Except.ok.inj h)
  obtain ⟨hformed₁, hgrows₁, hlisted₁⟩ := entries_ensures (p := p) sound d entries d₁ hentries hformed
  obtain ⟨-, hgrows₂, hlisted₂⟩ := operations_ensures (p := p) sound d₁ operations d₂ hoperations hformed₁
  have hfinal : d₂.pool.bytes.toList = p.expressions.constants := by rw [← hp]
  obtain ⟨hclean₁, hoperations⟩ := hlisted₂ hclean
  have hentries := (hlisted₁ hclean₁).2 (hfinal ▸ hgrows₂)
  refine ⟨entries, operations, hentries, hoperations (hfinal ▸ List.prefix_refl _), ?_, ?_, ?_, ?_, ?_⟩ <;> rw [← hp]

end

namespace Made

variable {entries : List Entry} {operations : List Operation} (made : plan.Made p entries operations)

include made

theorem size : p.size = plan.registry.actionOrder.size + 1 := by
  have hlength := made.entriesOf.length_eq
  rw [Array.length_toList] at hlength
  rw [Program.size, made.entries, hlength]
  simp

/-- The entry of an action stands at its number. -/
theorem entry {k : Nat} {i : Instance} (hi : plan.registry.actionOrder[k]? = some i) :
    ∃ entry, p.entries[1 + k]? = some entry ∧ plan.EntryOf p i entry := by
  rw [← Array.getElem?_toList] at hi
  obtain ⟨entry, hentry, of⟩ := Emit.getElem?_left made.entriesOf hi
  refine ⟨entry, ?_, of⟩
  rw [made.entries, List.getElem?_toArray, Nat.add_comm, List.getElem?_cons_succ]
  exact hentry

/-- There is the terminal node, and what is emitted for actions. -/
theorem entry_cases {entry : Entry} (h : entry ∈ p.entries) :
    entry = Entry.ofNode .nop ∨ ∃ i a, plan.Emitted p i a entry.node := by
  rw [made.entries, List.mem_toArray, List.mem_cons] at h
  rcases h with rfl | h
  · exact .inl rfl
  · obtain ⟨i, -, of⟩ := Emit.exists_of_mem_right made.entriesOf h
    obtain ⟨a, -, emitted⟩ := of.node
    exact .inr ⟨i, a, emitted⟩

/-- A number of the registry is that of an instance with the same node. -/
theorem node (sound : plan.Sound) {j : Instance} {id : NodeId} (h : plan.registry.actions[j.key]? = some id) :
    ∃ i ∈ plan.registry.actionOrder, plan.node i = plan.node j ∧
      ∃ entry, p.entries[id.toNat]? = some entry ∧ plan.EntryOf p i entry := by
  have hnumber : plan.registry.actionNumber j.key = some id.toNat := by rw [actionNumber, h]; rfl
  obtain ⟨k, i, hi, hkey, hk⟩ := (sound.complete.actions _ _).mp hnumber
  refine ⟨i, Array.mem_of_getElem? hi, Instance.graphNode_of_key hkey, ?_⟩
  rw [hk]
  exact made.entry hi

theorem outputs {k : Nat} {j : Instance} {t : ValueType} (hj : plan.registry.operatorOrder[k]? = some j)
    (ht : (plan.node j).valueType? "out" = some t) :
    ∃ operation, p.expressions.operations[k]? = some operation ∧ operation.outputType = t := by
  obtain ⟨operation, hoperation, computed⟩ := Emit.getElem?_left made.operationsOf ((Array.getElem?_toList ..).trans hj)
  refine ⟨operation, ?_, (computed k hj).output t ht⟩
  rw [made.operations, List.getElem?_toArray]
  exact hoperation

/-- The component types of a program are those that are written down, by their index. -/
theorem type (sound : plan.Sound) (hsmall : p.types.size ≤ 65536) {component : String} {index : UInt16}
    {layout : ComponentLayout} (hindex : plan.componentIndex? component = some index)
    (hlayout : plan.src.catalog.get? component = some layout) :
    p.types[index.toNat]? = some ⟨component, componentTypeId component, layout.size⟩ := by
  have hall : ∀ name ∈ plan.typeNames, (plan.src.componentType? name).isSome := by
    intro name hname
    rw [sound.typeNames] at hname
    rw [Sources.componentType?, Option.isSome_map]
    exact sound.complete.catalogued name (Std.TreeSet.mem_toList.mp hname)
  have htypes := map_some_filterMap hall
  have hlength := congrArg List.length htypes
  simp only [List.length_map] at hlength
  have hsize : p.types.size = plan.typeNames.length := by rw [made.types, List.size_toArray, hlength]
  obtain ⟨n, hn, rfl⟩ := Option.map_eq_some_iff.mp hindex
  obtain ⟨hlt, hname, -⟩ := List.idxOf?_eq_some_iff.mp hn
  have hget := congrArg (·[n]?) htypes
  simp only [List.getElem?_map, List.getElem?_eq_getElem hlt, hname, Option.map_some] at hget
  obtain ⟨type, htype, hsome⟩ := Option.map_eq_some_iff.mp hget
  rw [Sources.componentType?, hlayout] at hsome
  obtain rfl := Option.some.inj hsome
  rw [made.types, List.getElem?_toArray, UInt16.toNat_ofNat_of_lt' (show n < 65536 by omega)]
  exact htype

/-- The component types behind the lookups are those that are written down. -/
theorem lookup {lookup : UInt16} {component : String} {layout : ComponentLayout}
    (hlookup : plan.registry.lookups[lookup.toNat]? = some component)
    (hlayout : plan.src.catalog.get? component = some layout) :
    p.lookups[lookup.toNat]? = some (some ⟨component, componentTypeId component, layout.size⟩) := by
  have hmem : lookup.toNat ∈ plan.registry.lookups := by
    rw [Std.TreeMap.mem_iff_isSome_getElem?, hlookup]
    rfl
  obtain ⟨last, hlast⟩ := Option.isSome_iff_exists.mp (Std.TreeMap.isSome_maxKey?_of_mem hmem)
  have hle := (Std.TreeMap.maxKey?_eq_some_iff_mem_and_forall.mp hlast).2 _ hmem
  have hlt : lookup.toNat < plan.registry.lookups.maxKey?.elim 0 (· + 1) := by
    rw [hlast]
    simpa [Nat.isLE_compare] using hle
  rw [made.lookups, Plan.lookups, Array.getElem?_ofFn, dif_pos hlt, hlookup, Option.bind_some, Sources.componentType?,
    hlayout]
  rfl

/-- The program carries the plan out. -/
theorem carried (sound : plan.Sound) (hsmall : p.types.size ≤ 65536) (fields : plan.src.catalog.InRange)
    (slots : plan.src.blackboard.InRange) (hboard : plan.src.blackboard.size < 2 ^ 32) : plan.Carried p where
  numbered key id h := by
    have hnumber : plan.registry.actionNumber key = some id.toNat := by rw [actionNumber, h]; rfl
    obtain ⟨k, i, hi, -, hk⟩ := (sound.complete.actions _ _).mp hnumber
    have hlt := (Array.getElem?_eq_some_iff.mp hi).1
    rw [made.size]
    omega
  kinds j id a h hrole := by
    obtain ⟨i, -, hnode, entry, hentry, of⟩ := made.node sound h
    obtain ⟨a', hrole', emitted⟩ := of.node
    obtain rfl : a' = a := Role.action.inj (hrole'.symm.trans (hnode ▸ hrole))
    rw [Program.node?, hentry]
    exact congrArg some emitted.kind
  operations := by
    rw [made.operations, List.size_toArray, ← made.operationsOf.length_eq, Array.length_toList]
  outputs k j t hj ht := made.outputs hj ht
  types component index layout _ hindex hlayout := ⟨_, made.type sound hsmall hindex hlayout, rfl⟩
  lookups lookup component layout hlookup hlayout := ⟨_, made.lookup hlookup hlayout, rfl⟩
  slots var slot h := by
    rw [Program.VarValid, made.blackboard, UInt32.toNat_ofNat_of_lt' hboard]
    exact slots var slot h
  fields := fields

/-- A program that is emitted without errors is valid. -/
theorem valid (sound : plan.Sound) (carried : plan.Carried p) : p.Valid := by
  have hpos : 0 < p.size := by
    rw [made.size]
    omega
  have hzero : p.entries[0]? = some (Entry.ofNode .nop) := by
    rw [made.entries]
    rfl
  have hroot : ∃ child, p.node? .root = some (.root child) := by
    obtain ⟨root, hroots, hfirst⟩ := sound.complete.root
    obtain ⟨entry, hentry, of⟩ := made.entry hfirst
    obtain ⟨a, hrole, emitted⟩ := of.node
    have hrootRole := mem_roots.mp (show root ∈ roots plan.src by simp [hroots])
    obtain rfl : a = .root := Role.action.inj (hrole.symm.trans hrootRole)
    have hkind := emitted.kind
    rw [Program.node?, show p.entries[NodeId.root.toNat]? = some entry from hentry, Option.map_some]
    cases hnode : entry.node with
    | root child => exact ⟨child, rfl⟩
    | _ =>
      rw [hnode] at hkind
      cases hkind
  refine ⟨by rw [Program.node?, show p.entries[NodeId.nop.toNat]? = _ from hzero]; rfl, hroot, ?_, ?_⟩
  · intro entry hentry
    obtain rfl | ⟨i, a, emitted⟩ := made.entry_cases hentry
    · exact ⟨by simp [Entry.ofNode, Node.children], by simp [Entry.ofNode, Node.values], trivial⟩
    · refine ⟨fun child hchild => ?_, emitted.values carried, emitted.payload carried⟩
      obtain ⟨port, -, runs⟩ := Emit.exists_of_mem_right emitted.children hchild
      exact carried.child hpos runs
  · intro k operation hk
    rw [made.operations, List.getElem?_toArray] at hk
    obtain ⟨i, hi, computed⟩ := Emit.getElem?_right made.operationsOf hk
    exact (computed k ((Array.getElem?_toList ..).symm.trans hi)).valid carried

end Made

end Plan

/-! ### Compilation -/

namespace Sources

theorem eq_nil_of_eraseDups {errors : List CompileError} (h : errors.eraseDups = []) : errors = [] := by
  cases errors with
  | nil => rfl
  | cons e errors =>
    rw [List.eraseDups_cons] at h
    cases h

/-- A compilation without errors has registered all that is run from the root, and then emitted it. -/
theorem program_of_compile {src : Sources} (built : src.library.Built) (bounded : src.library.Bounded src.entry)
    {c : Compilation} (h : src.compile = .ok c) (hclean : c.errors = []) : ∃ registry draft,
      (Plan.ofRegistry src registry).Sound ∧ (Plan.ofRegistry src registry).program .empty = .ok (c.program, draft) ∧
      draft.errors = #[] := by
  obtain ⟨registry, hbuild, h⟩ := Refusal.bind_eq_ok_iff.mp h
  obtain ⟨⟨program, draft⟩, hprogram, h⟩ := Refusal.bind_eq_ok_iff.mp h
  obtain rfl := Except.ok.inj h
  have hnil := eq_nil_of_eraseDups hclean
  rw [Array.toList_append, List.append_eq_nil_iff, Array.toList_eq_nil_iff, Array.toList_eq_nil_iff] at hnil
  have complete := Registry.build_complete built.formed bounded hbuild hnil.1
  exact ⟨registry, draft, ⟨built.formed, bounded, complete, rfl⟩, hprogram, hnil.2⟩

/-- A compilation without errors has emitted all that is run from the root. -/
theorem made_of_compile {src : Sources} (built : src.library.Built) (bounded : src.library.Bounded src.entry)
    {c : Compilation} (h : src.compile = .ok c) (hclean : c.errors = []) : ∃ registry entries operations, (Plan.ofRegistry src registry).Sound ∧
      (Plan.ofRegistry src registry).Made c.program entries operations := by
  obtain ⟨registry, draft, sound, hprogram, hnil⟩ := program_of_compile built bounded h hclean
  obtain ⟨entries, operations, made⟩ := Plan.made_of_program sound hprogram ConstantPool.formed_empty hnil
  exact ⟨registry, entries, operations, sound, made⟩

/-- What is compiled without errors is a valid program. -/
theorem validate_of_compile {src : Sources} (built : src.library.Built) (bounded : src.library.Bounded src.entry)
    (fields : src.catalog.InRange) (declared : src.blackboard.Built) (hboard : src.blackboard.size < 2 ^ 32)
    {c : Compilation} (h : src.compile = .ok c) (hclean : c.errors = []) (htypes : c.program.types.size ≤ 65536) :
    c.program.validate = .ok () := by
  obtain ⟨registry, entries, operations, sound, made⟩ := made_of_compile built bounded h hclean
  have carried := made.carried sound htypes fields declared.inRange hboard
  exact Program.validate_eq_ok_iff.mpr (made.valid sound carried)

/-- A guarded way through a graph. -/
def gate : Graph :=
  .assemble "gate" [.input [("run", .flow), ("open", .value .bool)], .output [("then", .flow)], .optional]
    [((0, "run"), (2, "in")), ((0, "open"), (2, "guard")), ((2, "child"), (1, "then"))] []

/-- Two ways through the same gate, one of which is always open. -/
def crossing : Graph :=
  .assemble "crossing" [.root, .sequence 2, .call 0 gate, .call 0 gate, .writeField "body" [("speed", .float)], .fail,
      .readVar "alert" .bool]
    [((0, "child"), (1, "in")), ((1, "0"), (2, "run")), ((1, "1"), (3, "run")), ((2, "then"), (4, "in")),
      ((3, "then"), (5, "in")), ((6, "out"), (2, "open"))]
    [((3, "open"), .bool true), ((4, "speed"), .float 0x3f800000)]

def crossings : Sources :=
  ⟨#[gate, crossing], Catalog.empty.define "body" [("speed", .float)], (BlackboardLayout.empty.declare "alert" .bool).1, 1⟩

/-- The entry that an instance in the crossing is compiled to. -/
def crossedEntry (i : Instance) (node : Node) : Entry :=
  ⟨node, i.debugId crossings.library, i.path.instanceIds crossings.library⟩

/-- What the crossing is compiled to. The gate has an entry for each call. -/
def crossed : Program where
  expressions := ⟨[0, 0, 128, 63, 1], #[.readVar ⟨0, .bool⟩]⟩
  entries := #[.ofNode .nop, crossedEntry ⟨.start 1, 0⟩ (.root ⟨2⟩), crossedEntry ⟨.start 1, 1⟩ (.sequence #[⟨3⟩, ⟨5⟩]),
    crossedEntry ⟨(CallPath.start 1).enter 2 0, 2⟩ (.optional (.output 0 0) ⟨4⟩),
    crossedEntry ⟨.start 1, 4⟩ (.writeField 0 [⟨0, 4, .constant 0 4⟩]),
    crossedEntry ⟨(CallPath.start 1).enter 3 0, 2⟩ (.optional (.constant 4 1) ⟨6⟩), crossedEntry ⟨.start 1, 5⟩ .fail]
  types := #[⟨"body", componentTypeId "body", 4⟩]
  lookups := #[]
  blackboardSize := 1

theorem crossings_compile : crossings.compile = .ok ⟨crossed, [], []⟩ := by
  cbv

theorem gate_roles : gate.nodes.toList.map (·.role) = [.input, .output, .action .optional] := by
  cbv

theorem crossing_roles : crossing.nodes.toList.map (·.role) = [.action .root, .action .sequence, .call 0, .call 0,
    .action (.writeField "body"), .action .fail, .operator (.readVar "alert")] := by
  cbv

theorem crossings_built : crossings.library.Built := by
  have gateBuilt : Library.Built #[gate] := .push .empty (Graph.built_assemble (by simp [NodeSpec.Known]))
  exact .push gateBuilt (Graph.built_assemble (by simp [NodeSpec.Known]))

theorem crossings_bounded : crossings.library.Bounded crossings.entry := by
  refine Library.bounded_of_forall _ fun graph hgraph => ?_
  obtain rfl | rfl : graph = gate ∨ graph = crossing := by simpa [crossings] using hgraph
  · exact ⟨Graph.atMostOne_of_roles gate_roles (by decide), Graph.atMostOne_of_roles gate_roles (by decide)⟩
  · exact ⟨Graph.atMostOne_of_roles crossing_roles (by decide), Graph.atMostOne_of_roles crossing_roles (by decide)⟩

theorem crossings_inRange : crossings.catalog.InRange := by
  intro name layout h
  have h : ((∅ : Std.TreeMap String ComponentLayout).insert "body" (.ofFields "body" [("speed", .float)]))[name]? =
    some layout := h
  rw [Std.TreeMap.getElem?_insert] at h
  split_ifs at h
  · obtain rfl := Option.some.inj h
    decide
  · simp at h

/-- The crossing compiles to a valid program. -/
theorem validate_of_compile_crossings : ∃ c, crossings.compile = .ok c ∧ c.errors = [] ∧
    c.program.types.size ≤ 65536 ∧ c.program.validate = .ok () := by
  have hboard : crossings.blackboard.size < 2 ^ 32 := by decide
  exact ⟨_, crossings_compile, rfl, by decide, validate_of_compile crossings_built crossings_bounded crossings_inRange
    (.declare .empty "alert" .bool) hboard crossings_compile rfl (by decide)⟩

end Sources

end BehaviorTree
