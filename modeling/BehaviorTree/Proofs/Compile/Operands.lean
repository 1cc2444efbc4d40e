import BehaviorTree.Proofs.Compile.Cycles
import BehaviorTree.Proofs.Compile.Instancing
import BehaviorTree.Proofs.Compile.Totality

/-! The order of operations. An operation that is emitted refers to its operands by their numbers, so that without a
circle every reference goes back to an operation before it. -/

namespace BehaviorTree

open Relation

/-- A reference to an operation has a smaller index. -/
def ValueRef.Below (k : Nat) (ref : ValueRef) : Prop :=
  ∀ index slot, ref = .output index slot → index.toNat < k

namespace Plan

open Registry

variable {plan : Plan} {i : Instance} {k : Nat}

theorem intern_below (value : Constant) : (Emit.intern value).Returns (ValueRef.Below k) := by
  intro d ref d' hrun index slot href
  obtain ⟨rfl, -⟩ := Prod.mk.inj (Except.ok.inj hrun)
  dsimp only [ConstantPool.intern] at href
  split at href <;> cases href

theorem valueAt_below {port : Nat} (fed : FedBelow plan.src plan.bound plan.registry k (i.spot port)) (type : ValueType) :
    (plan.valueAt i port type).Returns (ValueRef.Below k) := by
  obtain ⟨fedBy, trail, hvalue, hbelow⟩ := fed
  refine (Emit.Returns.trailed _).bind fun source hsource => ?_
  obtain ⟨trail', hsource⟩ := hsource
  obtain rfl : source = fedBy := (Prod.mk.inj (Except.ok.inj (hsource.symm.trans hvalue))).1
  rcases source with - | operator | value
  · exact intern_below _
  · dsimp only
    split
    next index hindex =>
      refine .pure fun index' slot href => ?_
      obtain ⟨rfl, -⟩ := ValueRef.output.inj href
      obtain ⟨n, hn, hlt⟩ := hbelow operator rfl
      rw [operatorNumber, hindex] at hn
      obtain rfl := Option.some.inj hn
      exact hlt
    next => exact intern_below _
  · exact intern_below _

section

variable (fed : ∀ port ∈ (plan.node i).valueInputs, FedBelow plan.src plan.bound plan.registry k (i.spot port))

include fed

theorem value_below {name : String} (hport : ∀ port, (plan.node i).port? name = some port → port ∈ (plan.node i).valueInputs)
    (type : ValueType) : (plan.value i name type).Returns (ValueRef.Below k) := by
  unfold value
  split
  next port h => exact valueAt_below (fed port (hport port h)) type
  next => exact intern_below _

/-- Two operands, one after the other. -/
theorem operands_below (formed : (plan.node i).Formed plan.src.library) {op : Operator}
    (hrole : (plan.node i).role = .operator op) (type : ValueType) {make : ValueRef → ValueRef → Operation}
    (hmake : ∀ a b, (make a b).operands = [a, b]) : (do
      let a ← plan.value i "a" type
      return make a (← plan.value i "b" type) : Emit Operation).Returns fun operation =>
        ∀ operand ∈ operation.operands, operand.Below k := by
  refine (value_below fed (fun _ => formed.operand hrole (.inl rfl)) _).bind fun a hlow => ?_
  refine (value_below fed (fun _ => formed.operand hrole (.inr rfl)) _).bind fun b hlow' => .pure ?_
  simp [hmake, hlow, hlow']

/-- The operands of an operation come before it. -/
theorem operator_below (formed : plan.src.library.Formed) {op : Operator} (hrole : (plan.node i).role = .operator op) :
    (plan.operator i op).Returns fun operation => ∀ operand ∈ operation.operands, operand.Below k := by
  have formed : (plan.node i).Formed plan.src.library :=
    formed.graphNode (by rw [show (i.graphNode plan.src.library).role = _ from hrole]; simp)
  cases op with
  | readField component field | lookupField lookup component field => exact .seq fun _ => .pure (by simp [Operation.operands])
  | readVar var =>
    refine .seq fun slot => ?_
    cases slot with
    | none => exact .pure (by simp [Operation.operands])
    | some slot => exact .seq fun _ => .pure (by simp [Operation.operands])
  | not =>
    refine (value_below fed (fun _ => formed.operand hrole (.inl rfl)) _).bind fun a hlow => .pure ?_
    simpa [Operation.operands] using hlow
  | and | or | compare => exact operands_below fed formed hrole _ fun _ _ => rfl
  | arith op type =>
    unfold operator
    dsimp only
    split_ifs
    · exact .seq fun _ => operands_below fed formed hrole _ fun _ _ => rfl
    · exact operands_below fed formed hrole _ fun _ _ => rfl

end

theorem operation_below (formed : plan.src.library.Formed) (w : Walked plan.src plan.bound [] plan.registry)
    (ranked : Ranked plan.src plan.bound [] plan.registry) (hi : plan.registry.operatorOrder[k]? = some i) :
    (plan.operation i).Returns fun operation => ∀ operand ∈ operation.operands, operand.Below k := by
  obtain ⟨op, hop⟩ := (w.metOperators i (Array.mem_of_getElem? hi)).2
  have hrole : (plan.node i).role = .operator op := hop
  unfold operation
  rw [hrole]
  exact operator_below (ranked.operands k i hi) formed hrole

/-- Every operation of a program comes behind its operands. -/
theorem below_of_program (formed : plan.src.library.Formed) (w : Walked plan.src plan.bound [] plan.registry)
    (ranked : Ranked plan.src plan.bound [] plan.registry) {d d' : Draft} {p : Program} (h : plan.program d = .ok (p, d'))
    {operation : Operation} (hoperation : p.expressions.operations[k]? = some operation) :
    ∀ operand ∈ operation.operands, operand.Below k := by
  obtain ⟨entries, d₁, hentries, h⟩ := Emit.bind_eq_ok_iff.mp h
  obtain ⟨operations, d₂, hoperations, h⟩ := Emit.bind_eq_ok_iff.mp h
  obtain ⟨_, _, hget, h⟩ := Emit.bind_eq_ok_iff.mp h
  obtain ⟨rfl, -⟩ := Prod.mk.inj (Except.ok.inj h)
  have hk : operations[k]? = some operation := by simpa using hoperation
  have hbelow (i : Instance) : (plan.operation i).Returns fun operation =>
      ∀ k, plan.registry.operatorOrder[k]? = some i → ∀ operand ∈ operation.operands, operand.Below k :=
    fun d operation d' hrun k hi => operation_below formed w ranked hi d operation d' hrun
  obtain ⟨i, hi, hbelow⟩ := Emit.getElem?_right (Emit.Returns.mapM (fun i _ => hbelow i) _ _ _ hoperations) hk
  exact hbelow k ((Array.getElem?_toList ..).symm.trans hi)

end Plan

namespace Sources

open Registry

variable {src : Sources}

/-- The action has a node in the program. -/
def Registered (src : Sources) (i : Instance) : Prop :=
  ∃ r, Registry.build src = .ok r ∧ i ∈ r.actionOrder

/-- Among the operators that feed registered actions, directly or not, there is one that depends on itself. -/
def Cyclic (src : Sources) : Prop :=
  ∃ i, src.Registered i ∧ ∃ operator, TransGen (DependsOn src.library) i operator ∧
    TransGen (DependsOn src.library) operator operator

theorem cyclic_iff (distinct : CallPath.Distinct src.library src.entry) {r : Registry} (h : Registry.build src = .ok r) :
    src.Cyclic ↔ Circular src := by
  have w := walked_of_build h
  constructor
  · rintro ⟨i, ⟨r', h', hi⟩, operator, hpath, hcircle⟩
    obtain rfl := Except.ok.inj (h'.symm.trans h)
    exact ⟨operator, (w.transGen distinct (w.metActions i hi).1.1 hpath).1, hcircle⟩
  · rintro ⟨operator, met, hcircle⟩
    obtain ⟨i, ⟨hmet, a, hrole⟩, hpath⟩ := exists_action_of_met met
    have hi : i ∈ r.actionOrder := w.mem_actionOrder (w.registered distinct hmet) hrole
    exact ⟨i, ⟨r, h, hi⟩, operator, hcircle.trans_right hpath, hcircle⟩

/-- A compilation that gives a result reports a circle of operators just if there is one below a registered action; and
if there is none, every operation only refers to operations before it. -/
theorem cycles_of_compile (built : src.library.Built) (distinct : CallPath.Distinct src.library src.entry)
    {c : Compilation} (h : src.compile = .ok c) :
    ((∃ site, .expressionCycle site ∈ c.errors) ↔ src.Cyclic) ∧
      (¬src.Cyclic → ∀ (k : Nat) (operation : Operation), c.program.expressions.operations[k]? = some operation →
        ∀ operand ∈ operation.operands, ∀ index slot, operand = .output index slot → index.toNat < k) := by
  obtain ⟨r, hbuild, h⟩ := Refusal.bind_eq_ok_iff.mp h
  obtain ⟨⟨program, draft⟩, hprogram, h⟩ := Refusal.bind_eq_ok_iff.mp h
  obtain rfl := Except.ok.inj h
  have hemission := (Plan.ofRegistry src r).program_not_ofCycle _ _ _ hprogram (by simp [Draft.empty])
  have hreported : (∃ site, .expressionCycle site ∈ (r.errors ++ draft.errors).toList.eraseDups) ↔ r.Reported := by
    simp only [List.mem_eraseDups, Array.mem_toList_iff, Array.mem_append]
    constructor
    · rintro ⟨site, he | he⟩
      · exact ⟨_, he, trivial⟩
      · exact absurd trivial (hemission _ he)
    · rintro ⟨e, he, hcycle⟩
      cases e with
      | expressionCycle site => exact ⟨site, .inl he⟩
      | _ => cases hcycle
  have hcyclic := cyclic_iff distinct hbuild
  refine ⟨hreported.trans ((reported_iff distinct hbuild).trans hcyclic.symm), fun hnone k operation hoperation => ?_⟩
  have s := searching_of_build distinct hbuild
  have ranked := s.ranked fun h => hnone (hcyclic.mpr (s.circular h))
  exact Plan.below_of_program built.formed s.walked ranked hprogram hoperation

def inverter : Graph :=
  .assemble "inverter" [.input [("in", .value .bool)], .output [("out", .value .bool)], .not]
    [((0, "in"), (2, "a")), ((2, "out"), (1, "out"))] []

/-- Two calls of the inverter that feed each other, and a node that waits for one of them. -/
def flipFlop : Graph :=
  .assemble "flip-flop" [.root, .waitUntil, .call 0 inverter, .call 0 inverter]
    [((0, "child"), (1, "in")), ((2, "out"), (1, "condition")), ((3, "out"), (2, "in")), ((2, "out"), (3, "in"))] []

def latch : Sources :=
  ⟨#[inverter, flipFlop], .empty, .empty, 1⟩

theorem latch_built : latch.library.Built := by
  have inverterBuilt : Library.Built #[inverter] := .push .empty (Graph.built_assemble (by simp [NodeSpec.Known]))
  exact .push inverterBuilt (Graph.built_assemble (by simp [NodeSpec.Known]))

theorem latch_distinct : CallPath.Distinct latch.library latch.entry := by
  have hcalls (via : Nat) (callee : GraphId) (h : ((latch.library.graph 1).node via).role = .call callee) :
      (via = 2 ∨ via = 3) ∧ callee = 0 := by
    have hroles : flipFlop.nodes.toList.map (·.role) = [.action .root, .action .waitUntil, .call 0, .call 0] := by cbv
    change (flipFlop.node via).role = _ at h
    rw [Graph.role_node, hroles] at h
    rcases via with - | - | - | - | via <;> simp_all
  have hflat (via : Nat) (callee : GraphId) : ((latch.library.graph 0).node via).role ≠ .call callee := by
    intro h
    have hroles : inverter.nodes.toList.map (·.role) = [.input, .output, .operator .not] := by cbv
    change (inverter.node via).role = _ at h
    rw [Graph.role_node, hroles] at h
    rcases via with - | - | - | via <;> simp_all
  exact distinct_of_two_calls hcalls hflat

/-- The circle through both calls is reported, and nothing of the kind is reported of the crossing. -/
theorem cycles_of_compile_latch : latch.Cyclic ∧ ¬crossings.Cyclic := by
  have hlatch : latch.compile.map (·.errors) = .ok [.expressionCycle ⟨"inverter", "not2"⟩] := by cbv
  obtain ⟨c, hc, herrors⟩ := Refusal.map_eq_ok_iff.mp hlatch
  constructor
  · exact (cycles_of_compile latch_built latch_distinct hc).1.mp ⟨_, by rw [herrors]; exact List.mem_cons_self⟩
  · intro hcyclic
    obtain ⟨site, he⟩ := (cycles_of_compile crossings_built crossings_distinct crossings_compile).1.mpr hcyclic
    cases he

end Sources

end BehaviorTree
