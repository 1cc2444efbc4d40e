import BehaviorTree.Proofs.Compile.Extent
import BehaviorTree.Proofs.Compile.Instancing

/-! The walk of registration, whatever it reports. It meets the first root and what the ports of a met instance lead
to. A new instance pays for the tasks that it brings, so that the walk ends within its fuel as long as it does not
meet too many instances. -/

namespace BehaviorTree

open Relation

/-! ### What is met -/

namespace Spot

variable {library : Library} {entry : GraphId} {spot : Spot}

/-- What a flow port runs at the end of its wire. -/
def EndsFlow (library : Library) : Spot → Option Instance → Prop :=
  Ends fun spot => .ok (spot.flowHop library)

/-- What feeds a value port at the end of its wire. -/
def EndsValue (library : Library) : Spot → Option ValueSource → Prop :=
  Ends (valueHop library)

theorem leaveThrough_ne_some {α : Type} {path : CallPath} {node : Nat} {name : String} {a : α} :
    (leaveThrough library path node name : Hop (Option α) × Trail).1 ≠ .stop (some a) := by
  unfold leaveThrough
  dsimp only
  split <;> simp

theorem enterFlow_ne_some {path : CallPath} {via : Nat} {callee : GraphId} {name : String} {j : Instance} :
    (enterFlow library path via callee name).1 ≠ .stop (some j) := by
  unfold enterFlow
  dsimp only
  split
  · simp
  · split
    · simp
    · split <;> simp

theorem enterValue_ne_operator {path : CallPath} {via : Nat} {callee : GraphId} {name : String} {type : ValueType}
    {j : Instance} : (enterValue library path via callee name type).1 ≠ .stop (some (.operator j)) := by
  unfold enterValue
  dsimp only
  split
  · simp
  · split
    · simp
    · split_ifs <;> simp

/-- Control runs actions. -/
theorem action_of_flowHop {j : Instance} {seen : Trail} (h : spot.flowHop library = (.stop (some j), seen)) :
    j.path = spot.path ∧ ∃ a, (j.graphNode library).role = .action a := by
  unfold flowHop at h
  dsimp only at h
  split at h
  next => simp at h
  next link others _ =>
    obtain ⟨hstop, -⟩ := Prod.mk.inj h
    split at hstop
    next => exact absurd hstop enterFlow_ne_some
    next => exact absurd hstop leaveThrough_ne_some
    next a hrole =>
      obtain rfl := Option.some.inj (Hop.stop.inj hstop)
      exact ⟨rfl, a, hrole⟩
    all_goals simp at hstop

/-- Values come out of operators. -/
theorem operator_of_valueHop {j : Instance} {seen : Trail}
    (h : spot.valueHop library = .ok (.stop (some (.operator j)), seen)) :
    j.path = spot.path ∧ ∃ op, (j.graphNode library).role = .operator op := by
  unfold valueHop at h
  dsimp only at h
  split at h
  next => cases h
  next =>
    split at h
    next => split at h <;> simp at h
    next link others _ =>
      obtain ⟨hstop, -⟩ := Prod.mk.inj (Except.ok.inj h)
      split at hstop
      next op hrole =>
        obtain rfl := ValueSource.operator.inj (Option.some.inj (Hop.stop.inj hstop))
        exact ⟨rfl, op, hrole⟩
      next => exact absurd hstop enterValue_ne_operator
      next => exact absurd hstop leaveThrough_ne_some
      all_goals simp at hstop

theorem EndsFlow.action (valid : spot.path.Valid library entry) {j : Instance} (h : spot.EndsFlow library (some j)) :
    j.path.Valid library entry ∧ ∃ a, (j.graphNode library).role = .action a := by
  obtain ⟨last, seen, hpath, hlast⟩ := h
  obtain ⟨hsame, hrole⟩ := action_of_flowHop (Except.ok.inj hlast)
  exact ⟨hsame ▸ kept_of_path (·.path.Valid library entry) (fun _ _ => PassesFlow.valid) valid hpath, hrole⟩

theorem EndsValue.operator (valid : spot.path.Valid library entry) {j : Instance}
    (h : spot.EndsValue library (some (.operator j))) :
    j.path.Valid library entry ∧ ∃ op, (j.graphNode library).role = .operator op := by
  obtain ⟨last, seen, hpath, hlast⟩ := h
  obtain ⟨hsame, hrole⟩ := operator_of_valueHop hlast
  exact ⟨hsame ▸ kept_of_path (·.path.Valid library entry) (fun _ _ => PassesValue.valid) valid hpath, hrole⟩

end Spot

/-- The port of an instance. -/
abbrev Instance.spot (i : Instance) (port : Nat) : Spot :=
  ⟨i.path, i.node, port⟩

/-- The instances that a compilation meets: the first root, the actions that met actions run, and the operators that
feed met instances. -/
inductive Sources.Met (src : Sources) : Instance → Prop
  | root {root : Nat} {others : List Nat} (h : Registry.roots src = root :: others) :
    Met src ⟨.start src.entry, root⟩
  | action {i j : Instance} (met : Met src i) {a : Action} (hrole : (i.graphNode src.library).role = .action a)
    {port : Nat} (hport : port ∈ (i.graphNode src.library).flowOutputs)
    (h : (i.spot port).EndsFlow src.library (some j)) : Met src j
  | operator {i j : Instance} (met : Met src i) {port : Nat} (hport : port ∈ (i.graphNode src.library).valueInputs)
    (h : (i.spot port).EndsValue src.library (some (.operator j))) : Met src j

/-- The actions among the met instances. -/
def Sources.metActions (src : Sources) : Set Instance :=
  {i | src.Met i ∧ ∃ a, (i.graphNode src.library).role = .action a}

/-- The operators among the met instances. -/
def Sources.metOperators (src : Sources) : Set Instance :=
  {i | src.Met i ∧ ∃ op, (i.graphNode src.library).role = .operator op}

namespace Registry

variable {src : Sources} {bound : Nat} {r r' : Registry} {i : Instance}

theorem within_of_flowOutputs (valid : i.path.Valid src.library src.entry) {port : Nat}
    (hport : port ∈ (i.graphNode src.library).flowOutputs) : (i.spot port).Within src.library src.entry :=
  ⟨valid, (GraphNode.mem_flowOutputs.mp hport).1⟩

theorem within_of_valueInputs (valid : i.path.Valid src.library src.entry) {port : Nat}
    (hport : port ∈ (i.graphNode src.library).valueInputs) : (i.spot port).Within src.library src.entry :=
  ⟨valid, (GraphNode.mem_valueInputs.mp hport).1⟩

/-- A met instance is an action or an operator on a path of calls that are there. -/
theorem valid_of_met (met : src.Met i) : i.path.Valid src.library src.entry ∧
    ((∃ a, (i.graphNode src.library).role = .action a) ∨ ∃ op, (i.graphNode src.library).role = .operator op) := by
  induction met with
  | root h => exact ⟨.start, .inl ⟨_, mem_roots.mp (by rw [h]; exact List.mem_cons_self)⟩⟩
  | action _ _ hport h ih =>
    obtain ⟨valid, hrole⟩ := h.action ih.1
    exact ⟨valid, .inl hrole⟩
  | operator _ hport h ih =>
    obtain ⟨valid, hrole⟩ := h.operator ih.1
    exact ⟨valid, .inr hrole⟩

/-- A met instance is a node that is there. -/
theorem lt_of_met (met : src.Met i) : i.node < (i.graph src.library).nodes.size := by
  have hnode : (i.graphNode src.library).role ≠ .input := by
    rcases (valid_of_met met).2 with ⟨a, ha⟩ | ⟨op, hop⟩ <;> simp [*]
  exact Graph.lt_of_role rfl hnode

/-! ### What stays true -/

/-- What the task is about is met. -/
def TaskMet (src : Sources) : Task → Prop
  | .action i => i ∈ src.metActions
  | .flow spot => ∃ i port, spot = i.spot port ∧ i ∈ src.metActions ∧ port ∈ (i.graphNode src.library).flowOutputs
  | .value spot => ∃ i port, spot = i.spot port ∧ src.Met i ∧ port ∈ (i.graphNode src.library).valueInputs
  | .operator i | .seal i => i ∈ src.metOperators

/-- What the flow port runs is found, or will be. -/
def FlowFound (src : Sources) (bound : Nat) (tasks : List Task) (r : Registry) (spot : Spot) : Prop :=
  .flow spot ∈ tasks ∨ ∃ target trail, src.library.flowTarget bound spot = .ok (target, trail) ∧
    ∀ i, target = some i → ActionKnown tasks r i

/-- What feeds the value port is found, or will be. -/
def ValueFound (src : Sources) (bound : Nat) (tasks : List Task) (r : Registry) (spot : Spot) : Prop :=
  .value spot ∈ tasks ∨ ∃ source trail, src.library.valueSource bound spot = .ok (source, trail) ∧
    ∀ i, source = some (.operator i) → OperatorKnown tasks r i

def sealing? : Task → Option Instance
  | .seal i => some i
  | _ => none

/-- The open operators, innermost first. -/
def sealing (tasks : List Task) : List Instance :=
  tasks.filterMap sealing?

@[simp] theorem mem_sealing : i ∈ sealing tasks ↔ .seal i ∈ tasks := by
  rw [sealing, List.mem_filterMap]
  constructor
  · rintro ⟨task, hmem, htask⟩
    cases task with
    | «seal» j =>
      obtain rfl := Option.some.inj htask
      exact hmem
    | _ => cases htask
  · exact fun hmem => ⟨_, hmem, rfl⟩

theorem sealing_append (first tasks : List Task) : sealing (first ++ tasks) = sealing first ++ sealing tasks :=
  List.filterMap_append

theorem sealing_nil : sealing [] = [] :=
  rfl

theorem sealing_cons (task : Task) (tasks : List Task) :
    sealing (task :: tasks) = (sealing? task).toList ++ sealing tasks := by
  cases task <;> rfl

theorem sealing_flowTasks (i : Instance) (node : GraphNode) : sealing (flowTasks i node) = [] := by
  simp [sealing, flowTasks, sealing?]

theorem sealing_valueTasks (i : Instance) (node : GraphNode) : sealing (valueTasks i node) = [] := by
  simp [sealing, valueTasks, sealing?]

theorem sealing_sourceTasks (source : Option ValueSource) : sealing (sourceTasks source) = [] := by
  rcases source with - | - | - <;> rfl

/-- A state of the walk. -/
structure Walked (src : Sources) (bound : Nat) (tasks : List Task) (r : Registry) : Prop where
  actions : Numbers r.actionNumber r.actionOrder 1
  operators : Numbers r.operatorNumber r.operatorOrder 0
  apart : ((sealing tasks).map Instance.key).Nodup
  inProgress : ∀ key, key ∈ r.inProgress ↔ key ∈ (sealing tasks).map Instance.key
  unsealed : ∀ i ∈ sealing tasks, r.operatorNumber i.key = none
  root : ∀ root others, roots src = root :: others → ActionKnown tasks r ⟨.start src.entry, root⟩
  met : ∀ task ∈ tasks, TaskMet src task
  metActions : ∀ i ∈ r.actionOrder, i ∈ src.metActions ∧ Noted src r (i.graphNode src.library).role
  metOperators : ∀ i ∈ r.operatorOrder, i ∈ src.metOperators
  flows : ∀ i ∈ r.actionOrder, ∀ port ∈ (i.graphNode src.library).flowOutputs,
    FlowFound src bound tasks r (i.spot port)
  values : ∀ i, i ∈ r.actionOrder ∨ i ∈ r.operatorOrder ∨ i ∈ sealing tasks →
    ∀ port ∈ (i.graphNode src.library).valueInputs, ValueFound src bound tasks r (i.spot port)

/-- What a step does to the numbered operators and to the open ones. -/
theorem Taken.operators_cases (h : Taken src bound r r' task first) (tasks : List Task) :
    (sealing (first ++ tasks) = sealing (task :: tasks) ∧ r'.operatorNumber = r.operatorNumber ∧
        r'.operatorOrder = r.operatorOrder ∧ r'.inProgress = r.inProgress) ∨
      (∃ i, task = .operator i ∧ first = valueTasks i (i.graphNode src.library) ++ [.seal i] ∧
        sealing (first ++ tasks) = i :: sealing (task :: tasks) ∧
        r.operatorNumber i.key = none ∧ i.key ∉ r.inProgress ∧ r'.operatorNumber = r.operatorNumber ∧
        r'.operatorOrder = r.operatorOrder ∧ r'.inProgress = r.inProgress.insert i.key) ∨
      ∃ i, task = .seal i ∧ sealing (task :: tasks) = i :: sealing (first ++ tasks) ∧
        r.operatorOrder.size < maxIndex ∧ r' = r.sealed i := by
  cases h with
  | @action i hnew hroom keeps noted =>
    refine .inl ⟨?_, keeps.operatorNumber, keeps.operatorOrder, keeps.inProgress⟩
    rw [sealing_append, sealing_append, sealing_flowTasks, sealing_valueTasks]
    rfl
  | @operator i hnew hclosed keeps =>
    refine .inr (.inl ⟨i, rfl, rfl, ?_, hnew, hclosed, keeps.operatorNumber, keeps.operatorOrder, keeps.inProgress⟩)
    rw [sealing_append, sealing_append, sealing_valueTasks]
    rfl
  | @finish i hroom h => exact .inr (.inr ⟨i, rfl, rfl, hroom, h⟩)
  | @value spot source trail _ keeps =>
    refine .inl ⟨?_, keeps.operatorNumber, keeps.operatorOrder, keeps.inProgress⟩
    rw [sealing_append, sealing_sourceTasks]
    rfl
  | @flow spot target trail _ keeps =>
    refine .inl ⟨?_, keeps.operatorNumber, keeps.operatorOrder, keeps.inProgress⟩
    cases target <;> rfl
  | actionAgain _ keeps | operatorAgain _ keeps | operatorOpen _ keeps =>
    exact .inl ⟨rfl, keeps.operatorNumber, keeps.operatorOrder, keeps.inProgress⟩

/-- An instance that a step registers or opens has its values looked at next. -/
theorem Taken.values_or (h : Taken src bound r r' task first)
    (hi : i ∈ r'.actionOrder ∨ i ∈ r'.operatorOrder ∨ i ∈ sealing (first ++ tasks)) :
    (i ∈ r.actionOrder ∨ i ∈ r.operatorOrder ∨ i ∈ sealing (task :: tasks)) ∨
      ∀ port ∈ (i.graphNode src.library).valueInputs, .value (i.spot port) ∈ first := by
  rcases hi with hi | hi
  · rcases h.actions_or hi with hmem | rfl
    · exact .inl (.inl hmem)
    · exact .inr fun port hport => List.mem_append_right _ (mem_valueTasks hport)
  · rcases h.operators_cases tasks with ⟨hsealing, -, horder, -⟩ | ⟨j, -, rfl, hsealing, -, -, -, horder, -⟩ |
      ⟨j, rfl, hsealing, -, rfl⟩
    · exact .inl (.inr (by rwa [hsealing, horder] at hi))
    · rw [hsealing, horder, List.mem_cons] at hi
      rcases hi with hmem | rfl | hmem
      · exact .inl (.inr (.inl hmem))
      · exact .inr fun port hport => List.mem_append_left _ (mem_valueTasks hport)
      · exact .inl (.inr (.inr hmem))
    · rcases hi with hi | hmem
      · rcases Array.mem_push.mp hi with hmem | rfl
        · exact .inl (.inr (.inl hmem))
        · exact .inl (.inr (.inr (by simp)))
      · exact .inl (.inr (.inr (by rw [hsealing]; exact List.mem_cons_of_mem _ hmem)))

/-- Tasks about met instances lead to tasks about met instances. -/
theorem Taken.met (h : Taken src bound r r' task first) (met : TaskMet src task) : ∀ next ∈ first, TaskMet src next := by
  cases h with
  | actionAgain | operatorAgain | operatorOpen | finish => simp
  | @action i =>
    intro next hnext
    rcases List.mem_append.mp hnext with hnext | hnext
    · obtain ⟨port, hport, rfl⟩ := List.mem_map.mp hnext
      exact ⟨i, port, rfl, met, hport⟩
    · obtain ⟨port, hport, rfl⟩ := List.mem_map.mp hnext
      exact ⟨i, port, rfl, met.1, hport⟩
  | @flow spot target trail hflow =>
    obtain ⟨i, port, rfl, ⟨met, a, hrole⟩, hport⟩ := met
    intro next hnext
    obtain ⟨j, hj, rfl⟩ := List.mem_map.mp hnext
    obtain rfl := Option.mem_toList.mp hj
    have ends : (i.spot port).EndsFlow src.library (some j) := Spot.ends_of_follow hflow
    exact ⟨.action met hrole hport ends, (ends.action (valid_of_met met).1).2⟩
  | @value spot source trail hvalue =>
    obtain ⟨i, port, rfl, met, hport⟩ := met
    intro next hnext
    obtain ⟨j, rfl, rfl⟩ := mem_sourceTasks.mp hnext
    have ends : (i.spot port).EndsValue src.library (some (.operator j)) := Spot.ends_of_follow hvalue
    exact ⟨.operator met hport ends, (ends.operator (valid_of_met met).1).2⟩
  | @operator i =>
    intro next hnext
    rcases List.mem_append.mp hnext with hnext | hnext
    · obtain ⟨port, hport, rfl⟩ := List.mem_map.mp hnext
      exact ⟨i, port, rfl, met.1, hport⟩
    · rw [List.mem_singleton.mp hnext]
      exact met

/-- A step keeps that an operator is known, if one that is met again stays open. -/
theorem Taken.operatorKnown (h : Taken src bound r r' task first)
    (hopen : ∀ i, task = .operator i → i.key ∈ r.inProgress → i.key ∈ (sealing tasks).map Instance.key)
    (known : OperatorKnown (task :: tasks) r i) : OperatorKnown (first ++ tasks) r' i := by
  have hnumber {key : InstanceKey} (hn : ∃ n, r.operatorNumber key = some n) :
      ∃ n, r'.operatorNumber key = some n := by
    rcases h.operators_cases tasks with ⟨-, hsame, -⟩ | ⟨j, -, -, -, -, -, hsame, -⟩ | ⟨j, -, -, hroom, rfl⟩
    · rwa [hsame]
    · rwa [hsame]
    · rw [operatorNumber_sealed hroom]
      split_ifs
      · exact ⟨_, rfl⟩
      · exact hn
  rcases known with hmem | ⟨j, hmem, hkey⟩ | hn
  · rcases List.mem_cons.mp hmem with rfl | hmem
    · cases h with
      | operatorAgain hknown keeps => exact .inr (.inr (hnumber ⟨_, hknown⟩))
      | operatorOpen hmem keeps =>
        obtain ⟨j, hj, hkey⟩ := List.mem_map.mp (hopen i rfl hmem)
        exact .inr (.inl ⟨j, by simpa using hj, hkey⟩)
      | operator hnew hclosed keeps => exact .inr (.inl ⟨i, by simp, rfl⟩)
    · exact .inl (List.mem_append_right first hmem)
  · rcases List.mem_cons.mp hmem with rfl | hmem
    · cases h with
      | finish hroom h => exact .inr (.inr ⟨_, by rw [h, operatorNumber_sealed hroom, if_pos hkey]⟩)
    · exact .inr (.inl ⟨j, List.mem_append_right first hmem, hkey⟩)
  · exact .inr (.inr (hnumber hn))

theorem ValueFound.step {spot : Spot} (found : ValueFound src bound (task :: tasks) r spot)
    (h : Taken src bound r r' task first)
    (hopen : ∀ i, task = .operator i → i.key ∈ r.inProgress → i.key ∈ (sealing tasks).map Instance.key) :
    ValueFound src bound (first ++ tasks) r' spot := by
  rcases found with hmem | ⟨source, trail, hvalue, known⟩
  · rcases List.mem_cons.mp hmem with rfl | hmem
    · cases h with
      | @value _ source trail hvalue keeps =>
        refine .inr ⟨source, trail, hvalue, ?_⟩
        rintro i rfl
        exact .inl (by simp [sourceTasks])
    · exact .inl (List.mem_append_right first hmem)
  · exact .inr ⟨source, trail, hvalue, fun i hi => h.operatorKnown hopen (known i hi)⟩

namespace Walked

/-- An operator that is met among its own operands is to be sealed. -/
theorem mem_sealing_of_open (w : Walked src bound (task :: tasks) r) (i : Instance) (htask : task = .operator i)
    (hopen : i.key ∈ r.inProgress) : i.key ∈ (sealing tasks).map Instance.key := by
  subst htask
  exact (w.inProgress i.key).mp hopen

variable (w : Walked src bound (task :: tasks) r) (h : Taken src bound r r' task first)

include w h

theorem flowFound {spot : Spot} (found : FlowFound src bound (task :: tasks) r spot) :
    FlowFound src bound (first ++ tasks) r' spot := by
  rcases found with hmem | ⟨target, trail, hflow, known⟩
  · rcases List.mem_cons.mp hmem with rfl | hmem
    · cases h with
      | @flow _ target trail hflow keeps =>
        refine .inr ⟨target, trail, hflow, ?_⟩
        rintro i rfl
        exact .inl (by simp)
    · exact .inl (List.mem_append_right first hmem)
  · exact .inr ⟨target, trail, hflow, fun i hi => h.actionKnown (known i hi)⟩

theorem valueFound {spot : Spot} (found : ValueFound src bound (task :: tasks) r spot) :
    ValueFound src bound (first ++ tasks) r' spot :=
  found.step h w.mem_sealing_of_open

theorem step_apart : ((sealing (first ++ tasks)).map Instance.key).Nodup := by
  have hold := w.apart
  rcases h.operators_cases tasks with ⟨hsealing, -⟩ | ⟨i, -, -, hsealing, -, hclosed, -⟩ | ⟨i, -, hsealing, -⟩
  · rwa [hsealing]
  · rw [hsealing, List.map_cons, List.nodup_cons]
    exact ⟨fun hmem => hclosed ((w.inProgress _).mpr hmem), hold⟩
  · rw [hsealing, List.map_cons, List.nodup_cons] at hold
    exact hold.2

theorem step_inProgress : ∀ key, key ∈ r'.inProgress ↔ key ∈ (sealing (first ++ tasks)).map Instance.key := by
  intro key
  have hold := w.inProgress key
  rcases h.operators_cases tasks with ⟨hsealing, -, -, hopen⟩ | ⟨i, -, -, hsealing, -, -, -, -, hopen⟩ |
    ⟨i, -, hsealing, -, rfl⟩
  · rw [hopen, hsealing, hold]
  · rw [hopen, hsealing, Std.HashSet.mem_insert, List.map_cons, List.mem_cons, hold, beq_iff_eq, eq_comm]
  · have hapart := w.apart
    rw [hsealing, List.map_cons, List.nodup_cons] at hapart
    rw [hsealing, List.map_cons, List.mem_cons] at hold
    rw [sealed, Std.HashSet.mem_erase, hold, beq_eq_false_iff_ne]
    constructor
    · rintro ⟨hne, rfl | hmem⟩
      · exact absurd rfl hne
      · exact hmem
    · intro hmem
      exact ⟨fun hsame => hapart.1 (hsame ▸ hmem), .inr hmem⟩

theorem step_unsealed : ∀ i ∈ sealing (first ++ tasks), r'.operatorNumber i.key = none := by
  intro i hi
  rcases h.operators_cases tasks with ⟨hsealing, hnumber, -⟩ | ⟨j, -, -, hsealing, hnew, -, hnumber, -⟩ |
    ⟨j, -, hsealing, hroom, rfl⟩
  · rw [hnumber]
    exact w.unsealed i (hsealing ▸ hi)
  · rw [hnumber]
    rcases List.mem_cons.mp (hsealing ▸ hi) with rfl | hmem
    · exact hnew
    · exact w.unsealed i hmem
  · have hapart := w.apart
    rw [hsealing, List.map_cons, List.nodup_cons] at hapart
    rw [operatorNumber_sealed hroom, if_neg]
    · exact w.unsealed i (by rw [hsealing]; exact List.mem_cons_of_mem _ hi)
    · exact fun hsame => hapart.1 (hsame ▸ List.mem_map_of_mem hi)

theorem step_met : ∀ next ∈ first ++ tasks, TaskMet src next := by
  intro next hnext
  rcases List.mem_append.mp hnext with hnext | hnext
  · exact h.met (w.met task (by simp)) next hnext
  · exact w.met next (List.mem_cons_of_mem _ hnext)

theorem step_metActions : ∀ i ∈ r'.actionOrder, i ∈ src.metActions ∧ Noted src r' (i.graphNode src.library).role := by
  intro i hi
  have hold (hmem : i ∈ r.actionOrder) : i ∈ src.metActions ∧ Noted src r' (i.graphNode src.library).role :=
    ⟨(w.metActions i hmem).1, h.noted_mono (w.metActions i hmem).2⟩
  rcases h.actions_cases with ⟨-, horder⟩ | ⟨j, rfl, -, -, -, horder, noted⟩
  · exact hold (horder ▸ hi)
  · rw [horder] at hi
    rcases Array.mem_push.mp hi with hmem | rfl
    · exact hold hmem
    · have met : i ∈ src.metActions := w.met (.action i) (by simp)
      obtain ⟨a, ha⟩ := met.2
      exact ⟨met, ha ▸ noted a ha⟩

theorem step_metOperators : ∀ i ∈ r'.operatorOrder, i ∈ src.metOperators := by
  intro i hi
  rcases h.operators_cases tasks with ⟨-, -, horder, -⟩ | ⟨j, -, -, -, -, -, -, horder, -⟩ | ⟨j, rfl, -, -, rfl⟩
  · exact w.metOperators i (horder ▸ hi)
  · exact w.metOperators i (horder ▸ hi)
  · rcases Array.mem_push.mp hi with hmem | rfl
    · exact w.metOperators i hmem
    · exact w.met (.seal i) (by simp)

theorem step_flows : ∀ i ∈ r'.actionOrder, ∀ port ∈ (i.graphNode src.library).flowOutputs,
    FlowFound src bound (first ++ tasks) r' (i.spot port) := by
  intro i hi port hport
  rcases h.actions_or hi with hmem | rfl
  · exact w.flowFound h (w.flows i hmem port hport)
  · exact .inl (List.mem_append_left _ (List.mem_append_left _ (mem_flowTasks hport)))

theorem step_values : ∀ i, i ∈ r'.actionOrder ∨ i ∈ r'.operatorOrder ∨ i ∈ sealing (first ++ tasks) →
    ∀ port ∈ (i.graphNode src.library).valueInputs, ValueFound src bound (first ++ tasks) r' (i.spot port) := by
  intro i hi port hport
  rcases h.values_or hi with hmem | hnext
  · exact w.valueFound h (w.values i hmem port hport)
  · exact .inl (List.mem_append_left _ (hnext port hport))

theorem step : Walked src bound (first ++ tasks) r' where
  actions := h.numbers_actions w.actions
  operators := h.numbers_operators w.operators fun i hi => w.unsealed i (by simp [hi])
  apart := w.step_apart h
  inProgress := w.step_inProgress h
  unsealed := w.step_unsealed h
  root := fun root others hroots => h.actionKnown (w.root root others hroots)
  met := w.step_met h
  metActions := w.step_metActions h
  metOperators := w.step_metOperators h
  flows := w.step_flows h
  values := w.step_values h

end Walked

/-! ### How long the walk is -/

/-- Instances of different keys are not more than there are. -/
theorem length_le_of_encard {s : Set Instance} {limit : Nat} (h : s.encard ≤ limit) {instances : List Instance}
    (hmem : ∀ i ∈ instances, i ∈ s) (nodup : (instances.map Instance.key).Nodup) : instances.length ≤ limit := by
  have hcard : (instances.toFinset : Set Instance).encard ≤ s.encard :=
    Set.encard_le_encard fun i hi => hmem i (by simpa using hi)
  rw [Set.encard_coe_eq_coe_finsetCard, List.toFinset_card_of_nodup (.of_map _ nodup)] at hcard
  exact_mod_cast hcard.trans h

theorem Numbers.nodup {number : InstanceKey → Option Nat} {order : Array Instance} {n : Nat}
    (numbers : Numbers number order n) : (order.toList.map Instance.key).Nodup := by
  rw [List.nodup_iff_getElem?_ne_getElem?]
  intro k k' hlt hlt' hsame
  rw [List.length_map, Array.length_toList] at hlt'
  rw [List.getElem?_map, List.getElem?_map, Array.getElem?_toList, Array.getElem?_toList,
    Array.getElem?_eq_getElem (hlt.trans hlt'), Array.getElem?_eq_getElem hlt'] at hsame
  have := numbers.inj (Array.getElem?_eq_getElem _) (Array.getElem?_eq_getElem _) (Option.some.inj hsame)
  omega

theorem Walked.actions_le (w : Walked src bound tasks r) {limit : Nat} (h : src.metActions.encard ≤ limit) :
    r.actionOrder.size ≤ limit := by
  rw [← Array.length_toList]
  exact length_le_of_encard h (fun i hi => (w.metActions i (Array.mem_toList_iff.mp hi)).1) w.actions.nodup

/-- Open operators and numbered ones are different. -/
theorem Walked.operators_le (w : Walked src bound tasks r) {limit : Nat} (h : src.metOperators.encard ≤ limit) :
    r.operatorOrder.size + (sealing tasks).length ≤ limit := by
  rw [← Array.length_toList, ← List.length_append]
  refine length_le_of_encard h ?_ ?_
  · intro i hi
    rcases List.mem_append.mp hi with hi | hi
    · exact w.metOperators i (Array.mem_toList_iff.mp hi)
    · exact w.met _ (mem_sealing.mp hi)
  · rw [List.map_append]
    refine List.Nodup.append w.operators.nodup w.apart ?_
    intro key hkey hopen
    obtain ⟨i, hi, rfl⟩ := List.mem_map.mp hkey
    obtain ⟨j, hj, hsame⟩ := List.mem_map.mp hopen
    obtain ⟨k, hk⟩ := Array.mem_iff_getElem?.mp (Array.mem_toList_iff.mp hi)
    have hnumber := (w.operators i.key (0 + k)).mpr ⟨k, i, hk, rfl, rfl⟩
    rw [← hsame, w.unsealed j hj] at hnumber
    cases hnumber

/-- A task, and the one that it brings along a wire. -/
def weight : Task → Nat
  | .flow _ | .value _ => 2
  | _ => 1

/-- The tasks that are to do, and those that new instances may bring. -/
def effort (src : Sources) (tasks : List Task) (r : Registry) : Nat :=
  (tasks.map weight).sum + (maxIndex - r.actionOrder.size) * (2 * src.maxPorts) +
    (maxIndex - (r.operatorOrder.size + (sealing tasks).length)) * (2 * src.maxPorts + 1)

/-- The fuel of the walk is enough for a task of weight one. -/
theorem effort_le_taskBound (src : Sources) (task : Task) (r : Registry) (h : weight task = 1) :
    effort src [task] r ≤ taskBound src := by
  have hactions := Nat.mul_le_mul_right (2 * src.maxPorts) (Nat.sub_le maxIndex r.actionOrder.size)
  have hoperators := Nat.mul_le_mul_right (2 * src.maxPorts + 1)
    (Nat.sub_le maxIndex (r.operatorOrder.size + (sealing [task]).length))
  simp only [effort, taskBound, List.map_cons, List.map_nil, List.sum_cons, List.sum_nil, h]
  simp only [maxIndex] at hactions hoperators ⊢
  omega

theorem le_foldl {α : Type} {f : Nat → α → Nat} (hgrows : ∀ n a, n ≤ f n a) (items : List α) (n : Nat) :
    n ≤ items.foldl f n := by
  induction items generalizing n with
  | nil => exact Nat.le_refl n
  | cons a items ih => exact (hgrows n a).trans (ih _)

theorem le_foldl_of_mem {α : Type} {f : Nat → α → Nat} (hgrows : ∀ n a, n ≤ f n a) {items : List α} {a : α}
    (ha : a ∈ items) {m : Nat} (hm : ∀ n, m ≤ f n a) (n : Nat) : m ≤ items.foldl f n := by
  induction items generalizing n with
  | nil => cases ha
  | cons b items ih =>
    rcases List.mem_cons.mp ha with rfl | ha
    · exact (hm n).trans (le_foldl hgrows items _)
    · exact ih ha _

theorem size_ports_le_of_mem {graph : Graph} (hgraph : graph ∈ src.library) {node : GraphNode}
    (hnode : node ∈ graph.nodes) : node.ports.size ≤ src.maxPorts := by
  have hmax (n : Nat) (node : GraphNode) : n ≤ max n node.ports.size := Nat.le_max_left ..
  rw [Sources.maxPorts, ← Array.foldl_toList]
  refine le_foldl_of_mem (fun n graph => ?_) (Array.mem_toList_iff.mpr hgraph) (fun n => ?_) 0
  · rw [← Array.foldl_toList]
    exact le_foldl hmax _ n
  · rw [← Array.foldl_toList]
    exact le_foldl_of_mem hmax (Array.mem_toList_iff.mpr hnode) (fun n => Nat.le_max_right ..) n

theorem size_ports_le (src : Sources) (i : Instance) : (i.graphNode src.library).ports.size ≤ src.maxPorts := by
  rw [Instance.graphNode, Graph.node, Array.getD_eq_getD_getElem?]
  cases hnode : (i.graph src.library).nodes[i.node]? with
  | none => exact Nat.zero_le _
  | some node => exact size_ports_le_of_mem (Library.mem_graph hnode) (Array.mem_of_getElem? hnode)

theorem maxPorts_le {most : Nat}
    (h : ∀ id index, ((src.library.graph id).node index).ports.size ≤ most) : src.maxPorts ≤ most := by
  refine Array.foldl_induction (fun _ n => n ≤ most) (Nat.zero_le most) fun id n hn => ?_
  refine Array.foldl_induction (fun _ n => n ≤ most) hn fun index n hn => Nat.max_le.mpr ⟨hn, ?_⟩
  simpa [Library.graph, Graph.node] using h id index

/-- No port is both a flow output and a value input. -/
theorem length_ports_le (node : GraphNode) :
    node.flowOutputs.length + node.valueInputs.length ≤ node.ports.size := by
  have hsublist : ∀ port ∈ node.flowOutputs ++ node.valueInputs, port ∈ List.range node.ports.size := by
    intro port hport
    rcases List.mem_append.mp hport with hport | hport
    · exact List.mem_range.mpr (GraphNode.mem_flowOutputs.mp hport).1
    · exact List.mem_range.mpr (GraphNode.mem_valueInputs.mp hport).1
  have hnodup : (node.flowOutputs ++ node.valueInputs).Nodup := by
    refine List.Nodup.append (List.nodup_range.filter _) (List.nodup_range.filter _) ?_
    intro port hflow hvalue
    obtain ⟨-, -, type, hkind⟩ := GraphNode.mem_valueInputs.mp hvalue
    cases (GraphNode.mem_flowOutputs.mp hflow).2.2.symm.trans hkind
  simpa using (hnodup.subperm hsublist).length_le

theorem weight_valueTasks (i : Instance) (node : GraphNode) :
    ((valueTasks i node).map weight).sum = 2 * node.valueInputs.length := by
  simp [valueTasks, Function.comp_def, weight, Nat.mul_comm]

theorem weight_flowTasks (i : Instance) (node : GraphNode) :
    ((flowTasks i node).map weight).sum = 2 * node.flowOutputs.length := by
  simp [flowTasks, Function.comp_def, weight, Nat.mul_comm]

/-- The next of `limit` instances takes its share of what is left. -/
theorem share_eq {n limit : Nat} (h : n < limit) (share : Nat) :
    (limit - n) * share = (limit - (n + 1)) * share + share := by
  rw [← Nat.succ_mul]
  congr 1
  omega

/-- A step takes effort. A new instance pays for the tasks that it brings. -/
theorem Taken.effort_lt (h : Taken src bound r r' task first)
    (hroom : r'.operatorOrder.size + (sealing (first ++ tasks)).length ≤ maxIndex) :
    effort src (first ++ tasks) r' < effort src (task :: tasks) r := by
  have hports (i : Instance) := (length_ports_le (i.graphNode src.library)).trans (size_ports_le src i)
  unfold effort
  rw [List.map_append, List.sum_append, List.map_cons, List.sum_cons, sealing_append, sealing_cons]
  rw [sealing_append] at hroom
  cases h with
  | actionAgain _ keeps | operatorAgain _ keeps | operatorOpen _ keeps =>
    rw [keeps.actionOrder, keeps.operatorOrder]
    simp [weight, sealing, sealing?]
  | @action i hnew hspace keeps =>
    rw [sealing_append, sealing_flowTasks, sealing_valueTasks, keeps.actionOrder, keeps.operatorOrder, numbered,
      Array.size_push, share_eq hspace, List.map_append, List.sum_append, weight_flowTasks, weight_valueTasks]
    have := hports i
    simp only [weight, sealing?, Option.toList_none, List.nil_append]
    omega
  | @flow spot target _ _ keeps =>
    rw [keeps.actionOrder, keeps.operatorOrder]
    cases target <;> simp [weight, sealing_cons, sealing_nil, sealing?]
  | @value spot source _ _ keeps =>
    rw [keeps.actionOrder, keeps.operatorOrder, sealing_sourceTasks]
    rcases source with - | - | - <;> simp [weight, sealing?, sourceTasks]
  | @operator i hnew hclosed keeps =>
    rw [sealing_append, sealing_valueTasks, sealing_cons, keeps.operatorOrder] at hroom ⊢
    have hspace : r.operatorOrder.size + (sealing tasks).length < maxIndex := by
      simp only [opened, sealing?, Option.toList_some, sealing_nil, List.nil_append, List.cons_append,
        List.length_cons] at hroom
      omega
    rw [keeps.actionOrder, List.map_append, List.sum_append, weight_valueTasks]
    have := hports i
    simp only [opened, weight, sealing?, sealing_nil, Option.toList_some, Option.toList_none, List.nil_append,
      List.cons_append, List.length_cons, List.map_cons, List.map_nil, List.sum_cons, List.sum_nil,
      share_eq hspace, ← Nat.add_assoc]
    omega
  | @finish i hspace h =>
    subst h
    simp only [sealed, Array.size_push, weight, sealing?, sealing_nil, Option.toList_some, List.cons_append,
      List.nil_append, List.length_cons, List.map_nil, List.sum_nil, Nat.add_right_comm _ 1, ← Nat.add_assoc]
    omega

/-! ### The whole walk -/

/-- Before anything is registered there is the first root to do, if there is one. -/
theorem walked_start (src : Sources) (bound : Nat) (errors : Array CompileError) :
    Walked src bound ((roots src).head?.toList.map fun root => .action ⟨.start src.entry, root⟩)
      { start src.entry with errors := errors } := by
  have hnone {number : InstanceKey → Option Nat} (h : ∀ key, number key = none) (first : Nat) :
      Numbers number #[] first := by
    intro key n
    simp [h]
  have hsealing : sealing ((roots src).head?.toList.map fun root => .action ⟨.start src.entry, root⟩) = [] := by
    cases (roots src).head? <;> rfl
  refine ⟨hnone (by simp [actionNumber, start]) 1, hnone (by simp [operatorNumber, start]) 0, ?_, ?_, ?_, ?_, ?_, ?_, ?_,
    ?_, ?_⟩
  · simp [hsealing]
  · simp [hsealing, start]
  · simp [hsealing]
  · intro root others h
    exact .inl (by simp [h])
  · intro task htask
    obtain ⟨root, hroot, rfl⟩ := List.mem_map.mp htask
    obtain ⟨others, hroots⟩ := List.head?_eq_some_iff.mp (Option.mem_toList.mp hroot)
    exact ⟨.root hroots, _, mem_roots.mp (by rw [hroots]; exact List.mem_cons_self)⟩
  · simp [start]
  · simp [start]
  · simp [start]
  · simp [start, hsealing]

theorem addErrors_eq (r : Registry) (others : List Nat) (e : Nat → CompileError) :
    ∃ errors, others.foldl (fun r extra => r.addError (e extra)) r = { r with errors := errors } := by
  induction others generalizing r with
  | nil => exact ⟨r.errors, rfl⟩
  | cons extra others ih => exact ih (r.addError (e extra))

/-- Whatever is wrong with the graphs, registration that gives a result has gone all the way. -/
theorem walked_of_build (h : build src = .ok r) : Walked src (src.library.wireBound src.entry) [] r := by
  unfold build at h
  dsimp only at h
  split at h
  next hroots =>
    have w := walked_start src (src.library.wireBound src.entry)
      #[.missingRoot (src.library.graph src.entry).name]
    rw [hroots] at w
    exact Except.ok.inj h ▸ w
  next root others hroots =>
    obtain ⟨errors, herrors⟩ := addErrors_eq (start src.entry) others fun extra =>
      .duplicateRoot ((src.library.graph src.entry).location extra)
    have w := walked_start src (src.library.wireBound src.entry) errors
    rw [hroots] at w
    rw [herrors] at h
    exact walk_invariant (Walked src _) (fun _ _ _ _ _ w taken => w.step taken) h w

section

variable (built : src.library.Built) (acyclic : src.library.Acyclic src.entry)
  (hactions : src.metActions.encard ≤ 65534) (hoperators : src.metOperators.encard ≤ 65534)

include built acyclic hactions hoperators

/-- A task is only refused if a value comes through a flow port. -/
theorem step_total (w : Walked src (src.library.wireBound src.entry) (task :: tasks) r) :
    (∃ first r', r.step src (src.library.wireBound src.entry) task = .ok (first, r')) ∨
      ∃ name i port, r.step src (src.library.wireBound src.entry) task = .error (.flowAsValue name) ∧ src.Met i ∧
        port ∈ (i.graphNode src.library).valueInputs ∧ (i.spot port).MeetsFlow src.library := by
  have met := w.met task (by simp)
  cases task with
  | action i =>
    have hroom : r.actionOrder.size ≤ 65534 := w.actions_le hactions
    left
    simp only [step, registerAction]
    split_ifs with hknown hfull
    · exact ⟨_, _, rfl⟩
    · unfold maxIndex at hfull
      omega
    · exact ⟨_, _, rfl⟩
  | flow spot =>
    obtain ⟨i, port, rfl, ⟨met, -⟩, hport⟩ := met
    obtain ⟨target, trail, hflow⟩ :=
      Library.flowTarget_total built acyclic (within_of_flowOutputs (valid_of_met met).1 hport)
    exact .inl ⟨_, _, step_flow hflow⟩
  | value spot =>
    obtain ⟨i, port, rfl, met, hport⟩ := met
    rcases Library.valueSource_total built acyclic (within_of_valueInputs (valid_of_met met).1 hport) with
      ⟨source, trail, hvalue⟩ | ⟨name, hvalue, meets⟩
    · exact .inl ⟨_, _, step_value hvalue⟩
    · refine .inr ⟨name, i, port, ?_, met, hport, meets⟩
      rw [step, hvalue]
      rfl
  | operator i => exact .inl ⟨_, _, rfl⟩
  | «seal» i =>
    have hroom : r.operatorOrder.size + (sealing (.seal i :: tasks)).length ≤ 65534 := w.operators_le hoperators
    rw [sealing_cons] at hroom
    simp only [sealing?, Option.toList_some, List.cons_append, List.length_cons] at hroom
    left
    simp only [step, sealOperator]
    rw [if_neg (by unfold maxIndex; omega)]
    exact ⟨_, _, rfl⟩

/-- The walk ends within its fuel, unless a value comes through a flow port. -/
theorem walk_total (w : Walked src (src.library.wireBound src.entry) tasks r) {fuel : Nat}
    (hfuel : effort src tasks r ≤ fuel) :
    (∃ r', walk src (src.library.wireBound src.entry) fuel tasks r = .ok r') ∨
      ∃ name i port, walk src (src.library.wireBound src.entry) fuel tasks r = .error (.flowAsValue name) ∧
        src.Met i ∧ port ∈ (i.graphNode src.library).valueInputs ∧ (i.spot port).MeetsFlow src.library := by
  induction fuel generalizing tasks r with
  | zero =>
    cases tasks with
    | nil => exact .inl ⟨r, rfl⟩
    | cons task tasks =>
      have hweight : 0 < weight task := by cases task <;> simp [weight]
      simp only [effort, List.map_cons, List.sum_cons] at hfuel
      omega
  | succ fuel ih =>
    cases tasks with
    | nil => exact .inl ⟨r, rfl⟩
    | cons task tasks =>
      rw [walk]
      rcases step_total built acyclic hactions hoperators w with
        ⟨first, r', hstep⟩ | ⟨name, i, port, hstep, hmet⟩
      · rw [hstep]
        have taken := step_taken hstep
        have w' := w.step taken
        have hroom : r'.operatorOrder.size + (sealing (first ++ tasks)).length ≤ maxIndex :=
          (w'.operators_le hoperators).trans (by decide)
        have hless := taken.effort_lt hroom
        exact ih w' (by omega)
      · rw [hstep]
        exact .inr ⟨name, i, port, rfl, hmet⟩

theorem build_total :
    (∃ r, build src = .ok r) ∨
      ∃ name i port, build src = .error (.flowAsValue name) ∧ src.Met i ∧
        port ∈ (i.graphNode src.library).valueInputs ∧ (i.spot port).MeetsFlow src.library := by
  unfold build
  dsimp only
  split
  next => exact .inl ⟨_, rfl⟩
  next root others hroots =>
    obtain ⟨errors, herrors⟩ := addErrors_eq (start src.entry) others fun extra =>
      .duplicateRoot ((src.library.graph src.entry).location extra)
    have w := walked_start src (src.library.wireBound src.entry) errors
    rw [hroots] at w
    rw [herrors]
    refine walk_total built acyclic hactions hoperators w ?_
    exact effort_le_taskBound src (.action ⟨.start src.entry, root⟩) _ rfl

end

/-- An action is registered as an action. -/
theorem Walked.mem_actionOrder (w : Walked src bound tasks r) (hi : i ∈ r.actionOrder ∨ i ∈ r.operatorOrder)
    {a : Action} (hrole : (i.graphNode src.library).role = .action a) : i ∈ r.actionOrder := by
  refine hi.resolve_right fun hmem => ?_
  obtain ⟨op, hop⟩ := (w.metOperators i hmem).2
  cases hrole.symm.trans hop

/-- Every met instance is registered, unless two of one key hide each other. -/
theorem Walked.registered (w : Walked src bound [] r) (distinct : CallPath.Distinct src.library src.entry)
    (met : src.Met i) : i ∈ r.actionOrder ∨ i ∈ r.operatorOrder := by
  have haction {j : Instance} (met : src.Met j) (known : ActionKnown [] r j) : j ∈ r.actionOrder := by
    obtain ⟨n, hn⟩ := known.resolve_left List.not_mem_nil
    obtain ⟨k, other, hother, hkey, -⟩ := (w.actions _ _).mp hn
    have hmem := Array.mem_of_getElem? hother
    have hvalid := (valid_of_met (w.metActions other hmem).1.1).1
    rwa [Instance.eq_of_key distinct hvalid (valid_of_met met).1 hkey] at hmem
  have hoperator {j : Instance} (met : src.Met j) (known : OperatorKnown [] r j) : j ∈ r.operatorOrder := by
    rcases known with hmem | ⟨_, hmem, -⟩ | ⟨n, hn⟩
    · cases hmem
    · cases hmem
    · obtain ⟨k, other, hother, hkey, -⟩ := (w.operators _ _).mp hn
      have hmem := Array.mem_of_getElem? hother
      have hvalid := (valid_of_met (w.metOperators other hmem).1).1
      rwa [Instance.eq_of_key distinct hvalid (valid_of_met met).1 hkey] at hmem
  induction met with
  | root h => exact .inl (haction (.root h) (w.root _ _ h))
  | @action i j met a hrole port hport h ih =>
    rcases w.flows i (w.mem_actionOrder ih hrole) port hport with hmem | ⟨target, trail, hflow, known⟩
    · cases hmem
    · exact .inl (haction (.action met hrole hport h) (known j ((Spot.ends_of_follow hflow).unique h)))
  | @operator i j met port hport h ih =>
    rcases w.values i (ih.imp_right .inl) port hport with hmem | ⟨source, trail, hvalue, known⟩
    · cases hmem
    · exact .inr (hoperator (.operator met hport h) (known j ((Spot.ends_of_follow hvalue).unique h)))

/-- No value of a registered instance comes through a flow port. -/
theorem Walked.not_meetsFlow (w : Walked src bound [] r) (hi : i ∈ r.actionOrder ∨ i ∈ r.operatorOrder) {port : Nat}
    (hport : port ∈ (i.graphNode src.library).valueInputs) : ¬(i.spot port).MeetsFlow src.library := by
  rcases w.values i (hi.imp_right .inl) port hport with hmem | ⟨source, trail, hvalue, -⟩
  · cases hmem
  · exact Library.not_meetsFlow_of_valueSource hvalue

end Registry

end BehaviorTree
