import BehaviorTree.Proofs.Compile.Feed
import BehaviorTree.Proofs.Compile.Steps

/-! What registration leaves behind when it reports no error: every instance that is reached has a number of
its own, and so has everything that its ports lead to; the operands of an operator have smaller numbers
than the operator. A state of the walk is sound if this holds up to the tasks that are still to do. -/

namespace BehaviorTree

namespace Registry

variable {src : Sources} {bound : Nat} {r r' : Registry}

/-! ### Steps -/

/-- A wire ends at the target, and nothing is wrong on the way. -/
def FlowLeads (src : Sources) (bound : Nat) (spot : Spot) (target : Option Instance) : Prop :=
  ∃ trail, src.library.flowTarget bound spot = .ok (target, trail) ∧ trail.errors = []

def ValueLeads (src : Sources) (bound : Nat) (spot : Spot) (source : Option ValueSource) : Prop :=
  ∃ trail, src.library.valueSource bound spot = .ok (source, trail) ∧ trail.errors = []

/-- What a task does that reports no error, and the tasks that it puts in front. -/
inductive Stepped (src : Sources) (bound : Nat) (r r' : Registry) : Task → List Task → Prop
  | actionAgain {i : Instance} {n : Nat} (hknown : r.actionNumber i.key = some n) (keeps : Keeps src r r') :
    Stepped src bound r r' (.action i) []
  | action {i : Instance} (hnew : r.actionNumber i.key = none) (hroom : r.actionOrder.size < maxIndex)
    (keeps : Keeps src (r.numbered i) r')
    (noted : ∀ a, (i.graphNode src.library).role = .action a → Noted src r' (.action a)) :
    Stepped src bound r r' (.action i)
      (flowTasks i (i.graphNode src.library) ++ valueTasks i (i.graphNode src.library))
  | flow {spot : Spot} {target : Option Instance} (leads : FlowLeads src bound spot target) (keeps : Keeps src r r') :
    Stepped src bound r r' (.flow spot) (target.toList.map .action)
  | value {spot : Spot} {source : Option ValueSource} (leads : ValueLeads src bound spot source)
    (keeps : Keeps src r r') : Stepped src bound r r' (.value spot) (sourceTasks source)
  | operatorAgain {i : Instance} {n : Nat} (hknown : r.operatorNumber i.key = some n) (keeps : Keeps src r r') :
    Stepped src bound r r' (.operator i) []
  | operator {i : Instance} (hnew : r.operatorNumber i.key = none) (hclosed : i.key ∉ r.inProgress)
    (keeps : Keeps src (r.opened i) r')
    (noted : ∀ op, (i.graphNode src.library).role = .operator op → Noted src r' (.operator op)) :
    Stepped src bound r r' (.operator i) (valueTasks i (i.graphNode src.library) ++ [.seal i])
  | finish {i : Instance} (hroom : r.operatorOrder.size < maxIndex) (h : r' = r.sealed i) :
    Stepped src bound r r' (.seal i) []

/-- What a task does in a walk that reports no error. -/
theorem Taken.stepped {task : Task} {first : List Task} (h : Taken src bound r r' task first) (hclean : r'.errors = #[]) :
    Stepped src bound r r' task first := by
  cases h with
  | actionAgain hknown keeps => exact .actionAgain hknown keeps
  | action hnew hroom keeps noted => exact .action hnew hroom keeps noted
  | flow h keeps clean => exact .flow ⟨_, h, clean hclean⟩ keeps
  | value h keeps clean => exact .value ⟨_, h, clean hclean⟩ keeps
  | operatorAgain hknown keeps => exact .operatorAgain hknown keeps
  | operatorOpen _ _ dirty => exact absurd hclean dirty
  | operator hnew hclosed keeps noted => exact .operator hnew hclosed keeps (noted hclean)
  | finish hroom h => exact .finish hroom h

theorem Stepped.taken {task : Task} {first : List Task} (h : Stepped src bound r r' task first) :
    Taken src bound r r' task first := by
  cases h with
  | actionAgain hknown keeps => exact .actionAgain hknown keeps
  | action hnew hroom keeps noted => exact .action hnew hroom keeps noted
  | flow leads keeps =>
    obtain ⟨trail, h, hclean⟩ := leads
    exact .flow h keeps fun _ => hclean
  | value leads keeps =>
    obtain ⟨trail, h, hclean⟩ := leads
    exact .value h keeps fun _ => hclean
  | operatorAgain hknown keeps => exact .operatorAgain hknown keeps
  | operator hnew hclosed keeps noted => exact .operator hnew hclosed keeps fun _ => noted
  | finish hroom h => exact .finish hroom h

/-! ### Soundness of the walk -/

/-- An operator on a path of calls that are there. -/
def Operates (src : Sources) (i : Instance) : Prop :=
  i.path.Valid src.library src.entry ∧ ∃ op, (i.graphNode src.library).role = .operator op

/-- What the task is about is there. -/
def TaskSound (src : Sources) : Task → Prop
  | .action i => Reached src.library src.entry i
  | .flow spot => Reached src.library src.entry ⟨spot.path, spot.node⟩ ∧
      spot.port ∈ (Instance.graphNode src.library ⟨spot.path, spot.node⟩).flowOutputs
  | .value spot => ∃ type, spot.Carries src.library src.entry type
  | .operator i | .seal i => Operates src i

def FlowKnown (src : Sources) (bound : Nat) (tasks : List Task) (r : Registry) (spot : Spot) : Prop :=
  .flow spot ∈ tasks ∨
    ∃ target, FlowLeads src bound spot target ∧ ∀ i, target = some i → ActionKnown tasks r i

def ValueKnown (src : Sources) (bound : Nat) (tasks : List Task) (r : Registry) (spot : Spot) : Prop :=
  .value spot ∈ tasks ∨
    ∃ source, ValueLeads src bound spot source ∧ ∀ i, source = some (.operator i) → OperatorKnown tasks r i

/-- What feeds the port has a smaller number. -/
def OperandBelow (src : Sources) (bound : Nat) (r : Registry) (k : Nat) (spot : Spot) : Prop :=
  ∃ source, ValueLeads src bound spot source ∧
    ∀ i, source = some (.operator i) → ∃ n, r.operatorNumber i.key = some n ∧ n < k

/-- No two operators of one key are open at a time. -/
def Apart (first second : Task) : Prop :=
  ∀ i j, first = .seal i → second = .seal j → i.key ≠ j.key

/-- A sound state of the walk. The operands of an open operator are known by what stands before its seal. -/
structure Walking (src : Sources) (bound : Nat) (tasks : List Task) (r : Registry) : Prop where
  actions : Numbers r.actionNumber r.actionOrder 1
  operators : Numbers r.operatorNumber r.operatorOrder 0
  sound : ∀ task ∈ tasks, TaskSound src task
  reached : ∀ i ∈ r.actionOrder, Reached src.library src.entry i ∧ Noted src r (i.graphNode src.library).role
  operating : ∀ i, i ∈ r.operatorOrder ∨ .seal i ∈ tasks →
    Operates src i ∧ Noted src r (i.graphNode src.library).role
  apart : tasks.Pairwise Apart
  unsealed : ∀ i, .seal i ∈ tasks → i.key ∈ r.inProgress ∧ r.operatorNumber i.key = none
  flows : ∀ i ∈ r.actionOrder, ∀ port ∈ (i.graphNode src.library).flowOutputs,
    FlowKnown src bound tasks r ⟨i.path, i.node, port⟩
  values : ∀ i ∈ r.actionOrder, ∀ port ∈ (i.graphNode src.library).valueInputs,
    ValueKnown src bound tasks r ⟨i.path, i.node, port⟩
  operands : ∀ k i, r.operatorOrder[k]? = some i → ∀ port ∈ (i.graphNode src.library).valueInputs,
    OperandBelow src bound r k ⟨i.path, i.node, port⟩
  awaited : ∀ before i after, tasks = before ++ .seal i :: after →
    ∀ port ∈ (i.graphNode src.library).valueInputs, ValueKnown src bound before r ⟨i.path, i.node, port⟩
  catalogued : ∀ component ∈ r.types, (src.catalog.get? component).isSome

variable {task : Task} {first tasks : List Task} {i : Instance}

/-- The number of an operator is never lost, unless an operator of its key is open. -/
theorem Stepped.operatorNumber_mono (h : Stepped src bound r r' task first)
    (hopen : ∀ i, task = .seal i → r.operatorNumber i.key = none) {key : InstanceKey} {n : Nat}
    (hn : r.operatorNumber key = some n) : r'.operatorNumber key = some n := by
  cases h with
  | action hnew hroom keeps => rw [keeps.operatorNumber]; exact hn
  | operator hnew hclosed keeps => rw [keeps.operatorNumber]; exact hn
  | @finish i hroom h =>
    rw [h, operatorNumber_sealed hroom, if_neg]
    · exact hn
    · rintro rfl
      cases (hopen i rfl).symm.trans hn
  | actionAgain _ keeps | flow _ keeps | value _ keeps | operatorAgain _ keeps => rw [keeps.operatorNumber]; exact hn

/-- A step keeps that an operator is known. -/
theorem OperatorKnown.step (known : OperatorKnown (task :: tasks) r i) (h : Stepped src bound r r' task first)
    (hopen : ∀ j, task = .seal j → r.operatorNumber j.key = none) : OperatorKnown (first ++ tasks) r' i := by
  rcases known with hmem | ⟨j, hmem, hkey⟩ | ⟨n, hn⟩
  · rcases List.mem_cons.mp hmem with rfl | hmem
    · cases h with
      | operatorAgain hknown keeps => exact .inr (.inr ⟨_, by rw [keeps.operatorNumber]; exact hknown⟩)
      | operator hnew hclosed keeps => exact .inr (.inl ⟨i, by simp, rfl⟩)
    · exact .inl (List.mem_append_right first hmem)
  · rcases List.mem_cons.mp hmem with rfl | hmem
    · cases h with
      | finish hroom h => exact .inr (.inr ⟨_, by rw [h, operatorNumber_sealed hroom, if_pos hkey]⟩)
    · exact .inr (.inl ⟨j, List.mem_append_right first hmem, hkey⟩)
  · exact .inr (.inr ⟨n, h.operatorNumber_mono hopen hn⟩)

theorem FlowKnown.step {spot : Spot} (known : FlowKnown src bound (task :: tasks) r spot)
    (h : Stepped src bound r r' task first) : FlowKnown src bound (first ++ tasks) r' spot := by
  rcases known with hmem | ⟨target, leads, known⟩
  · rcases List.mem_cons.mp hmem with rfl | hmem
    · cases h with
      | @flow _ target leads keeps =>
        refine .inr ⟨target, leads, ?_⟩
        rintro i rfl
        exact .inl (by simp)
    · exact .inl (List.mem_append_right first hmem)
  · exact .inr ⟨target, leads, fun i hi => h.taken.actionKnown (known i hi)⟩

theorem ValueKnown.step {spot : Spot} (known : ValueKnown src bound (task :: tasks) r spot)
    (h : Stepped src bound r r' task first) (hopen : ∀ j, task = .seal j → r.operatorNumber j.key = none) :
    ValueKnown src bound (first ++ tasks) r' spot := by
  rcases known with hmem | ⟨source, leads, known⟩
  · rcases List.mem_cons.mp hmem with rfl | hmem
    · cases h with
      | @value _ source leads keeps =>
        refine .inr ⟨source, leads, ?_⟩
        rintro i rfl
        exact .inl (by simp [sourceTasks])
    · exact .inl (List.mem_append_right first hmem)
  · exact .inr ⟨source, leads, fun i hi => (known i hi).step h hopen⟩

/-- What a step does to the numbered operators and to the open ones. -/
theorem Stepped.operators_cases (h : Stepped src bound r r' task first) :
    ((∀ j, task ≠ .seal j) ∧ (∀ j, .seal j ∉ first) ∧ r'.operatorNumber = r.operatorNumber ∧
        r'.operatorOrder = r.operatorOrder ∧ r'.inProgress = r.inProgress) ∨
      (∃ i, task = .operator i ∧ first = valueTasks i (i.graphNode src.library) ++ [.seal i] ∧
        r.operatorNumber i.key = none ∧ i.key ∉ r.inProgress ∧ r'.operatorNumber = r.operatorNumber ∧
        r'.operatorOrder = r.operatorOrder ∧ r'.inProgress = r.inProgress.insert i.key ∧
        ∀ op, (i.graphNode src.library).role = .operator op → Noted src r' (.operator op)) ∨
      ∃ i, task = .seal i ∧ first = [] ∧ r.operatorOrder.size < maxIndex ∧ r' = r.sealed i := by
  cases h with
  | @action i hnew hroom keeps noted =>
    refine .inl ⟨by simp, fun j hj => ?_, keeps.operatorNumber, keeps.operatorOrder, keeps.inProgress⟩
    rcases List.mem_append.mp hj with hj | hj
    · simp [flowTasks] at hj
    · exact not_seal_mem_valueTasks _ _ _ hj
  | @operator i hnew hclosed keeps noted =>
    exact .inr (.inl ⟨i, rfl, rfl, hnew, hclosed, keeps.operatorNumber, keeps.operatorOrder, keeps.inProgress, noted⟩)
  | @finish i hroom h => exact .inr (.inr ⟨i, rfl, rfl, hroom, h⟩)
  | @value spot source _ keeps =>
    refine .inl ⟨by simp, fun j hj => ?_, keeps.operatorNumber, keeps.operatorOrder, keeps.inProgress⟩
    unfold sourceTasks at hj
    split at hj <;> simp at hj
  | flow _ keeps | actionAgain _ keeps | operatorAgain _ keeps =>
    exact .inl ⟨by simp, by simp, keeps.operatorNumber, keeps.operatorOrder, keeps.inProgress⟩

/-- The value inputs of a node carry values. -/
theorem carries_of_mem_valueInputs (valid : i.path.Valid src.library src.entry) {port : Nat}
    (h : port ∈ (i.graphNode src.library).valueInputs) :
    ∃ type, Spot.Carries src.library src.entry type ⟨i.path, i.node, port⟩ := by
  obtain ⟨-, -, type, hkind⟩ := GraphNode.mem_valueInputs.mp h
  exact ⟨type, valid, hkind⟩

theorem sound_valueTasks (valid : i.path.Valid src.library src.entry) :
    ∀ task ∈ valueTasks i (i.graphNode src.library), TaskSound src task := by
  intro task htask
  obtain ⟨port, hport, rfl⟩ := List.mem_map.mp htask
  exact carries_of_mem_valueInputs valid hport

/-- The flow outputs of a node are on the way of control. -/
theorem controls_of_mem_flowOutputs (valid : i.path.Valid src.library src.entry) {port : Nat}
    (h : port ∈ (i.graphNode src.library).flowOutputs) :
    Spot.Controls src.library src.entry ⟨i.path, i.node, port⟩ :=
  ⟨valid, fun _ => (GraphNode.mem_flowOutputs.mp h).2.2⟩

section

variable (formed : src.library.Formed) (bounded : src.library.Bounded src.entry)

include formed bounded

theorem FlowLeads.iff {spot : Spot} {target : Option Instance} (leads : FlowLeads src bound spot target)
    (controls : spot.Controls src.library src.entry) (other : Option Instance) :
    FlowsTo src.library spot other ↔ other = target := by
  obtain ⟨trail, hflow, hclean⟩ := leads
  exact Library.flowTarget_iff formed bounded controls hflow hclean other

theorem ValueLeads.hasType {spot : Spot} {source : Option ValueSource} {type : ValueType}
    (leads : ValueLeads src bound spot source) (carries : spot.Carries src.library src.entry type) {s : ValueSource}
    (hs : source = some s) : s.HasType src.library src.entry type := by
  obtain ⟨trail, hvalue, hclean⟩ := leads
  exact Library.valueSource_typed formed bounded carries hvalue hclean hs

/-- The end of a wire is the only thing that feeds its port. -/
theorem ValueLeads.iff {spot : Spot} {source : Option ValueSource} {type : ValueType}
    (leads : ValueLeads src bound spot source) (carries : spot.Carries src.library src.entry type) :
    ∃ s, source = some s ∧ ∀ other, FedBy src.library spot other ↔ other = s := by
  obtain ⟨trail, hvalue, hclean⟩ := leads
  exact Library.valueSource_iff formed bounded carries hvalue hclean

/-- Sound tasks lead to sound tasks. -/
theorem Stepped.sound (h : Stepped src bound r r' task first) (sound : TaskSound src task) :
    ∀ next ∈ first, TaskSound src next := by
  cases h with
  | actionAgain | operatorAgain | finish => simp
  | @action i =>
    have hvalid := (Reached.action sound).1
    intro next hnext
    rcases List.mem_append.mp hnext with hnext | hnext
    · obtain ⟨port, hport, rfl⟩ := List.mem_map.mp hnext
      exact ⟨sound, hport⟩
    · exact sound_valueTasks hvalid next hnext
  | @flow spot target leads =>
    intro next hnext
    obtain ⟨j, hj, rfl⟩ := List.mem_map.mp hnext
    have htarget := Option.mem_toList.mp hj
    obtain ⟨reached, hport⟩ := sound
    have hcontrols := controls_of_mem_flowOutputs reached.action.1 hport
    exact .child reached hport ((leads.iff formed bounded hcontrols (some j)).mpr htarget.symm)
  | @value spot source leads =>
    obtain ⟨type, carries⟩ := sound
    intro next hnext
    unfold sourceTasks at hnext
    split at hnext
    next i =>
      rw [List.mem_singleton.mp hnext]
      obtain ⟨valid, role, -⟩ := leads.hasType formed bounded carries rfl
      exact ⟨valid, role⟩
    next => simp at hnext
  | @operator i =>
    intro next hnext
    rcases List.mem_append.mp hnext with hnext | hnext
    · exact sound_valueTasks sound.1 next hnext
    · rw [List.mem_singleton.mp hnext]
      exact sound

end

/-- The tasks that a new operator brings end with its seal. -/
theorem eq_of_valueTasks_append {j : Instance} {node : GraphNode} {before after : List Task}
    (h : valueTasks i node ++ [.seal i] = before ++ .seal j :: after) : before = valueTasks i node ∧ j = i := by
  rcases List.append_eq_append_iff.mp h with ⟨rest, hbefore, hrest⟩ | ⟨rest, hfirst, hrest⟩
  · cases rest with
    | nil =>
      obtain ⟨hsame, -⟩ := List.cons.inj hrest
      exact ⟨by simpa using hbefore, (Task.seal.inj hsame).symm⟩
    | cons task rest =>
      obtain ⟨-, hrest⟩ := List.cons.inj hrest
      simp at hrest
  · cases rest with
    | nil =>
      obtain ⟨hsame, -⟩ := List.cons.inj hrest
      exact ⟨by simpa using hfirst.symm, Task.seal.inj hsame⟩
    | cons task rest =>
      obtain ⟨rfl, -⟩ := List.cons.inj hrest
      exact absurd (by simp [hfirst]) (not_seal_mem_valueTasks i node j)

theorem apart_of_no_seal (h : ∀ j, .seal j ∉ tasks) : tasks.Pairwise Apart :=
  List.pairwise_of_forall_mem_list fun _ ha _ _ i _ hi => absurd (hi ▸ ha) (h i)

namespace Walking

variable (w : Walking src bound (task :: tasks) r) (h : Stepped src bound r r' task first)

include w

theorem sound_task : TaskSound src task :=
  w.sound task (by simp)

theorem unsealed_task : ∀ j, task = .seal j → r.operatorNumber j.key = none := by
  rintro j rfl
  exact (w.unsealed j (by simp)).2

include h

theorem step_reached : ∀ i ∈ r'.actionOrder,
    Reached src.library src.entry i ∧ Noted src r' (i.graphNode src.library).role := by
  intro i hi
  have hold (hmem : i ∈ r.actionOrder) :
      Reached src.library src.entry i ∧ Noted src r' (i.graphNode src.library).role :=
    ⟨(w.reached i hmem).1, h.taken.noted_mono (w.reached i hmem).2⟩
  rcases h.taken.actions_cases with ⟨-, horder⟩ | ⟨j, rfl, -, -, -, horder, noted⟩
  · exact hold (horder ▸ hi)
  · rw [horder] at hi
    rcases Array.mem_push.mp hi with hmem | rfl
    · exact hold hmem
    · have reached : Reached src.library src.entry i := w.sound_task
      obtain ⟨a, ha⟩ := reached.action.2
      exact ⟨reached, ha ▸ noted a ha⟩

theorem step_operating : ∀ i, i ∈ r'.operatorOrder ∨ .seal i ∈ first ++ tasks →
    Operates src i ∧ Noted src r' (i.graphNode src.library).role := by
  intro i hi
  have hold (hmem : i ∈ r.operatorOrder ∨ .seal i ∈ task :: tasks) :
      Operates src i ∧ Noted src r' (i.graphNode src.library).role :=
    ⟨(w.operating i hmem).1, h.taken.noted_mono (w.operating i hmem).2⟩
  rcases h.operators_cases with ⟨-, hfirst, -, horder, -⟩ | ⟨j, rfl, rfl, -, -, -, horder, -, noted⟩ |
    ⟨j, rfl, rfl, -, rfl⟩
  · rw [horder] at hi
    rcases hi with hi | hi
    · exact hold (.inl hi)
    · exact hold (.inr (List.mem_cons_of_mem _ ((List.mem_append.mp hi).resolve_left (hfirst i))))
  · rw [horder] at hi
    rcases hi with hi | hi
    · exact hold (.inl hi)
    · rcases List.mem_append.mp hi with hi | hi
      · rcases List.mem_append.mp hi with hi | hi
        · exact absurd hi (not_seal_mem_valueTasks _ _ _)
        · obtain rfl := Task.seal.inj (List.mem_singleton.mp hi)
          have operates : Operates src i := w.sound_task
          obtain ⟨op, hop⟩ := operates.2
          exact ⟨operates, hop ▸ noted op hop⟩
      · exact hold (.inr (List.mem_cons_of_mem _ hi))
  · rcases hi with hi | hi
    · rcases Array.mem_push.mp hi with hmem | rfl
      · exact hold (.inl hmem)
      · exact hold (.inr (by simp))
    · exact hold (.inr (List.mem_cons_of_mem _ hi))

theorem step_unsealed : ∀ i, .seal i ∈ first ++ tasks → i.key ∈ r'.inProgress ∧ r'.operatorNumber i.key = none := by
  intro i hi
  rcases h.operators_cases with ⟨-, hfirst, hnumber, -, hopen⟩ | ⟨j, rfl, rfl, hnew, -, hnumber, -, hopen, -⟩ |
    ⟨j, rfl, rfl, hroom, rfl⟩
  · rw [hnumber, hopen]
    exact w.unsealed i (List.mem_cons_of_mem _ ((List.mem_append.mp hi).resolve_left (hfirst i)))
  · rw [hnumber, hopen, Std.HashSet.mem_insert, beq_iff_eq]
    rcases List.mem_append.mp hi with hi | hi
    · obtain rfl : i = j := by
        rcases List.mem_append.mp hi with hi | hi
        · exact absurd hi (not_seal_mem_valueTasks _ _ _)
        · exact Task.seal.inj (List.mem_singleton.mp hi)
      exact ⟨.inl rfl, hnew⟩
    · obtain ⟨hmem, hnone⟩ := w.unsealed i (List.mem_cons_of_mem _ hi)
      exact ⟨.inr hmem, hnone⟩
  · have hne : j.key ≠ i.key := (List.pairwise_cons.mp w.apart).1 _ hi j i rfl rfl
    obtain ⟨hmem, hnone⟩ := w.unsealed i (List.mem_cons_of_mem _ hi)
    refine ⟨?_, by rw [operatorNumber_sealed hroom, if_neg hne, hnone]⟩
    simpa [sealed, hne] using hmem

theorem step_apart : (first ++ tasks).Pairwise Apart := by
  have htasks := (List.pairwise_cons.mp w.apart).2
  rcases h.operators_cases with ⟨-, hfirst, -⟩ | ⟨j, rfl, rfl, -, hclosed, -⟩ | ⟨j, -, rfl, -⟩
  · exact List.pairwise_append.mpr ⟨apart_of_no_seal hfirst, htasks, fun a ha b hb i j hi => absurd (hi ▸ ha) (hfirst i)⟩
  · have hvalues := not_seal_mem_valueTasks j (j.graphNode src.library)
    rw [List.append_assoc]
    refine List.pairwise_append.mpr ⟨apart_of_no_seal hvalues, ?_, fun a ha b hb i j hi => absurd (hi ▸ ha) (hvalues i)⟩
    refine List.pairwise_cons.mpr ⟨?_, htasks⟩
    rintro b hb i i' hi rfl hkey
    obtain rfl := Task.seal.inj hi
    exact hclosed (hkey ▸ (w.unsealed i' (List.mem_cons_of_mem _ hb)).1)
  · exact htasks

theorem step_flows : ∀ i ∈ r'.actionOrder, ∀ port ∈ (i.graphNode src.library).flowOutputs,
    FlowKnown src bound (first ++ tasks) r' ⟨i.path, i.node, port⟩ := by
  intro i hi port hport
  rcases h.taken.actions_or hi with hmem | rfl
  · exact (w.flows i hmem port hport).step h
  · exact .inl (List.mem_append_left _ (List.mem_append_left _ (mem_flowTasks hport)))

theorem step_values : ∀ i ∈ r'.actionOrder, ∀ port ∈ (i.graphNode src.library).valueInputs,
    ValueKnown src bound (first ++ tasks) r' ⟨i.path, i.node, port⟩ := by
  intro i hi port hport
  rcases h.taken.actions_or hi with hmem | rfl
  · exact (w.values i hmem port hport).step h w.unsealed_task
  · exact .inl (List.mem_append_left _ (List.mem_append_right _ (mem_valueTasks hport)))

theorem step_awaited : ∀ before i after, first ++ tasks = before ++ .seal i :: after →
    ∀ port ∈ (i.graphNode src.library).valueInputs, ValueKnown src bound before r' ⟨i.path, i.node, port⟩ := by
  intro before i after hsplit port hport
  have hold {rest : List Task} (hrest : tasks = rest ++ .seal i :: after) :
      ValueKnown src bound (first ++ rest) r' ⟨i.path, i.node, port⟩ :=
    (w.awaited (task :: rest) i after (by rw [hrest, List.cons_append]) port hport).step h w.unsealed_task
  rcases List.append_eq_append_iff.mp hsplit with ⟨rest, rfl, hrest⟩ | ⟨rest, rfl, hrest⟩
  · exact hold hrest
  · cases rest with
    | nil =>
      have := hold (show tasks = [] ++ .seal i :: after from hrest.symm)
      simpa using this
    | cons next rest =>
      obtain ⟨rfl, -⟩ := List.cons.inj hrest
      rcases h.operators_cases with ⟨-, hfirst, -⟩ | ⟨j, rfl, hfirst, -⟩ | ⟨j, -, hfirst, -⟩
      · exact absurd (by simp) (hfirst i)
      · obtain ⟨rfl, rfl⟩ := eq_of_valueTasks_append hfirst.symm
        exact .inl (mem_valueTasks hport)
      · simp at hfirst

theorem step_operands : ∀ k i, r'.operatorOrder[k]? = some i → ∀ port ∈ (i.graphNode src.library).valueInputs,
    OperandBelow src bound r' k ⟨i.path, i.node, port⟩ := by
  intro k i hi port hport
  have hold (hmem : r.operatorOrder[k]? = some i) : OperandBelow src bound r' k ⟨i.path, i.node, port⟩ := by
    obtain ⟨source, leads, hbelow⟩ := w.operands k i hmem port hport
    refine ⟨source, leads, fun j hj => ?_⟩
    obtain ⟨n, hn, hlt⟩ := hbelow j hj
    exact ⟨n, h.operatorNumber_mono w.unsealed_task hn, hlt⟩
  rcases h.operators_cases with ⟨-, -, -, horder, -⟩ | ⟨j, -, -, -, -, -, horder, -⟩ | ⟨j, rfl, rfl, hroom, rfl⟩
  · exact hold (horder ▸ hi)
  · exact hold (horder ▸ hi)
  · change (r.operatorOrder.push j)[k]? = some i at hi
    rw [Array.getElem?_push] at hi
    split_ifs at hi with hk
    · obtain rfl := Option.some.inj hi
      rcases w.awaited [] j tasks rfl port hport with hmem | ⟨source, leads, hknown⟩
      · cases hmem
      · refine ⟨source, leads, fun operand hoperand => ?_⟩
        obtain ⟨n, hn, hlt⟩ := (hknown operand hoperand).numbered w.operators
        exact ⟨n, h.operatorNumber_mono w.unsealed_task hn, hk ▸ hlt⟩
    · exact hold hi

end Walking

/-- A step without errors keeps the walk sound. -/
theorem Walking.step (formed : src.library.Formed) (bounded : src.library.Bounded src.entry)
    (w : Walking src bound (task :: tasks) r) (h : Stepped src bound r r' task first) :
    Walking src bound (first ++ tasks) r' where
  actions := h.taken.numbers_actions w.actions
  operators := h.taken.numbers_operators w.operators w.unsealed_task
  sound := fun next hnext => (List.mem_append.mp hnext).elim (h.sound formed bounded w.sound_task next)
    fun hmem => w.sound next (List.mem_cons_of_mem _ hmem)
  reached := w.step_reached h
  operating := w.step_operating h
  apart := w.step_apart h
  unsealed := w.step_unsealed h
  flows := w.step_flows h
  values := w.step_values h
  operands := w.step_operands h
  awaited := w.step_awaited h
  catalogued := h.taken.catalogued w.catalogued

/-- A walk without errors ends soundly. -/
theorem Walking.walk (formed : src.library.Formed) (bounded : src.library.Bounded src.entry)
    (w : Walking src bound tasks r) {fuel : Nat} (h : walk src bound fuel tasks r = .ok r') (hclean : r'.errors = #[]) :
    Walking src bound [] r' := by
  refine walk_invariant (fun tasks r => r.errors = #[] → Walking src bound tasks r) ?_ h (fun _ => w) hclean
  intro task tasks r first r' hwalking taken hclean
  exact (hwalking (taken.errors hclean)).step formed bounded (taken.stepped hclean)

theorem errors_of_walk {fuel : Nat} (h : walk src bound fuel tasks r = .ok r') (hclean : r'.errors = #[]) :
    r.errors = #[] := by
  by_contra hdirty
  exact walk_invariant (fun _ r => r.errors ≠ #[]) (fun _ _ _ _ _ hdirty taken h => hdirty (taken.errors h)) h hdirty
    hclean

/-! ### The result -/

/-- The first action keeps its place. -/
theorem first_of_walk {fuel : Nat} (h : walk src bound fuel tasks r = .ok r') (hfirst : r.actionOrder[0]? = some i) :
    r'.actionOrder[0]? = some i := by
  refine walk_invariant (fun _ r => r.actionOrder[0]? = some i) ?_ h hfirst
  intro task tasks r first r' hfirst taken
  rcases taken.actions_cases with ⟨-, horder⟩ | ⟨j, -, -, -, -, horder, -⟩
  · rw [horder]
    exact hfirst
  · have hlt := (Array.getElem?_eq_some_iff.mp hfirst).1
    rw [horder, Array.getElem?_push, if_neg (by omega)]
    exact hfirst

/-- A registry of everything that is run from the root. -/
structure Complete (src : Sources) (bound : Nat) (r : Registry) : Prop where
  actions : Numbers r.actionNumber r.actionOrder 1
  operators : Numbers r.operatorNumber r.operatorOrder 0
  reached : ∀ i ∈ r.actionOrder, Reached src.library src.entry i ∧ Noted src r (i.graphNode src.library).role
  operating : ∀ i ∈ r.operatorOrder, Operates src i ∧ Noted src r (i.graphNode src.library).role
  flows : ∀ i ∈ r.actionOrder, ∀ port ∈ (i.graphNode src.library).flowOutputs,
    ∃ target, FlowLeads src bound ⟨i.path, i.node, port⟩ target ∧
      ∀ j, target = some j → ∃ n, r.actionNumber j.key = some n
  values : ∀ i ∈ r.actionOrder, ∀ port ∈ (i.graphNode src.library).valueInputs,
    OperandBelow src bound r r.operatorOrder.size ⟨i.path, i.node, port⟩
  operands : ∀ k i, r.operatorOrder[k]? = some i → ∀ port ∈ (i.graphNode src.library).valueInputs,
    OperandBelow src bound r k ⟨i.path, i.node, port⟩
  catalogued : ∀ component ∈ r.types, (src.catalog.get? component).isSome
  root : ∃ root, roots src = [root] ∧ r.actionOrder[0]? = some ⟨.start src.entry, root⟩

theorem Walking.values_below (w : Walking src bound [] r) (hi : i ∈ r.actionOrder) {port : Nat}
    (hport : port ∈ (i.graphNode src.library).valueInputs) :
    OperandBelow src bound r r.operatorOrder.size ⟨i.path, i.node, port⟩ := by
  rcases w.values i hi port hport with hmem | ⟨source, leads, hknown⟩
  · cases hmem
  · exact ⟨source, leads, fun j hj => (hknown j hj).numbered w.operators⟩

theorem mem_roots {index : Nat} :
    index ∈ roots src ↔ ((src.library.graph src.entry).node index).role = .action .root := by
  simp only [roots, List.mem_filter, List.mem_range, decide_eq_true_eq, and_iff_right_iff_imp]
  intro hrole
  exact Graph.lt_of_role hrole (by simp)

/-- Before anything is registered there is the root to do. -/
theorem walking_start {root : Nat} (hroot : root ∈ roots src) :
    Walking src bound [.action ⟨.start src.entry, root⟩] (start src.entry) := by
  have hnone {number : InstanceKey → Option Nat} (h : ∀ key, number key = none) (first : Nat) :
      Numbers number #[] first := by
    intro key n
    simp [h]
  refine ⟨hnone (by simp [actionNumber, start]) 1, hnone (by simp [operatorNumber, start]) 0, ?_, ?_, ?_, ?_, ?_, ?_, ?_,
    ?_, ?_, ?_⟩
  · simpa [TaskSound] using Reached.root (mem_roots.mp hroot)
  · simp [start]
  · simp [start]
  · simp
  · simp
  · simp [start]
  · simp [start]
  · simp [start]
  · intro before i after h
    rcases before with _ | ⟨task, before⟩ <;> simp at h
  · simp [start]

theorem eq_nil_of_addErrors {others : List Nat} {e : Nat → CompileError}
    (hclean : (others.foldl (fun r extra => r.addError (e extra)) r).errors = #[]) : others = [] := by
  have hmono (others : List Nat) (r : Registry)
      (hclean : (others.foldl (fun r extra => r.addError (e extra)) r).errors = #[]) : r.errors = #[] := by
    induction others generalizing r with
    | nil => exact hclean
    | cons extra others ih =>
      have := ih (r.addError (e extra)) hclean
      simp [addError] at this
  cases others with
  | nil => rfl
  | cons extra others =>
    have := hmono others (r.addError (e extra)) hclean
    simp [addError] at this

/-- The root is the first action. -/
theorem first_of_walk_start {fuel root : Nat}
    (h : walk src bound (fuel + 1) [.action ⟨.start src.entry, root⟩] (start src.entry) = .ok r) :
    r.actionOrder[0]? = some ⟨.start src.entry, root⟩ := by
  rw [walk] at h
  split at h
  next => cases h
  next first next hstep =>
    refine first_of_walk h ?_
    cases step_taken hstep with
    | actionAgain hknown => simp [actionNumber, start] at hknown
    | action hnew hroom keeps =>
      rw [keeps.actionOrder]
      rfl

/-- Registration without errors is complete. -/
theorem build_complete (formed : src.library.Formed) (bounded : src.library.Bounded src.entry)
    (h : build src = .ok r) (hclean : r.errors = #[]) : Complete src (src.library.wireBound src.entry) r := by
  unfold build at h
  dsimp only at h
  split at h
  next =>
    obtain rfl := Except.ok.inj h
    simp [addError] at hclean
  next root others hroots =>
    obtain rfl := eq_nil_of_addErrors (errors_of_walk h hclean)
    have w : Walking src (src.library.wireBound src.entry) [] r :=
      (walking_start (by simp [hroots])).walk formed bounded h hclean
    refine ⟨w.actions, w.operators, w.reached, fun i hi => w.operating i (.inl hi), ?_,
      fun i hi port hport => w.values_below hi hport, w.operands, w.catalogued, root, hroots,
      first_of_walk_start h⟩
    intro i hi port hport
    rcases w.flows i hi port hport with hmem | ⟨target, leads, hknown⟩
    · cases hmem
    · exact ⟨target, leads, fun j hj => (hknown j hj).resolve_left List.not_mem_nil⟩

end Registry

end BehaviorTree
