import BehaviorTree.Compile.Registry
import BehaviorTree.Proofs.Refusal

/-! What one step of registration does, whatever it reports: it numbers an action, opens or numbers an operator, or
keeps all numbers; and what is written down remains. -/

namespace BehaviorTree

namespace Registry

variable {src : Sources} {bound : Nat} {r r' : Registry}

/-! ### Numbers -/

def actionNumber (r : Registry) (key : InstanceKey) : Option Nat :=
  r.actions[key]?.map NodeId.toNat

def operatorNumber (r : Registry) (key : InstanceKey) : Option Nat :=
  r.operators[key]?.map UInt16.toNat

/-- The instances are numbered in their order, beginning with `first`, and no two have the same key. -/
def Numbers (number : InstanceKey → Option Nat) (order : Array Instance) (first : Nat) : Prop :=
  ∀ key n, number key = some n ↔ ∃ k i, order[k]? = some i ∧ i.key = key ∧ n = first + k

/-- A new instance has the next number. -/
theorem Numbers.push {number number' : InstanceKey → Option Nat} {order : Array Instance} {first : Nat}
    (numbers : Numbers number order first) {i : Instance} (hnew : number i.key = none)
    (hnumber : ∀ key, number' key = if i.key = key then some (first + order.size) else number key) :
    Numbers number' (order.push i) first := by
  intro key n
  rw [hnumber]
  split_ifs with hkey
  · subst hkey
    constructor
    · intro h
      exact ⟨order.size, i, by simp, rfl, (Option.some.inj h).symm⟩
    · rintro ⟨k, j, hj, hsame, rfl⟩
      rw [Array.getElem?_push] at hj
      split_ifs at hj with hk
      · rw [hk]
      · have hold := (numbers i.key (first + k)).mpr ⟨k, j, hj, hsame, rfl⟩
        cases hnew.symm.trans hold
  · rw [numbers]
    refine exists_congr fun k => exists_congr fun j => ?_
    rw [Array.getElem?_push]
    split_ifs with hk
    · subst hk
      simp only [Array.getElem?_eq_none_iff.mpr (Nat.le_refl _), reduceCtorEq, false_and, Option.some.injEq, false_iff]
      rintro ⟨rfl, hsame, -⟩
      exact hkey hsame
    · rfl

/-- Instances of one key are one. -/
theorem Numbers.inj {number : InstanceKey → Option Nat} {order : Array Instance} {first : Nat}
    (numbers : Numbers number order first) {k k' : Nat} {i i' : Instance} (h : order[k]? = some i)
    (h' : order[k']? = some i') (hkey : i.key = i'.key) : k = k' := by
  have hn := (numbers i.key (first + k)).mpr ⟨k, i, h, rfl, rfl⟩
  have hn' := (numbers i.key (first + k')).mpr ⟨k', i', h', hkey.symm, rfl⟩
  have := Option.some.inj (hn.symm.trans hn')
  omega

/-! ### What is written down -/

/-- A component that the node touches is written down. -/
def Noted (src : Sources) (r : Registry) : Role → Prop
  | .action (.writeField component) | .operator (.readField component _) =>
    (src.catalog.get? component).isSome → component ∈ r.types
  | .operator (.lookupField lookup component _) =>
    (src.catalog.get? component).isSome → r.lookups[lookup.toNat]? = some component
  | _ => True

/-- The numbers stay as they are, and what is written down remains. -/
structure Keeps (src : Sources) (r r' : Registry) : Prop where
  actions : r'.actions = r.actions
  actionOrder : r'.actionOrder = r.actionOrder
  operators : r'.operators = r.operators
  operatorOrder : r'.operatorOrder = r.operatorOrder
  inProgress : r'.inProgress = r.inProgress
  types : ∀ component ∈ r.types, component ∈ r'.types
  lookups : ∀ (lookup : Nat) (component : String), r.lookups[lookup]? = some component →
    r'.lookups[lookup]? = some component
  catalogued : ∀ component ∈ r'.types, component ∈ r.types ∨ (src.catalog.get? component).isSome
  errors : r'.errors = #[] → r.errors = #[]

theorem Keeps.refl (src : Sources) (r : Registry) : Keeps src r r :=
  ⟨rfl, rfl, rfl, rfl, rfl, fun _ h => h, fun _ _ h => h, fun _ h => .inl h, fun h => h⟩

theorem Keeps.trans {r'' : Registry} (h : Keeps src r r') (h' : Keeps src r' r'') : Keeps src r r'' := by
  refine ⟨h'.actions.trans h.actions, h'.actionOrder.trans h.actionOrder, h'.operators.trans h.operators,
    h'.operatorOrder.trans h.operatorOrder, h'.inProgress.trans h.inProgress, fun c hc => h'.types c (h.types c hc),
    fun l c hc => h'.lookups l c (h.lookups l c hc), ?_, fun hc => h.errors (h'.errors hc)⟩
  intro c hc
  rcases h'.catalogued c hc with hold | hknown
  · exact h.catalogued c hold
  · exact .inr hknown

theorem Noted.mono (keeps : Keeps src r r') {role : Role} (h : Noted src r role) : Noted src r' role := by
  unfold Noted at h ⊢
  split at h
  · exact fun hsome => keeps.types _ (h hsome)
  · exact fun hsome => keeps.types _ (h hsome)
  · exact fun hsome => keeps.lookups _ _ (h hsome)
  · trivial

theorem keeps_visit (src : Sources) (r : Registry) (graph : GraphId) (node : Nat) :
    Keeps src r (r.visit graph node) :=
  ⟨rfl, rfl, rfl, rfl, rfl, fun _ h => h, fun _ _ h => h, fun _ h => .inl h, fun h => h⟩

theorem append_list_eq_empty {α : Type} {xs : Array α} {ys : List α} (h : xs ++ ys = #[]) : xs = #[] ∧ ys = [] := by
  have hlist := congrArg Array.toList h
  simpa using hlist

theorem keeps_absorb (src : Sources) (r : Registry) (trail : Trail) : Keeps src r (r.absorb trail) := by
  have hvisits (visits : List (GraphId × Nat)) (r : Registry) :
      Keeps src r (visits.foldl (fun r visit => r.visit visit.1 visit.2) r) := by
    induction visits generalizing r with
    | nil => exact .refl src r
    | cons visit visits ih => exact (keeps_visit src r visit.1 visit.2).trans (ih _)
  exact (hvisits trail.visits r).trans ⟨rfl, rfl, rfl, rfl, rfl, fun _ h => h, fun _ _ h => h, fun _ h => .inl h,
    fun h => (append_list_eq_empty h).1⟩

theorem keeps_noteType (r : Registry) (component : String) : Keeps src r (r.noteType src component) ∧
    ((src.catalog.get? component).isSome → component ∈ (r.noteType src component).types) := by
  unfold noteType
  split_ifs with h
  · refine ⟨⟨rfl, rfl, rfl, rfl, rfl, fun c hc => ?_, fun _ _ h => h, fun c hc => ?_, fun h => h⟩, fun _ => ?_⟩
    · exact Std.TreeSet.mem_insert.mpr (.inr hc)
    · rcases Std.TreeSet.mem_insert.mp hc with hsame | hold
      · rw [Std.LawfulEqCmp.compare_eq_iff_eq.mp hsame] at h
        exact .inr h
      · exact .inl hold
    · exact Std.TreeSet.mem_insert_self
  · exact ⟨.refl src r, fun hsome => absurd hsome h⟩

/-- A lookup that is read as one component everywhere. -/
theorem keeps_noteLookup (r : Registry) (site : Location) (lookup : UInt16) (component : String) :
    Keeps src r (r.noteLookup src site lookup component) ∧
      ((r.noteLookup src site lookup component).errors = #[] → (src.catalog.get? component).isSome →
        (r.noteLookup src site lookup component).lookups[lookup.toNat]? = some component) := by
  unfold noteLookup
  split_ifs with hnone
  · exact ⟨.refl src r, fun _ hsome => by simp_all⟩
  · split
    next expected hold =>
      split_ifs with hsame
      · exact ⟨.refl src r, fun _ _ => hsame ▸ hold⟩
      · refine ⟨⟨rfl, rfl, rfl, rfl, rfl, fun _ h => h, fun _ _ h => h, fun _ h => .inl h, fun h => ?_⟩, fun h => ?_⟩
        · simp [addError] at h
        · simp [addError] at h
    next hnew =>
      refine ⟨⟨rfl, rfl, rfl, rfl, rfl, fun _ h => h, fun l c hc => ?_, fun _ h => .inl h, fun h => h⟩, fun _ _ => ?_⟩
      · have hne : lookup.toNat ≠ l := fun hsame => by
          rw [hsame, hc] at hnew
          cases hnew
        simpa [Std.TreeMap.getElem?_insert, hne] using hc
      · simp

theorem keeps_noteAction (r : Registry) (role : Role) : Keeps src r (r.noteAction src role) ∧
    ∀ a, role = .action a → Noted src (r.noteAction src role) (.action a) := by
  unfold noteAction
  split
  next component =>
    refine ⟨(keeps_noteType r component).1, ?_⟩
    rintro a ⟨⟩
    exact (keeps_noteType r component).2
  next hother =>
    refine ⟨.refl src r, ?_⟩
    rintro a rfl
    cases a with
    | writeField component => exact absurd rfl (hother component)
    | _ => trivial

theorem keeps_noteOperator (r : Registry) (site : Location) (role : Role) :
    Keeps src r (r.noteOperator src site role) ∧ ((r.noteOperator src site role).errors = #[] →
      ∀ op, role = .operator op → Noted src (r.noteOperator src site role) (.operator op)) := by
  unfold noteOperator
  split
  next component field =>
    refine ⟨(keeps_noteType r component).1, fun _ => ?_⟩
    rintro op ⟨⟩
    exact (keeps_noteType r component).2
  next lookup component field =>
    refine ⟨(keeps_noteLookup r site lookup component).1, fun hclean => ?_⟩
    rintro op ⟨⟩
    exact (keeps_noteLookup r site lookup component).2 hclean
  next hread hlookup =>
    refine ⟨.refl src r, fun _ => ?_⟩
    rintro op rfl
    cases op with
    | readField component field => exact absurd rfl (hread component field)
    | lookupField lookup component field => exact absurd rfl (hlookup lookup component field)
    | _ => trivial

/-! ### Steps -/

def flowTasks (i : Instance) (node : GraphNode) : List Task :=
  node.flowOutputs.map fun port => .flow ⟨i.path, i.node, port⟩

theorem mem_flowTasks {i : Instance} {node : GraphNode} {port : Nat} (hport : port ∈ node.flowOutputs) :
    .flow ⟨i.path, i.node, port⟩ ∈ flowTasks i node :=
  List.mem_map_of_mem hport

theorem mem_valueTasks {i : Instance} {node : GraphNode} {port : Nat} (hport : port ∈ node.valueInputs) :
    .value ⟨i.path, i.node, port⟩ ∈ valueTasks i node :=
  List.mem_map_of_mem hport

def sourceTasks : Option ValueSource → List Task
  | some (.operator i) => [.operator i]
  | _ => []

theorem mem_sourceTasks {source : Option ValueSource} :
    task ∈ sourceTasks source ↔ ∃ j, source = some (.operator j) ∧ task = .operator j := by
  rcases source with - | j | - <;> simp [sourceTasks]

/-- The registry with one more action. -/
def numbered (r : Registry) (i : Instance) : Registry :=
  { r with
    actions := r.actions.insert i.key ⟨UInt16.ofNat (r.actionOrder.size + 1)⟩
    actionOrder := r.actionOrder.push i }

/-- The registry with one more operator whose operands are to be registered. -/
def opened (r : Registry) (i : Instance) : Registry :=
  { r with inProgress := r.inProgress.insert i.key }

/-- The registry with one more operator. -/
def sealed (r : Registry) (i : Instance) : Registry :=
  { r with
    inProgress := r.inProgress.erase i.key
    operators := r.operators.insert i.key (UInt16.ofNat r.operatorOrder.size)
    operatorOrder := r.operatorOrder.push i }

theorem actionNumber_numbered {i : Instance} (hroom : r.actionOrder.size < maxIndex) (key : InstanceKey) :
    (r.numbered i).actionNumber key = if i.key = key then some (1 + r.actionOrder.size) else r.actionNumber key := by
  rw [actionNumber, numbered, Std.HashMap.getElem?_insert]
  simp only [beq_iff_eq]
  split_ifs
  · have hlt : r.actionOrder.size + 1 < 65536 := by
      unfold maxIndex at hroom
      omega
    simp [NodeId.toNat, hlt, Nat.add_comm]
  · rfl

theorem operatorNumber_sealed {i : Instance} (hroom : r.operatorOrder.size < maxIndex) (key : InstanceKey) :
    (r.sealed i).operatorNumber key =
      if i.key = key then some (0 + r.operatorOrder.size) else r.operatorNumber key := by
  rw [operatorNumber, sealed, Std.HashMap.getElem?_insert]
  simp only [beq_iff_eq]
  split_ifs
  · have hlt : r.operatorOrder.size < 65536 := by
      unfold maxIndex at hroom
      omega
    simp [hlt]
  · rfl

theorem contains_actions {key : InstanceKey} : r.actions.contains key = (r.actionNumber key).isSome := by
  rw [actionNumber, Option.isSome_map, Std.HashMap.isSome_getElem?_eq_contains]

theorem contains_operators {key : InstanceKey} : r.operators.contains key = (r.operatorNumber key).isSome := by
  rw [operatorNumber, Option.isSome_map, Std.HashMap.isSome_getElem?_eq_contains]

/-- What a task does that is not refused, and the tasks that it puts in front. -/
inductive Taken (src : Sources) (bound : Nat) (r r' : Registry) : Task → List Task → Prop
  | actionAgain {i : Instance} {n : Nat} (hknown : r.actionNumber i.key = some n) (keeps : Keeps src r r') :
    Taken src bound r r' (.action i) []
  | action {i : Instance} (hnew : r.actionNumber i.key = none) (hroom : r.actionOrder.size < maxIndex)
    (keeps : Keeps src (r.numbered i) r')
    (noted : ∀ a, (i.graphNode src.library).role = .action a → Noted src r' (.action a)) :
    Taken src bound r r' (.action i)
      (flowTasks i (i.graphNode src.library) ++ valueTasks i (i.graphNode src.library))
  | flow {spot : Spot} {target : Option Instance} {trail : Trail}
    (h : src.library.flowTarget bound spot = .ok (target, trail)) (keeps : Keeps src r r')
    (clean : r'.errors = #[] → trail.errors = []) : Taken src bound r r' (.flow spot) (target.toList.map .action)
  | value {spot : Spot} {source : Option ValueSource} {trail : Trail}
    (h : src.library.valueSource bound spot = .ok (source, trail)) (keeps : Keeps src r r')
    (clean : r'.errors = #[] → trail.errors = []) : Taken src bound r r' (.value spot) (sourceTasks source)
  | operatorAgain {i : Instance} {n : Nat} (hknown : r.operatorNumber i.key = some n) (keeps : Keeps src r r') :
    Taken src bound r r' (.operator i) []
  | operatorOpen {i : Instance} (hopen : i.key ∈ r.inProgress) (keeps : Keeps src r r') (dirty : r'.errors ≠ #[]) :
    Taken src bound r r' (.operator i) []
  | operator {i : Instance} (hnew : r.operatorNumber i.key = none) (hclosed : i.key ∉ r.inProgress)
    (keeps : Keeps src (r.opened i) r')
    (noted : r'.errors = #[] → ∀ op, (i.graphNode src.library).role = .operator op → Noted src r' (.operator op)) :
    Taken src bound r r' (.operator i) (valueTasks i (i.graphNode src.library) ++ [.seal i])
  | finish {i : Instance} (hroom : r.operatorOrder.size < maxIndex) (h : r' = r.sealed i) :
    Taken src bound r r' (.seal i) []

theorem registerAction_taken {i : Instance} {first : List Task} (h : r.registerAction src i = .ok (first, r')) :
    Taken src bound r r' (.action i) first := by
  simp only [registerAction, contains_actions] at h
  split_ifs at h with hknown hroom
  · obtain ⟨rfl, rfl⟩ := Prod.mk.inj (Except.ok.inj h)
    obtain ⟨n, hn⟩ := Option.isSome_iff_exists.mp hknown
    exact .actionAgain hn (.refl src r)
  · obtain ⟨rfl, rfl⟩ := Prod.mk.inj (Except.ok.inj h)
    have hvisit := keeps_visit src (r.numbered i) i.path.graph i.node
    obtain ⟨hkeeps, hnoted⟩ := keeps_noteAction ((r.numbered i).visit i.path.graph i.node)
      (i.graphNode src.library).role
    exact .action (Option.not_isSome_iff_eq_none.mp hknown) (by omega) (hvisit.trans hkeeps) hnoted

theorem keeps_addError (src : Sources) (r : Registry) (e : CompileError) : Keeps src r (r.addError e) :=
  ⟨rfl, rfl, rfl, rfl, rfl, fun _ h => h, fun _ _ h => h, fun _ h => .inl h, fun h => by simp [addError] at h⟩

theorem registerOperator_taken (src : Sources) (bound : Nat) (r : Registry) (i : Instance) :
    Taken src bound r (r.registerOperator src i).2 (.operator i) (r.registerOperator src i).1 := by
  unfold registerOperator
  rw [contains_operators]
  dsimp only
  split_ifs with hknown hopen
  · obtain ⟨n, hn⟩ := Option.isSome_iff_exists.mp hknown
    exact .operatorAgain hn (.refl src r)
  · exact .operatorOpen (Std.HashSet.contains_iff_mem.mp hopen) (keeps_addError src r _) (by simp [addError])
  · have hvisit := keeps_visit src (r.opened i) i.path.graph i.node
    obtain ⟨hkeeps, hnoted⟩ := keeps_noteOperator ((r.opened i).visit i.path.graph i.node)
      ((i.graph src.library).location i.node) (i.graphNode src.library).role
    refine .operator (Option.not_isSome_iff_eq_none.mp hknown) ?_ (hvisit.trans hkeeps) hnoted
    exact fun hmem => hopen (Std.HashSet.contains_iff_mem.mpr hmem)

theorem step_flow {spot : Spot} {target : Option Instance} {trail : Trail}
    (h : src.library.flowTarget bound spot = .ok (target, trail)) :
    r.step src bound (.flow spot) = .ok (target.toList.map .action, r.absorb trail) := by
  rw [step, h]
  rfl

theorem step_value {spot : Spot} {source : Option ValueSource} {trail : Trail}
    (h : src.library.valueSource bound spot = .ok (source, trail)) :
    r.step src bound (.value spot) = .ok (sourceTasks source, r.absorb trail) := by
  rw [step, h]
  rcases source with - | - | - <;> rfl

theorem sealOperator_eq_ok {i : Instance} (h : r.sealOperator i = .ok r') :
    r.operatorOrder.size < maxIndex ∧ r' = r.sealed i := by
  unfold sealOperator at h
  dsimp only at h
  split_ifs at h with hroom
  exact ⟨by omega, (Except.ok.inj h).symm⟩

variable {task : Task} {first tasks : List Task} {i : Instance}

theorem step_taken (h : r.step src bound task = .ok (first, r')) : Taken src bound r r' task first := by
  cases task with
  | action i => exact registerAction_taken h
  | flow spot =>
    obtain ⟨⟨target, trail⟩, hflow, -⟩ := Refusal.bind_eq_ok_iff.mp h
    obtain ⟨rfl, rfl⟩ := Prod.mk.inj (Except.ok.inj ((step_flow hflow).symm.trans h))
    exact .flow hflow (keeps_absorb src r trail) fun hclean => (append_list_eq_empty hclean).2
  | value spot =>
    obtain ⟨⟨source, trail⟩, hvalue, -⟩ := Refusal.bind_eq_ok_iff.mp h
    obtain ⟨rfl, rfl⟩ := Prod.mk.inj (Except.ok.inj ((step_value hvalue).symm.trans h))
    exact .value hvalue (keeps_absorb src r trail) fun hclean => (append_list_eq_empty hclean).2
  | operator i =>
    obtain ⟨rfl, rfl⟩ := Prod.ext_iff.mp (Except.ok.inj h)
    exact registerOperator_taken src bound r i
  | «seal» i =>
    obtain ⟨sealed, hseal, hpair⟩ := Refusal.map_eq_ok_iff.mp h
    obtain ⟨rfl, rfl⟩ := Prod.mk.inj hpair
    obtain ⟨hroom, rfl⟩ := sealOperator_eq_ok hseal
    exact .finish hroom rfl

theorem Keeps.actionNumber (keeps : Keeps src r r') : r'.actionNumber = r.actionNumber := by
  funext key
  rw [Registry.actionNumber, keeps.actions]
  rfl

theorem Keeps.operatorNumber (keeps : Keeps src r r') : r'.operatorNumber = r.operatorNumber := by
  funext key
  rw [Registry.operatorNumber, keeps.operators]
  rfl

/-- What a step does to the numbered actions. -/
theorem Taken.actions_cases (h : Taken src bound r r' task first) :
    (r'.actionNumber = r.actionNumber ∧ r'.actionOrder = r.actionOrder) ∨
      ∃ i, task = .action i ∧
        first = flowTasks i (i.graphNode src.library) ++ valueTasks i (i.graphNode src.library) ∧
        r.actionNumber i.key = none ∧
        (∀ key, r'.actionNumber key = if i.key = key then some (1 + r.actionOrder.size) else r.actionNumber key) ∧
        r'.actionOrder = r.actionOrder.push i ∧
        ∀ a, (i.graphNode src.library).role = .action a → Noted src r' (.action a) := by
  cases h with
  | @action i hnew hroom keeps noted =>
    refine .inr ⟨i, rfl, rfl, hnew, fun key => ?_, keeps.actionOrder, noted⟩
    rw [keeps.actionNumber, actionNumber_numbered hroom]
  | operator hnew hclosed keeps => exact .inl ⟨keeps.actionNumber, keeps.actionOrder⟩
  | finish hroom h =>
    subst h
    exact .inl ⟨rfl, rfl⟩
  | actionAgain _ keeps | flow _ keeps | value _ keeps | operatorAgain _ keeps | operatorOpen _ keeps =>
    exact .inl ⟨keeps.actionNumber, keeps.actionOrder⟩

/-- An action that a step registers has its ports looked at next. -/
theorem Taken.actions_or (h : Taken src bound r r' task first) {i : Instance} (hi : i ∈ r'.actionOrder) :
    i ∈ r.actionOrder ∨
      first = flowTasks i (i.graphNode src.library) ++ valueTasks i (i.graphNode src.library) := by
  rcases h.actions_cases with ⟨-, horder⟩ | ⟨j, -, rfl, -, -, horder, -⟩
  · exact .inl (horder ▸ hi)
  · rw [horder] at hi
    rcases Array.mem_push.mp hi with hmem | rfl
    · exact .inl hmem
    · exact .inr rfl

/-- The numbers of the actions stay right. -/
theorem Taken.numbers_actions (h : Taken src bound r r' task first)
    (numbers : Numbers r.actionNumber r.actionOrder 1) : Numbers r'.actionNumber r'.actionOrder 1 := by
  rcases h.actions_cases with ⟨hnumber, horder⟩ | ⟨i, -, -, hnew, hnumber, horder, -⟩
  · rw [hnumber, horder]
    exact numbers
  · rw [horder]
    exact numbers.push hnew hnumber

/-- The numbers of the operators stay right, as long as an open operator has none. -/
theorem Taken.numbers_operators (h : Taken src bound r r' task first)
    (numbers : Numbers r.operatorNumber r.operatorOrder 0)
    (hopen : ∀ i, task = .seal i → r.operatorNumber i.key = none) :
    Numbers r'.operatorNumber r'.operatorOrder 0 := by
  cases h with
  | action _ _ keeps | operator _ _ keeps =>
    rw [keeps.operatorNumber, keeps.operatorOrder]
    exact numbers
  | @finish i hroom h =>
    subst h
    exact numbers.push (hopen i rfl) (operatorNumber_sealed hroom)
  | actionAgain _ keeps | flow _ keeps | value _ keeps | operatorAgain _ keeps | operatorOpen _ keeps =>
    rw [keeps.operatorNumber, keeps.operatorOrder]
    exact numbers

/-- What is written down remains. -/
theorem Taken.noted_mono (h : Taken src bound r r' task first) {role : Role} (noted : Noted src r role) :
    Noted src r' role := by
  cases h with
  | action hnew hroom keeps => exact Noted.mono keeps noted
  | operator hnew hclosed keeps => exact Noted.mono keeps noted
  | finish hroom h => exact h ▸ noted
  | actionAgain _ keeps | flow _ keeps | value _ keeps | operatorAgain _ keeps | operatorOpen _ keeps =>
    exact noted.mono keeps

theorem Taken.catalogued (h : Taken src bound r r' task first)
    (catalogued : ∀ component ∈ r.types, (src.catalog.get? component).isSome) :
    ∀ component ∈ r'.types, (src.catalog.get? component).isSome := by
  intro component hmem
  cases h with
  | action hnew hroom keeps => exact (keeps.catalogued component hmem).elim (catalogued component) id
  | operator hnew hclosed keeps => exact (keeps.catalogued component hmem).elim (catalogued component) id
  | finish hroom h =>
    subst h
    exact catalogued component hmem
  | actionAgain _ keeps | flow _ keeps | value _ keeps | operatorAgain _ keeps | operatorOpen _ keeps =>
    exact (keeps.catalogued component hmem).elim (catalogued component) id

/-- A step without errors starts without errors. -/
theorem Taken.errors (h : Taken src bound r r' task first) (hclean : r'.errors = #[]) : r.errors = #[] := by
  cases h with
  | action hnew hroom keeps => exact keeps.errors hclean
  | operator hnew hclosed keeps => exact keeps.errors hclean
  | finish hroom h =>
    subst h
    exact hclean
  | actionAgain _ keeps | flow _ keeps | value _ keeps | operatorAgain _ keeps | operatorOpen _ keeps =>
    exact keeps.errors hclean

/-- The action has a number, or will get one. -/
def ActionKnown (tasks : List Task) (r : Registry) (i : Instance) : Prop :=
  .action i ∈ tasks ∨ ∃ n, r.actionNumber i.key = some n

/-- The operator has a number, or will get one. -/
def OperatorKnown (tasks : List Task) (r : Registry) (i : Instance) : Prop :=
  .operator i ∈ tasks ∨ (∃ j, .seal j ∈ tasks ∧ j.key = i.key) ∨ ∃ n, r.operatorNumber i.key = some n

/-- What is known when nothing is left to do has a number. -/
theorem OperatorKnown.numbered (known : OperatorKnown [] r i) (numbers : Numbers r.operatorNumber r.operatorOrder 0) :
    ∃ n, r.operatorNumber i.key = some n ∧ n < r.operatorOrder.size := by
  rcases known with hmem | ⟨_, hmem, -⟩ | ⟨n, hn⟩
  · cases hmem
  · cases hmem
  · obtain ⟨k, other, hother, -, rfl⟩ := (numbers _ _).mp hn
    have hlt := (Array.getElem?_eq_some_iff.mp hother).1
    exact ⟨0 + k, hn, by omega⟩

theorem Taken.actionKnown (h : Taken src bound r r' task first) (known : ActionKnown (task :: tasks) r i) :
    ActionKnown (first ++ tasks) r' i := by
  rcases known with hmem | ⟨n, hn⟩
  · rcases List.mem_cons.mp hmem with rfl | hmem
    · cases h with
      | actionAgain hknown keeps => exact .inr ⟨_, by rw [keeps.actionNumber]; exact hknown⟩
      | action hnew hroom keeps =>
        exact .inr ⟨_, by rw [keeps.actionNumber, actionNumber_numbered hroom, if_pos rfl]⟩
    · exact .inl (List.mem_append_right first hmem)
  · rcases h.actions_cases with ⟨hnumber, -⟩ | ⟨j, -, -, -, hnumber, -⟩
    · exact .inr ⟨n, by rw [hnumber, hn]⟩
    · rw [ActionKnown, hnumber]
      split_ifs
      · exact .inr ⟨_, rfl⟩
      · exact .inr ⟨n, hn⟩

theorem not_seal_mem_valueTasks (i : Instance) (node : GraphNode) (j : Instance) : Task.seal j ∉ valueTasks i node := by
  simp [valueTasks]

/-- What every step keeps, the walk keeps. -/
theorem walk_induction (inv : List Task → Registry → Prop)
    (hstep : ∀ task tasks r first r', inv (task :: tasks) r → r.step src bound task = .ok (first, r') →
      inv (first ++ tasks) r')
    {fuel : Nat} (h : walk src bound fuel tasks r = .ok r') (hinv : inv tasks r) : inv [] r' := by
  induction fuel generalizing tasks r with
  | zero =>
    cases tasks with
    | nil => exact Except.ok.inj h ▸ hinv
    | cons => cases h
  | succ fuel ih =>
    cases tasks with
    | nil => exact Except.ok.inj h ▸ hinv
    | cons task tasks =>
      rw [walk] at h
      split at h
      next => cases h
      next first next htask => exact ih h (hstep _ _ _ _ _ hinv htask)

theorem walk_invariant (inv : List Task → Registry → Prop)
    (hstep : ∀ task tasks r first r', inv (task :: tasks) r → Taken src bound r r' task first → inv (first ++ tasks) r')
    {fuel : Nat} (h : walk src bound fuel tasks r = .ok r') (hinv : inv tasks r) : inv [] r' :=
  walk_induction inv (fun _ _ _ _ _ hinv htask => hstep _ _ _ _ _ hinv (step_taken htask)) h hinv

end Registry

end BehaviorTree
