import BehaviorTree.Compile.Basic
import BehaviorTree.Proofs.Compile.Likeness
import BehaviorTree.Proofs.Compile.Renumbering

/-! Recompilation. Two compilations of the same graphs under different numbers go through the same instances in the
same order, as long as the numbers tell graphs and paths apart: whatever one registry knows of an instance, the other
one knows of it under its other key. So the two programs are equal, and so is what is reported. -/

namespace BehaviorTree

open Registry Refusal

/-- Two lists that are made in two ways of the same items. -/
def Twins {α β : Type} (ok : α → Prop) (f g : α → β) (xs ys : List β) : Prop :=
  ∃ items : List α, (∀ a ∈ items, ok a) ∧ xs = items.map f ∧ ys = items.map g

namespace Twins

variable {α β : Type} {ok : α → Prop} {f g : α → β} {xs ys xs' ys' : List β}

theorem nil : Twins ok f g [] [] :=
  ⟨[], by simp, rfl, rfl⟩

theorem singleton {a : α} (h : ok a) : Twins ok f g [f a] [g a] :=
  ⟨[a], by simpa using h, rfl, rfl⟩

theorem symm (h : Twins ok f g xs ys) : Twins ok g f ys xs := by
  obtain ⟨items, hok, hxs, hys⟩ := h
  exact ⟨items, hok, hys, hxs⟩

theorem append (h : Twins ok f g xs ys) (h' : Twins ok f g xs' ys') : Twins ok f g (xs ++ xs') (ys ++ ys') := by
  obtain ⟨items, hok, rfl, rfl⟩ := h
  obtain ⟨items', hok', rfl, rfl⟩ := h'
  refine ⟨items ++ items', fun a ha => ?_, (List.map_append ..).symm, (List.map_append ..).symm⟩
  exact (List.mem_append.mp ha).elim (hok a) (hok' a)

/-- One more item behind the others. -/
theorem push {xs ys : Array β} (h : Twins ok f g xs.toList ys.toList) {a : α} (ha : ok a) :
    Twins ok f g (xs.push (f a)).toList (ys.push (g a)).toList := by
  rw [Array.toList_push, Array.toList_push]
  exact h.append (singleton ha)

theorem size_eq {xs ys : Array β} (h : Twins ok f g xs.toList ys.toList) : xs.size = ys.size := by
  obtain ⟨items, -, hxs, hys⟩ := h
  rw [← Array.length_toList, ← Array.length_toList, hxs, hys, List.length_map, List.length_map]

theorem forall₂ (h : Twins ok f g xs ys) {rel : β → β → Prop} (hrel : ∀ a, ok a → rel (f a) (g a)) :
    List.Forall₂ rel xs ys := by
  obtain ⟨items, hok, rfl, rfl⟩ := h
  rw [List.forall₂_map_left_iff, List.forall₂_map_right_iff, List.forall₂_same]
  exact fun a ha => hrel a (hok a ha)

end Twins

variable {src : Sources} {ρ ρ' : GraphId → GraphId}

/-- The instance is on a path of calls that are there. -/
def Instance.Placed (src : Sources) (i : Instance) : Prop :=
  i.path.Valid src.library src.entry

/-- The numbers tell graphs apart, and no two paths of calls have the same hash under them. -/
structure Sources.Separates (src : Sources) (ρ : GraphId → GraphId) : Prop where
  injective : Function.Injective ρ
  distinct : CallPath.Distinct (src.renumber ρ).library (src.renumber ρ).entry

namespace Sources.Separates

variable (sep : src.Separates ρ)

include sep

/-- Instances have the same key only if they are the same. -/
theorem key_eq_iff {i j : Instance} (hi : i.Placed src) (hj : j.Placed src) :
    (i.renumber ρ).key = (j.renumber ρ).key ↔ i = j := by
  constructor
  · intro h
    have hvalid {i : Instance} (hi : i.Placed src) : (i.renumber ρ).Placed (src.renumber ρ) :=
      CallPath.Valid.renumber sep.injective hi
    have hsame := Instance.eq_of_key sep.distinct (hvalid hi) (hvalid hj) h
    obtain ⟨hpath, hnode⟩ := Instance.mk.inj hsame
    obtain ⟨path, node⟩ := i
    obtain ⟨path', node'⟩ := j
    rw [Instance.mk.injEq]
    exact ⟨hi.renumber_inj sep.injective hj hpath, hnode⟩
  · rintro rfl
    rfl

theorem visited_eq_iff {id id' : GraphId} {node node' : Nat} :
    ((ρ id, node) : GraphId × Nat) = (ρ id', node') ↔ id = id' ∧ node = node' := by
  rw [Prod.mk.injEq, sep.injective.eq_iff]

end Sources.Separates

namespace Task

def renumber (ρ : GraphId → GraphId) : Task → Task
  | action i => .action (i.renumber ρ)
  | flow spot => .flow (spot.renumber ρ)
  | value spot => .value (spot.renumber ρ)
  | operator i => .operator (i.renumber ρ)
  | «seal» i => .seal (i.renumber ρ)

/-- The task is about something on a path of calls that are there. -/
def Placed (src : Sources) : Task → Prop
  | action i | operator i | «seal» i => i.Placed src
  | flow spot | value spot => spot.path.Valid src.library src.entry

end Task

namespace Registry

variable {r r' : Registry}

/-- Two registries that know the same of every instance, each under its own numbers. -/
structure Alike (src : Sources) (ρ ρ' : GraphId → GraphId) (r r' : Registry) : Prop where
  actions : ∀ i : Instance, i.Placed src → r.actions[(i.renumber ρ).key]? = r'.actions[(i.renumber ρ').key]?
  actionOrder : Twins (Instance.Placed src) (·.renumber ρ) (·.renumber ρ') r.actionOrder.toList r'.actionOrder.toList
  operators : ∀ i : Instance, i.Placed src → r.operators[(i.renumber ρ).key]? = r'.operators[(i.renumber ρ').key]?
  operatorOrder :
    Twins (Instance.Placed src) (·.renumber ρ) (·.renumber ρ') r.operatorOrder.toList r'.operatorOrder.toList
  inProgress : ∀ i : Instance, i.Placed src → ((i.renumber ρ).key ∈ r.inProgress ↔ (i.renumber ρ').key ∈ r'.inProgress)
  types : r.types = r'.types
  lookups : r.lookups = r'.lookups
  visited : ∀ id node, (ρ id, node) ∈ r.visited ↔ (ρ' id, node) ∈ r'.visited
  graphs : Twins (fun _ => True) ρ ρ' r.graphs.toList r'.graphs.toList
  errors : r.errors = r'.errors
  warnings : r.warnings = r'.warnings

namespace Alike

theorem symm (alike : Alike src ρ ρ' r r') : Alike src ρ' ρ r' r where
  actions i hi := (alike.actions i hi).symm
  actionOrder := alike.actionOrder.symm
  operators i hi := (alike.operators i hi).symm
  operatorOrder := alike.operatorOrder.symm
  inProgress i hi := (alike.inProgress i hi).symm
  types := alike.types.symm
  lookups := alike.lookups.symm
  visited id node := (alike.visited id node).symm
  graphs := alike.graphs.symm
  errors := alike.errors.symm
  warnings := alike.warnings.symm

theorem start (src : Sources) (ρ ρ' : GraphId → GraphId) : Alike src ρ ρ' (.start (ρ src.entry)) (.start (ρ' src.entry)) where
  actions i _ := by simp [Registry.start]
  actionOrder := .nil
  operators i _ := by simp [Registry.start]
  operatorOrder := .nil
  inProgress i _ := by simp [Registry.start]
  types := rfl
  lookups := rfl
  visited id node := by simp [Registry.start]
  graphs := .singleton trivial
  errors := rfl
  warnings := rfl

theorem addError (alike : Alike src ρ ρ' r r') (e : CompileError) : Alike src ρ ρ' (r.addError e) (r'.addError e) :=
  { alike with errors := congrArg (Array.push · e) alike.errors }

theorem addErrors {α : Type} (alike : Alike src ρ ρ' r r') (e : α → CompileError) (items : List α) :
    Alike src ρ ρ' (items.foldl (fun r a => r.addError (e a)) r) (items.foldl (fun r a => r.addError (e a)) r') := by
  induction items generalizing r r' with
  | nil => exact alike
  | cons a items ih => exact ih (alike.addError (e a))

theorem noteType (alike : Alike src ρ ρ' r r') (component : String) :
    Alike src ρ ρ' (r.noteType (src.renumber ρ) component) (r'.noteType (src.renumber ρ') component) := by
  unfold Registry.noteType
  have hcatalog (ρ : GraphId → GraphId) : (src.renumber ρ).catalog = src.catalog := rfl
  rw [hcatalog, hcatalog]
  split_ifs
  · exact { alike with types := congrArg (·.insert component) alike.types }
  · exact alike

theorem noteLookup (alike : Alike src ρ ρ' r r') (site : Location) (lookup : UInt16) (component : String) :
    Alike src ρ ρ' (r.noteLookup (src.renumber ρ) site lookup component)
      (r'.noteLookup (src.renumber ρ') site lookup component) := by
  unfold Registry.noteLookup
  have hcatalog (ρ : GraphId → GraphId) : (src.renumber ρ).catalog = src.catalog := rfl
  rw [hcatalog, hcatalog, ← alike.lookups]
  split_ifs
  · exact alike
  · split
    · split_ifs
      · exact alike
      · exact alike.addError _
    · exact { alike with lookups := rfl }

theorem noteAction (alike : Alike src ρ ρ' r r') (role : Role) :
    Alike src ρ ρ' (r.noteAction (src.renumber ρ) (role.renumber ρ))
      (r'.noteAction (src.renumber ρ') (role.renumber ρ')) := by
  rcases role with a | op | callee | - | -
  · cases a with
    | writeField component => exact alike.noteType component
    | _ => exact alike
  all_goals exact alike

theorem noteOperator (alike : Alike src ρ ρ' r r') (site : Location) (role : Role) :
    Alike src ρ ρ' (r.noteOperator (src.renumber ρ) site (role.renumber ρ))
      (r'.noteOperator (src.renumber ρ') site (role.renumber ρ')) := by
  rcases role with a | op | callee | - | -
  · exact alike
  · cases op with
    | readField component field => exact alike.noteType component
    | lookupField lookup component field => exact alike.noteLookup site lookup component
    | _ => exact alike
  all_goals exact alike

section

variable (sep : src.Separates ρ) (sep' : src.Separates ρ')

include sep sep'

/-- A graph that is met for the first time is so under both numbers. -/
theorem visit (alike : Alike src ρ ρ' r r') (id : GraphId) (node : Nat) :
    Alike src ρ ρ' (r.visit (ρ id) node) (r'.visit (ρ' id) node) := by
  refine { alike with visited := fun id' node' => ?_, graphs := ?_ }
  · simp only [Registry.visit, Std.HashSet.mem_insert, beq_iff_eq, sep.visited_eq_iff, sep'.visited_eq_iff,
      alike.visited]
  · obtain ⟨ids, -, hr, hr'⟩ := alike.graphs
    have hseen {ρ : GraphId → GraphId} (inj : Function.Injective ρ) {graphs : Array GraphId}
        (h : graphs.toList = ids.map ρ) : graphs.contains (ρ id) = decide (id ∈ ids) := by
      rw [Bool.eq_iff_iff, Array.contains_iff_mem, ← Array.mem_toList_iff, h, List.mem_map_of_injective inj,
        decide_eq_true_eq]
    simp only [Registry.visit, hseen sep.injective hr, hseen sep'.injective hr']
    split_ifs
    · exact alike.graphs
    · exact alike.graphs.push trivial

theorem visitNode (alike : Alike src ρ ρ' r r') (i : Instance) :
    Alike src ρ ρ' (r.visit (i.renumber ρ).path.graph i.node) (r'.visit (i.renumber ρ').path.graph i.node) := by
  simp only [Instance.renumber, CallPath.graph_renumber]
  exact alike.visit sep sep' i.path.graph i.node

theorem absorb (alike : Alike src ρ ρ' r r') (trail : Trail) :
    Alike src ρ ρ' (r.absorb (trail.renumber ρ)) (r'.absorb (trail.renumber ρ')) := by
  have hvisits (visits : List (GraphId × Nat)) {r r' : Registry} (alike : Alike src ρ ρ' r r') :
      Alike src ρ ρ' ((visits.map (Prod.map ρ id)).foldl (fun r seen => r.visit seen.1 seen.2) r)
        ((visits.map (Prod.map ρ' id)).foldl (fun r seen => r.visit seen.1 seen.2) r') := by
    induction visits generalizing r r' with
    | nil => exact alike
    | cons seen visits ih => exact ih (alike.visit sep sep' seen.1 seen.2)
  have hall := hvisits trail.visits alike
  exact { hall with
    errors := congrArg (fun errors : Array CompileError => errors ++ trail.errors) hall.errors
    warnings := congrArg (fun warnings : Array CompileWarning => warnings ++ trail.warnings) hall.warnings }

theorem numbered (alike : Alike src ρ ρ' r r') {i : Instance} (hi : i.Placed src) :
    Alike src ρ ρ' (r.numbered (i.renumber ρ)) (r'.numbered (i.renumber ρ')) := by
  refine { alike with actions := fun j hj => ?_, actionOrder := alike.actionOrder.push hi }
  simp only [Registry.numbered, Std.HashMap.getElem?_insert, beq_iff_eq, sep.key_eq_iff hi hj, sep'.key_eq_iff hi hj,
    alike.actions j hj, alike.actionOrder.size_eq]

theorem opened (alike : Alike src ρ ρ' r r') {i : Instance} (hi : i.Placed src) :
    Alike src ρ ρ' (r.opened (i.renumber ρ)) (r'.opened (i.renumber ρ')) := by
  refine { alike with inProgress := fun j hj => ?_ }
  simp only [Registry.opened, Std.HashSet.mem_insert, beq_iff_eq, sep.key_eq_iff hi hj, sep'.key_eq_iff hi hj,
    alike.inProgress j hj]

theorem sealed (alike : Alike src ρ ρ' r r') {i : Instance} (hi : i.Placed src) :
    Alike src ρ ρ' (r.sealed (i.renumber ρ)) (r'.sealed (i.renumber ρ')) := by
  refine { alike with
    operators := fun j hj => ?_, operatorOrder := alike.operatorOrder.push hi, inProgress := fun j hj => ?_ }
  · simp only [Registry.sealed, Std.HashMap.getElem?_insert, beq_iff_eq, sep.key_eq_iff hi hj,
      sep'.key_eq_iff hi hj, alike.operators j hj, alike.operatorOrder.size_eq]
  · simp only [Registry.sealed, Std.HashSet.mem_erase, beq_eq_false_iff_ne, ne_eq, sep.key_eq_iff hi hj,
      sep'.key_eq_iff hi hj, alike.inProgress j hj]

end

end Alike

/-! ### The walk -/

/-- The next tasks, and what is known then. -/
def OutcomeAlike (src : Sources) (ρ ρ' : GraphId → GraphId) (out out' : List Task × Registry) : Prop :=
  Twins (Task.Placed src) (·.renumber ρ) (·.renumber ρ') out.1 out'.1 ∧ Alike src ρ ρ' out.2 out'.2

theorem roots_renumber (inj : Function.Injective ρ) : roots (src.renumber ρ) = roots src := by
  unfold roots
  simp only [Sources.renumber, Library.graph_renumber inj, Graph.size_nodes_renumber, Graph.node_renumber,
    GraphNode.role_renumber, Role.renumber_eq_action]

theorem valueTasks_alike {i : Instance} (hi : i.Placed src) (node : GraphNode) :
    Twins (Task.Placed src) (·.renumber ρ) (·.renumber ρ') (valueTasks (i.renumber ρ) node)
      (valueTasks (i.renumber ρ') node) := by
  refine ⟨valueTasks i node, fun task htask => ?_, ?_, ?_⟩
  · obtain ⟨port, -, rfl⟩ := List.mem_map.mp htask
    exact hi
  all_goals
    rw [valueTasks, valueTasks, List.map_map]
    rfl

theorem flowTasks_alike {i : Instance} (hi : i.Placed src) (node : GraphNode) :
    Twins (Task.Placed src) (·.renumber ρ) (·.renumber ρ') (flowTasks (i.renumber ρ) node)
      (flowTasks (i.renumber ρ') node) := by
  refine ⟨flowTasks i node, fun task htask => ?_, ?_, ?_⟩
  · obtain ⟨port, -, rfl⟩ := List.mem_map.mp htask
    exact hi
  all_goals
    rw [flowTasks, flowTasks, List.map_map]
    rfl

section

variable (sep : src.Separates ρ) (sep' : src.Separates ρ') (alike : Alike src ρ ρ' r r') {i : Instance}
  (hi : i.Placed src)

include sep sep' alike hi

theorem registerAction_alike : Agree (OutcomeAlike src ρ ρ')
    (r.registerAction (src.renumber ρ) (i.renumber ρ)) (r'.registerAction (src.renumber ρ') (i.renumber ρ')) := by
  have hknown : r.actions.contains (i.renumber ρ).key = r'.actions.contains (i.renumber ρ').key := by
    rw [← Std.HashMap.isSome_getElem?_eq_contains, ← Std.HashMap.isSome_getElem?_eq_contains, alike.actions i hi]
  have hnode {ρ : GraphId → GraphId} (sep : src.Separates ρ) :
      (i.renumber ρ).graphNode (src.renumber ρ).library = (i.graphNode src.library).renumber ρ :=
    Instance.graphNode_renumber sep.injective i
  unfold registerAction
  rw [hknown, alike.actionOrder.size_eq, hnode sep, hnode sep']
  split
  · exact .ok ⟨.nil, alike⟩
  · dsimp only
    split_ifs
    · exact .error _
    · have visited := (alike.numbered sep sep' hi).visitNode sep sep' i
      rw [Registry.numbered, Registry.numbered, alike.actionOrder.size_eq] at visited
      exact .ok ⟨(flowTasks_alike hi _).append (valueTasks_alike hi _), visited.noteAction _⟩

theorem registerOperator_alike : OutcomeAlike src ρ ρ'
    (r.registerOperator (src.renumber ρ) (i.renumber ρ)) (r'.registerOperator (src.renumber ρ') (i.renumber ρ')) := by
  have hknown : r.operators.contains (i.renumber ρ).key = r'.operators.contains (i.renumber ρ').key := by
    rw [← Std.HashMap.isSome_getElem?_eq_contains, ← Std.HashMap.isSome_getElem?_eq_contains, alike.operators i hi]
  have hopen : r.inProgress.contains (i.renumber ρ).key = r'.inProgress.contains (i.renumber ρ').key := by
    rw [Bool.eq_iff_iff]
    exact alike.inProgress i hi
  have hnode {ρ : GraphId → GraphId} (sep : src.Separates ρ) :
      (i.renumber ρ).graphNode (src.renumber ρ).library = (i.graphNode src.library).renumber ρ :=
    Instance.graphNode_renumber sep.injective i
  have hsite {ρ : GraphId → GraphId} (sep : src.Separates ρ) :
      ((i.renumber ρ).graph (src.renumber ρ).library).location (i.renumber ρ).node =
        (i.graph src.library).location i.node := by
    rw [Sources.renumber, Instance.graph_renumber sep.injective, Graph.location_renumber]
    rfl
  unfold registerOperator
  rw [hknown, hopen, hnode sep, hnode sep', hsite sep, hsite sep']
  split
  · exact ⟨.nil, alike⟩
  · dsimp only
    split
    · exact ⟨.nil, alike.addError _⟩
    · have visited := (alike.opened sep sep' hi).visitNode sep sep' i
      exact ⟨(valueTasks_alike hi _).append (@Twins.singleton _ _ (Task.Placed src) (·.renumber ρ) (·.renumber ρ') (.seal i) hi), visited.noteOperator _ _⟩

theorem sealOperator_alike :
    Agree (Alike src ρ ρ') (r.sealOperator (i.renumber ρ)) (r'.sealOperator (i.renumber ρ')) := by
  unfold sealOperator
  dsimp only
  rw [alike.operatorOrder.size_eq]
  split_ifs
  · exact .error _
  · have sealed := alike.sealed sep sep' hi
    rw [Registry.sealed, Registry.sealed, alike.operatorOrder.size_eq] at sealed
    exact .ok sealed

end

section

variable (sep : src.Separates ρ) (sep' : src.Separates ρ')

include sep sep'

/-- One task is refused under both numbers, or leads on alike. -/
theorem step_alike (bound : Nat) (alike : Alike src ρ ρ' r r') {task : Task} (htask : task.Placed src) :
    Agree (OutcomeAlike src ρ ρ') (r.step (src.renumber ρ) bound (task.renumber ρ))
      (r'.step (src.renumber ρ') bound (task.renumber ρ')) := by
  cases task with
  | action i => exact registerAction_alike sep sep' alike htask
  | operator i => exact .ok (registerOperator_alike sep sep' alike htask)
  | «seal» i => exact (sealOperator_alike sep sep' alike htask).map fun _ _ alike => ⟨.nil, alike⟩
  | flow spot =>
    have hflow {ρ : GraphId → GraphId} (sep : src.Separates ρ) :
        (src.library.renumber ρ).flowTarget bound (spot.renumber ρ) = _ :=
      Library.flowTarget_renumber sep.injective bound spot
    simp only [step, Task.renumber, Sources.renumber, hflow sep, hflow sep']
    cases hends : src.library.flowTarget bound spot with
    | error e => exact .error e
    | ok found =>
      obtain ⟨target, trail⟩ := found
      refine .ok ⟨⟨target.toList.map .action, fun task htarget => ?_, ?_, ?_⟩, alike.absorb sep sep' trail⟩
      · obtain ⟨j, hj, rfl⟩ := List.mem_map.mp htarget
        obtain rfl := Option.mem_toList.mp hj
        exact (Spot.EndsFlow.action htask (Spot.ends_of_follow hends)).1
      all_goals cases target <;> rfl
  | value spot =>
    have hvalue {ρ : GraphId → GraphId} (sep : src.Separates ρ) :
        (src.library.renumber ρ).valueSource bound (spot.renumber ρ) = _ :=
      Library.valueSource_renumber sep.injective bound spot
    simp only [step, Task.renumber, Sources.renumber, hvalue sep, hvalue sep']
    cases hends : src.library.valueSource bound spot with
    | error e => exact .error e
    | ok found =>
      obtain ⟨source, trail⟩ := found
      have absorbed := alike.absorb sep sep' trail
      rcases source with - | j | value
      · exact .ok ⟨.nil, absorbed⟩
      · have hj : j.Placed src := (Spot.EndsValue.operator htask (Spot.ends_of_follow hends)).1
        exact .ok ⟨Twins.singleton (a := Task.operator j) hj, absorbed⟩
      · exact .ok ⟨.nil, absorbed⟩

/-- The walks go on alike until both are done. -/
theorem walk_alike (bound : Nat) {tasks tasks' : List Task}
    (htasks : Twins (Task.Placed src) (·.renumber ρ) (·.renumber ρ') tasks tasks')
    (alike : Alike src ρ ρ' r r') (fuel : Nat) :
    Agree (Alike src ρ ρ') (walk (src.renumber ρ) bound fuel tasks r) (walk (src.renumber ρ') bound fuel tasks' r') := by
  obtain ⟨items, hplaced, rfl, rfl⟩ := htasks
  induction fuel generalizing items r r' with
  | zero =>
    cases items with
    | nil => exact .ok alike
    | cons => exact .error _
  | succ fuel ih =>
    cases items with
    | nil => exact .ok alike
    | cons task items =>
      have hstep := step_alike sep sep' bound alike (hplaced task List.mem_cons_self)
      simp only [List.map_cons, walk]
      generalize r.step (src.renumber ρ) bound (task.renumber ρ) = out at hstep ⊢
      generalize r'.step (src.renumber ρ') bound (task.renumber ρ') = out' at hstep ⊢
      cases hstep with
      | error e => exact .error e
      | ok outcome =>
        obtain ⟨⟨first, hfirst, hout, hout'⟩, alike⟩ := outcome
        have hall : ∀ task ∈ first ++ items, task.Placed src := fun task htask =>
          (List.mem_append.mp htask).elim (hfirst task) fun h => hplaced task (List.mem_cons_of_mem _ h)
        have hwalk := ih alike (first ++ items) hall
        simp only [List.map_append, ← hout, ← hout'] at hwalk
        exact hwalk

/-- Registration fails under both numbers, or ends alike. -/
theorem build_alike (built : src.library.Built) (hentry : src.entry < src.library.size) :
    Agree (Alike src ρ ρ') (build (src.renumber ρ)) (build (src.renumber ρ')) := by
  have hgraph {ρ : GraphId → GraphId} (sep : src.Separates ρ) :
      (src.renumber ρ).library.graph (src.renumber ρ).entry = (src.library.graph src.entry).renumber ρ :=
    Library.graph_renumber sep.injective src.entry
  have hbound {ρ : GraphId → GraphId} (sep : src.Separates ρ) :
      (src.renumber ρ).library.wireBound (src.renumber ρ).entry = src.library.wireBound src.entry :=
    Library.wireBound_renumber built sep.injective hentry
  have hfuel {ρ : GraphId → GraphId} (sep : src.Separates ρ) : taskBound (src.renumber ρ) = taskBound src := by
    rw [taskBound, taskBound, Sources.maxPorts_renumber sep.injective]
  have alike := Alike.start src ρ ρ'
  unfold build
  simp only [hgraph sep, hgraph sep', hbound sep, hbound sep', hfuel sep, hfuel sep',
    roots_renumber sep.injective, roots_renumber sep'.injective, Graph.name_renumber, Graph.location_renumber]
  cases roots src with
  | nil => exact .ok (alike.addError _)
  | cons root others =>
    refine walk_alike sep sep' _ ?_ (alike.addErrors _ others) _
    exact Twins.singleton (a := Task.action ⟨.start src.entry, root⟩) CallPath.Valid.start

omit sep sep' in
theorem unreached_alike (inj : Function.Injective ρ) (inj' : Function.Injective ρ') (alike : Alike src ρ ρ' r r') :
    r.unreached (src.renumber ρ) = r'.unreached (src.renumber ρ') := by
  obtain ⟨ids, -, hr, hr'⟩ := alike.graphs
  have hvisited (id : GraphId) (node : Nat) : r.visited.contains (ρ id, node) = r'.visited.contains (ρ' id, node) := by
    rw [Bool.eq_iff_iff]
    exact alike.visited id node
  simp only [unreached, hr, hr', List.flatMap_map, Sources.renumber, Library.graph_renumber inj,
    Library.graph_renumber inj', Graph.size_nodes_renumber, Graph.node_renumber, GraphNode.role_renumber,
    Role.isBoundary_renumber, Graph.location_renumber, hvisited]

end

end Registry

/-! ### Emission -/

theorem GraphNode.resembles_renumber (ρ ρ' : GraphId → GraphId) (node : GraphNode) :
    (node.renumber ρ).Resembles (node.renumber ρ') := by
  refine ⟨?_, rfl⟩
  rw [GraphNode.role_renumber, GraphNode.role_renumber]
  cases node.role with
  | call callee => exact .call _ _
  | _ => exact .same _

theorem Emit.trailed_renumber {α β : Type} (ρ : GraphId → GraphId) (f : α → β) (lookup : Except Fault (α × Trail)) :
    Emit.trailed (lookup.map (Prod.map f (Trail.renumber ρ))) = f <$> Emit.trailed lookup := by
  cases lookup <;> rfl

/-- What a flow port runs is on a path of calls that are there. -/
theorem Instance.Placed.flowTarget {i : Instance} (hi : i.Placed src) (bound port : Nat) :
    (Emit.trailed (src.library.flowTarget bound (i.spot port))).Returns fun target =>
      ∀ j, target = some j → j.Placed src := by
  intro d target d' hrun
  obtain ⟨trail, h⟩ := Emit.Returns.trailed _ d target d' hrun
  rintro j rfl
  have valid : (i.spot port).path.Valid src.library src.entry := hi
  exact (Spot.EndsFlow.action valid (Spot.ends_of_follow h)).1

/-- An operator that feeds a value port is on a path of calls that are there. -/
theorem Instance.Placed.valueSource {i : Instance} (hi : i.Placed src) (bound port : Nat) :
    (Emit.trailed (src.library.valueSource bound (i.spot port))).Returns fun source =>
      ∀ j, source = some (.operator j) → j.Placed src := by
  intro d source d' hrun
  obtain ⟨trail, h⟩ := Emit.Returns.trailed _ d source d' hrun
  rintro j rfl
  have valid : (i.spot port).path.Valid src.library src.entry := hi
  exact (Spot.EndsValue.operator valid (Spot.ends_of_follow h)).1

/-- Two plans for the same sources under different numbers, from registries that know the same. -/
structure Plan.Alike (src : Sources) (ρ ρ' : GraphId → GraphId) (plan plan' : Plan) : Prop where
  sources : plan.src = src.renumber ρ
  sources' : plan'.src = src.renumber ρ'
  injective : Function.Injective ρ
  injective' : Function.Injective ρ'
  bound : plan.bound = plan'.bound
  registry : Registry.Alike src ρ ρ' plan.registry plan'.registry
  typeNames : plan.typeNames = plan'.typeNames

namespace Plan.Alike

variable {plan plan' : Plan} {i : Instance}

theorem symm (alike : Alike src ρ ρ' plan plan') : Alike src ρ' ρ plan' plan :=
  ⟨alike.sources', alike.sources, alike.injective', alike.injective, alike.bound.symm, alike.registry.symm,
    alike.typeNames.symm⟩

variable (alike : Alike src ρ ρ' plan plan')

include alike

theorem node (i : Instance) : plan.node (i.renumber ρ) = (i.graphNode src.library).renumber ρ := by
  rw [Plan.node, alike.sources]
  exact Instance.graphNode_renumber alike.injective i

theorem location (i : Instance) : plan.location (i.renumber ρ) = (i.graph src.library).location i.node := by
  rw [Plan.location, alike.sources, Sources.renumber, Instance.graph_renumber alike.injective, Graph.location_renumber]
  rfl

theorem flowTarget (i : Instance) (port : Nat) : plan.flowTarget (i.renumber ρ) port =
    Option.map (Instance.renumber ρ) <$> Emit.trailed (src.library.flowTarget plan.bound (i.spot port)) := by
  rw [Plan.flowTarget, alike.sources, ← Emit.trailed_renumber ρ]
  exact congrArg Emit.trailed (Library.flowTarget_renumber alike.injective plan.bound (i.spot port))

theorem valueSource (i : Instance) (port : Nat) :
    Emit.trailed (plan.src.library.valueSource plan.bound ((i.renumber ρ).spot port)) =
      Option.map (ValueSource.renumber ρ) <$> Emit.trailed (src.library.valueSource plan.bound (i.spot port)) := by
  rw [alike.sources, ← Emit.trailed_renumber ρ]
  exact congrArg Emit.trailed (Library.valueSource_renumber alike.injective plan.bound (i.spot port))

section

variable (hi : i.Placed src)

include hi

theorem sameTarget : plan.SameTarget plan' (i.renumber ρ) (i.renumber ρ') where
  node := by
    rw [alike.node, alike.symm.node]
    exact (i.graphNode src.library).resembles_renumber ρ ρ'
  location := (alike.location i).trans (alike.symm.location i).symm
  nodeId := by simp only [Plan.nodeId, Std.HashMap.getD_eq_getD_getElem?, alike.registry.actions i hi]

theorem flowTarget_agree (port : Nat) : Emit.Agree (Option.Rel (plan.SameTarget plan'))
    (plan.flowTarget (i.renumber ρ) port) (plan'.flowTarget (i.renumber ρ') port) := by
  rw [alike.flowTarget, alike.symm.flowTarget, alike.bound]
  refine Emit.Returns.agree fun d target d' hrun => ?_
  have htarget := hi.flowTarget plan'.bound port d target d' hrun
  cases target with
  | none => exact .none
  | some j => exact .some (alike.sameTarget (htarget j rfl))

theorem valueSource_agree (port : Nat) : Emit.Agree (Option.Rel (plan.SameSource plan'))
    (Emit.trailed (plan.src.library.valueSource plan.bound ((i.renumber ρ).spot port)))
    (Emit.trailed (plan'.src.library.valueSource plan'.bound ((i.renumber ρ').spot port))) := by
  rw [alike.valueSource, alike.symm.valueSource, alike.bound]
  refine Emit.Returns.agree fun d source d' hrun => ?_
  have hsource := hi.valueSource plan'.bound port d source d' hrun
  rcases source with - | j | value
  · exact .none
  · exact .some (.operator (alike.registry.operators j (hsource j rfl)))
  · exact .some (.constant value)

theorem sameOperands : plan.SameOperands plan' (i.renumber ρ) (i.renumber ρ') where
  node := (alike.sameTarget hi).node
  location := (alike.sameTarget hi).location
  valueSource := alike.valueSource_agree hi

theorem sameAction : plan.SameAction plan' (i.renumber ρ) (i.renumber ρ') where
  toSameOperands := alike.sameOperands hi
  debugId := by
    have hdebug {ρ : GraphId → GraphId} (inj : Function.Injective ρ) :
        (i.renumber ρ).debugId (src.renumber ρ).library = i.debugId src.library :=
      Instance.debugId_renumber inj i
    rw [alike.sources, alike.sources', hdebug alike.injective, hdebug alike.injective']
  instanceIds := by
    have hids {ρ : GraphId → GraphId} (inj : Function.Injective ρ) :
        (i.renumber ρ).path.instanceIds (src.renumber ρ).library = i.path.instanceIds src.library :=
      CallPath.instanceIds_renumber inj i.path
    rw [alike.sources, alike.sources', hids alike.injective, hids alike.injective']
  flowTarget := alike.flowTarget_agree hi

end

/-- Emission asks nothing that depends on the numbers. -/
theorem agrees : plan.Agrees plan' where
  catalog := by rw [alike.sources, alike.sources']; rfl
  blackboard := by rw [alike.sources, alike.sources']; rfl
  typeNames := alike.typeNames
  lookups := alike.registry.lookups
  actions := alike.registry.actionOrder.forall₂ fun _ hi => alike.sameAction hi
  operators := alike.registry.operatorOrder.forall₂ fun _ hi => alike.sameOperands hi

end Plan.Alike

namespace Sources

/-- Numbers that separate all graphs and paths lead to the same compilation. -/
theorem compile_eq_of_separates (built : src.library.Built) (hentry : src.entry < src.library.size)
    (sep : src.Separates ρ) (sep' : src.Separates ρ') : (src.renumber ρ).compile = (src.renumber ρ').compile := by
  have hbuild := build_alike sep sep' built hentry
  have hbound {ρ : GraphId → GraphId} (sep : src.Separates ρ) :
      (src.renumber ρ).library.wireBound (src.renumber ρ).entry = src.library.wireBound src.entry :=
    Library.wireBound_renumber built sep.injective hentry
  rw [compile, compile]
  generalize build (src.renumber ρ) = first at hbuild ⊢
  generalize build (src.renumber ρ') = second at hbuild ⊢
  cases hbuild with
  | error e =>
    have hstop {α β : Type} (next : α → Except Fault β) : (Except.error e >>= next) = .error e := rfl
    rw [hstop, hstop]
  | @ok r r' registry =>
    have alike : Plan.Alike src ρ ρ' (.ofRegistry (src.renumber ρ) r) (.ofRegistry (src.renumber ρ') r') :=
      ⟨rfl, rfl, sep.injective, sep'.injective, (hbound sep).trans (hbound sep').symm, registry,
        congrArg Std.TreeSet.toList registry.types⟩
    have hunreached := unreached_alike sep.injective sep'.injective registry
    have hnext {α β : Type} (a : α) (next : α → Except Fault β) : (Except.ok a >>= next) = next a := rfl
    simp only [hnext, alike.agrees.program, hunreached, registry.errors, registry.warnings]

/-- Numbers that tell the graphs of a library apart can be continued so that all numbers are told apart. -/
theorem exists_separates (built : src.library.Built) (hentry : src.entry < src.library.size)
    (inj : Set.InjOn ρ {id | id < src.library.size})
    (distinct : CallPath.Distinct (src.renumber ρ).library (src.renumber ρ).entry) :
    ∃ σ, src.renumber ρ = src.renumber σ ∧ src.Separates σ := by
  let σ (id : GraphId) : GraphId := if id < src.library.size then ρ id else src.library.extent ρ + id
  have hsame : src.renumber ρ = src.renumber σ := by
    have hσ : ∀ id < src.library.size, ρ id = σ id := fun id hid => (if_pos hid).symm
    rw [renumber, renumber, built.renumber_congr hσ, hσ src.entry hentry]
  have hnew {id id' : GraphId} (hid : id < src.library.size) : ρ id ≠ src.library.extent ρ + id' :=
    Nat.ne_of_lt ((Library.lt_extent hid).trans_le (Nat.le_add_right _ _))
  refine ⟨σ, hsame, fun id id' h => ?_, hsame ▸ distinct⟩
  simp only [σ] at h
  split_ifs at h with hid hid' hid'
  · exact inj hid hid' h
  · exact absurd h (hnew hid)
  · exact absurd h.symm (hnew hid')
  · exact Nat.add_left_cancel h

/-- The numbers of the graphs do not matter: a graph and those that it calls are compiled to the same program, with the
same errors and warnings, under any two numberings that tell the graphs apart, as long as no two paths of calls have
the same hash under either. -/
theorem compile_renumber (built : src.library.Built) (hentry : src.entry < src.library.size)
    (inj : Set.InjOn ρ {id | id < src.library.size}) (inj' : Set.InjOn ρ' {id | id < src.library.size})
    (distinct : CallPath.Distinct (src.renumber ρ).library (src.renumber ρ).entry)
    (distinct' : CallPath.Distinct (src.renumber ρ').library (src.renumber ρ').entry) :
    (src.renumber ρ).compile = (src.renumber ρ').compile := by
  obtain ⟨σ, hsame, sep⟩ := exists_separates built hentry inj distinct
  obtain ⟨σ', hsame', sep'⟩ := exists_separates built hentry inj' distinct'
  rw [hsame, hsame']
  exact compile_eq_of_separates built hentry sep sep'

theorem crossings_distinct_renumber (inj : Function.Injective ρ)
    (hhashes : ([CallPath.start 1, (CallPath.start 1).enter 2 0, (CallPath.start 1).enter 3 0].map
      fun path => (path.renumber ρ).hash).Nodup) :
    CallPath.Distinct (crossings.renumber ρ).library (crossings.renumber ρ).entry := by
  intro path path' valid valid' hsame
  obtain ⟨base, hbase, rfl⟩ := CallPath.exists_of_valid_renumber inj valid
  obtain ⟨base', hbase', rfl⟩ := CallPath.exists_of_valid_renumber inj valid'
  rw [List.inj_on_of_nodup_map hhashes (crossings_paths hbase) (crossings_paths hbase') hsame]

/-- It does not matter whether the crossing stands before its gate or far behind. -/
theorem compile_renumber_crossings : ∃ c, (crossings.renumber (· ^^^ 1)).compile = .ok c ∧
    (crossings.renumber (· + 7)).compile = .ok c ∧ c.errors = [] ∧ c.program.size = 7 := by
  have inj : Function.Injective fun id : GraphId => id ^^^ 1 := Nat.xor_left_injective
  have inj' : Function.Injective fun id : GraphId => id + 7 := add_left_injective 7
  have hhashes : ([CallPath.start 1, (CallPath.start 1).enter 2 0, (CallPath.start 1).enter 3 0].map
      fun path => (path.renumber (· ^^^ 1)).hash) = [0, 5411092459628516524, 11253188077664114124] := by cbv
  have hhashes' : ([CallPath.start 1, (CallPath.start 1).enter 2 0, (CallPath.start 1).enter 3 0].map
      fun path => (path.renumber (· + 7)).hash) = [0, 10571644030486658287, 768581835821512314] := by cbv
  have distinct := crossings_distinct_renumber inj (by rw [hhashes]; decide)
  have distinct' := crossings_distinct_renumber inj' (by rw [hhashes']; decide)
  have hid : crossings.renumber id = crossings := by cbv
  have same {ρ : GraphId → GraphId} (inj : Function.Injective ρ)
      (distinct : CallPath.Distinct (crossings.renumber ρ).library (crossings.renumber ρ).entry) :
      (crossings.renumber ρ).compile = .ok ⟨crossed, [], []⟩ := by
    rw [compile_renumber crossings_built (by decide) inj.injOn Function.injective_id.injOn distinct
      (hid.symm ▸ crossings_distinct), hid, crossings_compile]
  exact ⟨_, same inj distinct, same inj' distinct', rfl, rfl⟩

end Sources

end BehaviorTree
