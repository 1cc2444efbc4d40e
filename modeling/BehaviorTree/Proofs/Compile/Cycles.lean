import BehaviorTree.Proofs.Compile.Dependence
import BehaviorTree.Proofs.Compile.Errors

/-! Operators that depend on themselves. The walk of registration keeps the operators whose operands it is registering:
each of them depends on the next one, so that one that is met again is on a circle. Without a circle the operands of an
operator are numbered before it. -/

namespace BehaviorTree

open Relation

namespace Registry

variable {src : Sources} {bound : Nat} {r r' : Registry} {i j : Instance} {task : Task} {first tasks : List Task}

/-! ### What is open is a chain -/

/-- The task stems from the operands of the operator. -/
def Hangs (src : Sources) (i : Instance) : Task → Prop
  | .value spot => ∃ port ∈ (i.graphNode src.library).valueInputs, spot = i.spot port
  | .operator j | .seal j => DependsOn src.library i j
  | .action _ | .flow _ => False

/-- Every task before the seal of an operator stems from its operands, up to the next seal. -/
def Nested (src : Sources) : List Task → Prop
  | [] => True
  | task :: tasks => (∀ i ∈ (sealing tasks).head?, Hangs src i task) ∧ Nested src tasks

theorem Nested.append (nested : Nested src tasks) (hopen : sealing first = [])
    (hhangs : ∀ task ∈ first, ∀ i ∈ (sealing tasks).head?, Hangs src i task) : Nested src (first ++ tasks) := by
  induction first with
  | nil => exact nested
  | cons task first ih =>
    have hfirst : sealing first = [] := (List.append_eq_nil_iff.mp ((sealing_cons task first).symm.trans hopen)).2
    have hrest : sealing (first ++ tasks) = sealing tasks := by rw [sealing_append, hfirst, List.nil_append]
    refine ⟨fun i hi => hhangs task List.mem_cons_self i (hrest ▸ hi), ih hfirst fun next hnext => ?_⟩
    exact hhangs next (List.mem_cons_of_mem _ hnext)

/-- A step keeps this: what a task leads to stems from what it stems from itself. -/
theorem Nested.step (nested : Nested src (task :: tasks)) (h : Taken src bound r r' task first) :
    Nested src (first ++ tasks) := by
  obtain ⟨hhangs, nested⟩ := nested
  cases h with
  | actionAgain | operatorAgain | operatorOpen | finish => exact nested
  | @action i =>
    apply nested.append
    · rw [sealing_append, sealing_flowTasks, sealing_valueTasks, List.nil_append]
    · exact fun next _ i hi => (hhangs i hi).elim
  | flow =>
    apply nested.append
    · simp [sealing, sealing?]
    · exact fun next _ i hi => (hhangs i hi).elim
  | @value spot source trail hvalue =>
    refine nested.append (sealing_sourceTasks source) fun next hnext i hi => ?_
    obtain ⟨j, rfl, rfl⟩ := mem_sourceTasks.mp hnext
    obtain ⟨port, hport, rfl⟩ := hhangs i hi
    exact ⟨port, hport, Spot.EndsValue.draws (Spot.ends_of_follow hvalue)⟩
  | @operator i =>
    have nested : Nested src (.seal i :: tasks) := ⟨hhangs, nested⟩
    rw [List.append_assoc]
    refine nested.append (sealing_valueTasks i _) fun next hnext j hj => ?_
    obtain rfl : i = j := by simpa [sealing_cons, sealing?] using hj
    obtain ⟨port, hport, rfl⟩ := List.mem_map.mp hnext
    exact ⟨port, hport, rfl⟩

/-- All open operators depend on what the innermost one depends on. -/
theorem Nested.transGen (nested : Nested src tasks) (h : ∀ o ∈ (sealing tasks).head?, DependsOn src.library o i) :
    ∀ o ∈ sealing tasks, TransGen (DependsOn src.library) o i := by
  induction tasks generalizing i with
  | nil => simp [sealing]
  | cons task tasks ih =>
    obtain ⟨hhangs, nested⟩ := nested
    intro o ho
    rw [sealing_cons] at h ho
    cases task with
    | «seal» j =>
      have hj : DependsOn src.library j i := h j rfl
      obtain rfl | ho := List.mem_cons.mp ho
      · exact .single hj
      · exact (ih nested hhangs o ho).tail hj
    | _ => exact ih nested h o ho

/-! ### A reported circle is there -/

/-- An instance that is met depends on itself. -/
def Circular (src : Sources) : Prop :=
  ∃ i, src.Met i ∧ TransGen (DependsOn src.library) i i

/-- An operator that is met among its own operands depends on itself. -/
theorem circular_of_open (distinct : CallPath.Distinct src.library src.entry)
    (w : Walked src bound (.operator i :: tasks) r) (nested : Nested src (.operator i :: tasks))
    (hopen : i.key ∈ r.inProgress) : Circular src := by
  obtain ⟨o, ho, hkey⟩ := List.mem_map.mp (w.mem_sealing_of_open i rfl hopen)
  have hmet : src.Met i := (w.met (.operator i) List.mem_cons_self).1
  have hmetOpen : src.Met o := (w.met (.seal o) (List.mem_cons_of_mem _ (mem_sealing.mp ho))).1
  obtain rfl := Instance.eq_of_key distinct (valid_of_met hmetOpen).1 (valid_of_met hmet).1 hkey
  exact ⟨o, hmet, nested.2.transGen nested.1 o ho⟩

/-- A circle is reported. -/
def Reported (r : Registry) : Prop :=
  ∃ e ∈ r.errors, e.OfCycle

theorem circular_of_step (distinct : CallPath.Distinct src.library src.entry) (w : Walked src bound (task :: tasks) r)
    (nested : Nested src (task :: tasks)) (h : r.step src bound task = .ok (first, r')) (hold : r.Reported → Circular src)
    (hreported : r'.Reported) : Circular src := by
  obtain ⟨e, he, hcycle⟩ := hreported
  obtain he | he := (step_adds h).2 e he
  · exact hold ⟨e, he, hcycle⟩
  · cases he with
    | wire he => exact absurd hcycle he.not_ofCycle
    | conflict => cases hcycle
    | cycle hopen => exact circular_of_open distinct w nested hopen

/-! ### Without a report there is none -/

/-- What feeds the port has a smaller number. -/
def FedBelow (src : Sources) (bound : Nat) (r : Registry) (k : Nat) (spot : Spot) : Prop :=
  ∃ source trail, src.library.valueSource bound spot = .ok (source, trail) ∧
    ∀ i, source = some (.operator i) → ∃ n, r.operatorNumber i.key = some n ∧ n < k

/-- The operands of a numbered operator have smaller numbers, and those of an open one are known by what stands before
its seal. -/
structure Ranked (src : Sources) (bound : Nat) (tasks : List Task) (r : Registry) : Prop where
  operands : ∀ k i, r.operatorOrder[k]? = some i → ∀ port ∈ (i.graphNode src.library).valueInputs,
    FedBelow src bound r k (i.spot port)
  awaited : ∀ before i after, tasks = before ++ .seal i :: after →
    ∀ port ∈ (i.graphNode src.library).valueInputs, ValueFound src bound before r (i.spot port)

/-- The number of an operator is never lost. -/
theorem Walked.operatorNumber_mono (w : Walked src bound (task :: tasks) r) (h : Taken src bound r r' task first)
    {key : InstanceKey} {n : Nat} (hn : r.operatorNumber key = some n) : r'.operatorNumber key = some n := by
  obtain ⟨-, hsame, -⟩ | ⟨j, -, -, -, -, -, hsame, -⟩ | ⟨j, rfl, -, hroom, rfl⟩ := h.operators_cases tasks
  · rwa [hsame]
  · rwa [hsame]
  · have hnew := w.unsealed j (by simp)
    rw [operatorNumber_sealed hroom, if_neg]
    · exact hn
    · rintro rfl
      cases hnew.symm.trans hn

/-- The only seal that a step brings is that of an operator that it opens. -/
theorem Taken.first_of_seal (h : Taken src bound r r' task first) (hi : .seal i ∈ first) :
    first = valueTasks i (i.graphNode src.library) ++ [.seal i] := by
  cases h with
  | actionAgain | operatorAgain | operatorOpen | finish => cases hi
  | flow => simp at hi
  | value =>
    obtain ⟨j, -, hj⟩ := mem_sourceTasks.mp hi
    cases hj
  | action =>
    obtain hi | hi := List.mem_append.mp hi
    · simp [flowTasks] at hi
    · exact absurd hi (not_seal_mem_valueTasks _ _ _)
  | operator =>
    obtain hi | hi := List.mem_append.mp hi
    · exact absurd hi (not_seal_mem_valueTasks _ _ _)
    · obtain rfl := Task.seal.inj (List.mem_singleton.mp hi)
      rfl

section

variable (w : Walked src bound (task :: tasks) r) (ranked : Ranked src bound (task :: tasks) r)
  (h : Taken src bound r r' task first) (closed : ∀ i, task = .operator i → i.key ∉ r.inProgress)

include w ranked h

theorem Ranked.step_operands : ∀ k i, r'.operatorOrder[k]? = some i → ∀ port ∈ (i.graphNode src.library).valueInputs,
    FedBelow src bound r' k (i.spot port) := by
  intro k i hi port hport
  have hold (hmem : r.operatorOrder[k]? = some i) : FedBelow src bound r' k (i.spot port) := by
    obtain ⟨source, trail, hvalue, hbelow⟩ := ranked.operands k i hmem port hport
    refine ⟨source, trail, hvalue, fun j hj => ?_⟩
    obtain ⟨n, hn, hlt⟩ := hbelow j hj
    exact ⟨n, w.operatorNumber_mono h hn, hlt⟩
  obtain ⟨-, -, horder, -⟩ | ⟨j, -, -, -, -, -, -, horder, -⟩ | ⟨j, rfl, -, -, rfl⟩ := h.operators_cases tasks
  · exact hold (horder ▸ hi)
  · exact hold (horder ▸ hi)
  · change (r.operatorOrder.push j)[k]? = some i at hi
    rw [Array.getElem?_push] at hi
    split_ifs at hi with hk
    · -- nothing is left to do before the seal, so that the operands have numbers
      obtain rfl := Option.some.inj hi
      obtain hmem | ⟨source, trail, hvalue, hknown⟩ := ranked.awaited [] j tasks rfl port hport
      · cases hmem
      · refine ⟨source, trail, hvalue, fun operand hoperand => ?_⟩
        obtain ⟨n, hn, hlt⟩ := (hknown operand hoperand).numbered w.operators
        exact ⟨n, w.operatorNumber_mono h hn, hk ▸ hlt⟩
    · exact hold hi

include closed

omit w in
theorem Ranked.step_awaited : ∀ before i after, first ++ tasks = before ++ .seal i :: after →
    ∀ port ∈ (i.graphNode src.library).valueInputs, ValueFound src bound before r' (i.spot port) := by
  intro before i after hsplit port hport
  have hold {rest : List Task} (hrest : tasks = rest ++ .seal i :: after) :
      ValueFound src bound (first ++ rest) r' (i.spot port) := by
    refine (ranked.awaited (task :: rest) i after (by rw [hrest, List.cons_append]) port hport).step h ?_
    exact fun j hj hopen => absurd hopen (closed j hj)
  obtain ⟨rest, rfl, hrest⟩ | ⟨rest, rfl, hrest⟩ := List.append_eq_append_iff.mp hsplit
  · exact hold hrest
  · cases rest with
    | nil => simpa using hold (show tasks = [] ++ .seal i :: after from hrest.symm)
    | cons next rest =>
      obtain ⟨rfl, -⟩ := List.cons.inj hrest
      have hseal : .seal i ∈ before ++ .seal i :: rest := by simp
      obtain ⟨rfl, -⟩ := eq_of_valueTasks_append (h.first_of_seal hseal).symm
      exact .inl (mem_valueTasks hport)

theorem Ranked.step : Ranked src bound (first ++ tasks) r' :=
  ⟨ranked.step_operands w h, ranked.step_awaited h closed⟩

end

/-! ### The whole walk -/

/-- A state of the walk, with what its reports say about circles. -/
structure Searching (src : Sources) (bound : Nat) (tasks : List Task) (r : Registry) : Prop where
  walked : Walked src bound tasks r
  nested : Nested src tasks
  circular : r.Reported → Circular src
  ranked : ¬r.Reported → Ranked src bound tasks r

theorem Searching.step (distinct : CallPath.Distinct src.library src.entry) (s : Searching src bound (task :: tasks) r)
    (h : r.step src bound task = .ok (first, r')) : Searching src bound (first ++ tasks) r' where
  walked := s.walked.step (step_taken h)
  nested := s.nested.step (step_taken h)
  circular := circular_of_step distinct s.walked s.nested h s.circular
  ranked := by
    intro hclean
    have hold : ¬r.Reported := fun ⟨e, he, hcycle⟩ => hclean ⟨e, (step_adds h).1 e he, hcycle⟩
    refine (s.ranked hold).step s.walked (step_taken h) ?_
    rintro i rfl hopen
    obtain ⟨o, ho, hkey⟩ := List.mem_map.mp (s.walked.mem_sealing_of_open i rfl hopen)
    have hnew : r.operatorNumber i.key = none := hkey ▸ s.walked.unsealed o (by simpa using ho)
    exact hclean ⟨_, step_open h hnew hopen, trivial⟩

/-- Registration without a reported circle numbers operands first. -/
theorem searching_of_build (distinct : CallPath.Distinct src.library src.entry) (h : build src = .ok r) :
    Searching src (src.library.wireBound src.entry) [] r := by
  have hempty : ¬(start src.entry).Reported := by simp [Reported, start]
  have hadds {r : Registry} (h : Adds (fun e => ¬e.OfCycle) (start src.entry) r) : ¬r.Reported := by
    rintro ⟨e, he, hcycle⟩
    exact (h.2 e he).elim (fun he => hempty ⟨e, he, hcycle⟩) fun hother => hother hcycle
  have hw := walked_of_build h
  unfold build at h
  dsimp only at h
  split at h
  next =>
    obtain rfl := Except.ok.inj h
    have hclean := hadds (.addError (r := start src.entry) (e := .missingRoot (src.library.graph src.entry).name) id)
    exact ⟨hw, trivial, fun h => absurd h hclean, fun _ => ⟨by simp [start, addError], by simp⟩⟩
  next root others hroots =>
    obtain ⟨errors, herrors⟩ := addErrors_eq (start src.entry) others fun extra =>
      .duplicateRoot ((src.library.graph src.entry).location extra)
    have hclean : ¬(Registry.Reported { start src.entry with errors := errors }) := by
      rw [← herrors]
      have hduplicate (site : Location) : ¬(CompileError.duplicateRoot site).OfCycle := id
      exact hadds (addErrors_adds (fun _ => hduplicate _) others _)
    have w := walked_start src (src.library.wireBound src.entry) errors
    rw [hroots] at w
    rw [herrors] at h
    refine walk_induction (Searching src _) (fun _ _ _ _ _ s h => s.step distinct h) h ⟨w, ?_, ?_, fun _ => ⟨?_, ?_⟩⟩
    · exact ⟨by simp [sealing], trivial⟩
    · exact fun h => absurd h hclean
    · simp [start]
    · intro before i after h
      rcases before with - | ⟨task, before⟩ <;> simp at h

section

variable (distinct : CallPath.Distinct src.library src.entry) (w : Walked src bound [] r)

include distinct w

/-- What a met instance depends on is met and numbered. -/
theorem Walked.dependsOn (met : src.Met i) (h : DependsOn src.library i j) : src.Met j ∧ j ∈ r.operatorOrder := by
  obtain ⟨port, hport, draws⟩ := h
  have ends := draws.endsValue (w.not_meetsFlow (w.registered distinct met) hport)
  have hmet : src.Met j := .operator met hport ends
  refine ⟨hmet, (w.registered distinct hmet).resolve_left fun hmem => ?_⟩
  obtain ⟨a, ha⟩ := (w.metActions j hmem).1.2
  obtain ⟨op, hop⟩ := (ends.operator (valid_of_met met).1).2
  cases ha.symm.trans hop

theorem Walked.transGen (met : src.Met i) (h : TransGen (DependsOn src.library) i j) :
    src.Met j ∧ j ∈ r.operatorOrder := by
  induction h with
  | single h => exact w.dependsOn distinct met h
  | tail _ h ih => exact w.dependsOn distinct ih.1 h

/-- An operator stands behind those that it depends on. -/
theorem Ranked.descends (ranked : Ranked src bound [] r) {k : Nat} (hi : r.operatorOrder[k]? = some i)
    (h : DependsOn src.library i j) : ∃ n < k, r.operatorOrder[n]? = some j := by
  have hmem := Array.mem_of_getElem? hi
  have met := (w.metOperators i hmem).1
  obtain ⟨hmet, -⟩ := w.dependsOn distinct met h
  obtain ⟨port, hport, draws⟩ := h
  obtain ⟨source, trail, hvalue, hbelow⟩ := ranked.operands k i hi port hport
  have ends := draws.endsValue (w.not_meetsFlow (.inr hmem) hport)
  obtain ⟨n, hn, hlt⟩ := hbelow j ((Spot.ends_of_follow hvalue).unique ends)
  obtain ⟨m, other, hother, hkey, rfl⟩ := (w.operators _ _).mp hn
  have hvalid := (valid_of_met (w.metOperators other (Array.mem_of_getElem? hother)).1).1
  obtain rfl := Instance.eq_of_key distinct hvalid (valid_of_met hmet).1 hkey
  exact ⟨m, by omega, hother⟩

theorem Ranked.not_circular (ranked : Ranked src bound [] r) : ¬Circular src := by
  rintro ⟨i, met, hcircle⟩
  have hdescends {k : Nat} {i j : Instance} (hi : r.operatorOrder[k]? = some i)
      (h : TransGen (DependsOn src.library) i j) : ∃ n < k, r.operatorOrder[n]? = some j := by
    induction h with
    | single h => exact ranked.descends distinct w hi h
    | tail _ h ih =>
      obtain ⟨n, hn, hmiddle⟩ := ih
      obtain ⟨m, hm, hj⟩ := ranked.descends distinct w hmiddle h
      exact ⟨m, hm.trans hn, hj⟩
  obtain ⟨k, hk⟩ := Array.mem_iff_getElem?.mp (w.transGen distinct met hcircle).2
  obtain ⟨n, hn, hsame⟩ := hdescends hk hcircle
  exact hn.ne (w.operators.inj hsame hk rfl)

end

/-- Registration reports a circle just if there is one. -/
theorem reported_iff (distinct : CallPath.Distinct src.library src.entry) (h : build src = .ok r) :
    r.Reported ↔ Circular src := by
  have s := searching_of_build distinct h
  refine ⟨s.circular, fun hcircular => ?_⟩
  by_contra hclean
  exact (s.ranked hclean).not_circular distinct s.walked hcircular

/-- Every met instance is an action or feeds one. -/
theorem exists_action_of_met (met : src.Met i) :
    ∃ a ∈ src.metActions, ReflTransGen (DependsOn src.library) a i := by
  induction met with
  | @root root others h =>
    have hrole := mem_roots.mp (show root ∈ roots src by rw [h]; exact List.mem_cons_self)
    exact ⟨_, ⟨.root h, _, hrole⟩, .refl⟩
  | @action i j met a hrole port hport h ih =>
    exact ⟨j, ⟨.action met hrole hport h, (h.action (valid_of_met met).1).2⟩, .refl⟩
  | @operator i j met port hport h ih =>
    obtain ⟨a, ha, hpath⟩ := ih
    exact ⟨a, ha, hpath.tail ⟨port, hport, h.draws⟩⟩

end Registry

end BehaviorTree
