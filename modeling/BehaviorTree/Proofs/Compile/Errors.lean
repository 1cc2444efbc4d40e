import BehaviorTree.Proofs.Compile.Emit
import BehaviorTree.Proofs.Compile.Steps

/-! What a compilation can report. Along a wire it is something about links and ports; a step of registration may find
a lookup that is read as another component, and an operator that is met among its own operands. Emission finds no such
operator. -/

namespace BehaviorTree

theorem mem_append_list {α : Type} {xs : Array α} {ys : List α} {a : α} : a ∈ xs ++ ys ↔ a ∈ xs ∨ a ∈ ys := by
  rw [← Array.mem_toList_iff, Array.toList_appendList, List.mem_append, Array.mem_toList_iff]

namespace CompileError

/-- The error is about what ports are linked to. -/
def OfWire : CompileError → Prop
  | rootAsChild _ | ambiguousConnection _ _ | missingInput _ _ | unresolvedPort _ _ | missingBoundary _ _
  | invalidParallelBranch _ | misplacedThreadRoot _ | wrongCategory _ _ | tooManyChildren _ _ _ => True
  | _ => False

/-- The error is about an operator that depends on itself. -/
def OfCycle : CompileError → Prop
  | expressionCycle _ => True
  | _ => False

theorem OfWire.not_ofCycle {e : CompileError} (h : e.OfWire) : ¬e.OfCycle := by
  cases e <;> first | exact id | cases h

end CompileError

/-! ### Wires -/

namespace Trail

/-- Everything on the trail is about links and ports. -/
def OfWire (trail : Trail) : Prop :=
  ∀ e ∈ trail.errors, e.OfWire

@[simp] theorem ofWire_empty : empty.OfWire := by
  simp [OfWire, empty]

@[simp] theorem ofWire_visit (graph : GraphId) (node : Nat) : (visit graph node).OfWire := by
  simp [OfWire, visit]

@[simp] theorem ofWire_warning (w : CompileWarning) : (warning w).OfWire := by
  simp [OfWire, warning]

@[simp] theorem ofWire_error {e : CompileError} : (error e).OfWire ↔ e.OfWire := by
  simp [OfWire, error]

@[simp] theorem ofWire_append {a b : Trail} : (a ++ b).OfWire ↔ a.OfWire ∧ b.OfWire := by
  change (∀ e ∈ a.errors ++ b.errors, e.OfWire) ↔ _
  simp [OfWire, or_imp, forall_and]

theorem ofWire_concat {trails : List Trail} (h : ∀ trail ∈ trails, trail.OfWire) : (concat trails).OfWire := by
  intro e he
  obtain ⟨trail, htrail, he⟩ := List.mem_flatMap.mp he
  exact h trail htrail e he

end Trail

namespace Spot

open Trail

variable {library : Library} {spot : Spot}

theorem ofWire_ambiguity (spot : Spot) (others : List Link) : (spot.ambiguity library others).OfWire := by
  unfold ambiguity
  split <;> simp [CompileError.OfWire]

theorem ofWire_leaveThrough {α : Type} (path : CallPath) (node : Nat) (name : String) :
    (leaveThrough library path node name : Hop (Option α) × Trail).2.OfWire := by
  unfold leaveThrough
  dsimp only
  split <;> simp [CompileError.OfWire]

theorem ofWire_enterFlow (path : CallPath) (via : Nat) (callee : GraphId) (name : String) :
    (enterFlow library path via callee name).2.OfWire := by
  unfold enterFlow
  dsimp only
  split
  · simp [CompileError.OfWire]
  · split
    · simp [CompileError.OfWire]
    · split <;> simp

theorem ofWire_enterValue (path : CallPath) (via : Nat) (callee : GraphId) (name : String) (type : ValueType) :
    (enterValue library path via callee name type).2.OfWire := by
  unfold enterValue
  dsimp only
  split
  · simp [CompileError.OfWire]
  · split
    · simp [CompileError.OfWire]
    · split_ifs <;> simp

theorem ofWire_flowHop (spot : Spot) : (spot.flowHop library).2.OfWire := by
  unfold flowHop
  dsimp only
  split
  · simp
  · refine ofWire_append.mpr ⟨ofWire_ambiguity _ _, ?_⟩
    split
    · exact ofWire_enterFlow _ _ _ _
    · exact ofWire_leaveThrough _ _ _
    · exact ofWire_empty
    all_goals exact ofWire_error.mpr trivial

theorem ofWire_valueHop {hop : Hop (Option ValueSource)} {seen : Trail} (h : spot.valueHop library = .ok (hop, seen)) :
    seen.OfWire := by
  unfold valueHop at h
  dsimp only at h
  split at h
  next => cases h
  next =>
    split at h
    next =>
      split at h <;> obtain ⟨-, rfl⟩ := Prod.mk.inj (Except.ok.inj h) <;> simp [CompileError.OfWire]
    next =>
      obtain ⟨-, rfl⟩ := Prod.mk.inj (Except.ok.inj h)
      refine ofWire_append.mpr ⟨ofWire_ambiguity _ _, ?_⟩
      split
      · exact ofWire_empty
      · exact ofWire_enterValue _ _ _ _ _
      · exact ofWire_leaveThrough _ _ _
      all_goals exact ofWire_error.mpr trivial

/-- A wire says what its hops say. -/
theorem ofWire_follow {α : Type} {hop : Spot → Except Fault (Hop α × Trail)}
    (hhop : ∀ spot next seen, hop spot = .ok (next, seen) → seen.OfWire) {ports : Nat} {before : List Trail}
    (hbefore : ∀ seen ∈ before, seen.OfWire) {a : α} {trail : Trail} (h : follow hop ports spot before = .ok (a, trail)) :
    trail.OfWire := by
  induction ports generalizing spot before with
  | zero => cases h
  | succ ports ih =>
    rw [follow] at h
    split at h
    next => cases h
    next result seen hstop =>
      obtain ⟨-, rfl⟩ := Prod.mk.inj (Except.ok.inj h)
      refine ofWire_concat fun trail htrail => ?_
      exact List.forall_mem_cons.mpr ⟨hhop _ _ _ hstop, hbefore⟩ trail (List.mem_reverse.mp htrail)
    next next seen honward => exact ih (List.forall_mem_cons.mpr ⟨hhop _ _ _ honward, hbefore⟩) h

end Spot

namespace Library

variable {library : Library} {bound : Nat} {spot : Spot} {trail : Trail}

theorem ofWire_flowTarget {target : Option Instance} (h : library.flowTarget bound spot = .ok (target, trail)) :
    trail.OfWire := by
  refine Spot.ofWire_follow (fun spot next seen hhop => ?_) (by simp) h
  have := @Spot.ofWire_flowHop library spot
  rwa [Except.ok.inj hhop] at this

theorem ofWire_valueSource {source : Option ValueSource} (h : library.valueSource bound spot = .ok (source, trail)) :
    trail.OfWire :=
  Spot.ofWire_follow (fun _ _ _ => Spot.ofWire_valueHop) (by simp) h

end Library

/-! ### Steps -/

namespace Registry

variable {src : Sources} {bound : Nat} {r r' r'' : Registry} {kind : CompileError → Prop}

/-- Errors remain, and those that are added are of the kind. -/
def Adds (kind : CompileError → Prop) (r r' : Registry) : Prop :=
  (∀ e ∈ r.errors, e ∈ r'.errors) ∧ ∀ e ∈ r'.errors, e ∈ r.errors ∨ kind e

namespace Adds

theorem of_eq (h : r'.errors = r.errors) : Adds kind r r' :=
  ⟨fun _ he => h ▸ he, fun _ he => .inl (h ▸ he)⟩

theorem trans (h : Adds kind r r') (h' : Adds kind r' r'') : Adds kind r r'' :=
  ⟨fun e he => h'.1 e (h.1 e he), fun e he => (h'.2 e he).elim (h.2 e) .inr⟩

theorem addError {e : CompileError} (h : kind e) : Adds kind r (r.addError e) := by
  refine ⟨fun other hother => Array.mem_push_of_mem _ hother, fun other hother => ?_⟩
  obtain hold | rfl := Array.mem_push.mp hother
  · exact .inl hold
  · exact .inr h

end Adds

theorem addErrors_adds {e : Nat → CompileError} (h : ∀ extra, kind (e extra)) (others : List Nat) (r : Registry) :
    Adds kind r (others.foldl (fun r extra => r.addError (e extra)) r) := by
  induction others generalizing r with
  | nil => exact .of_eq rfl
  | cons extra others ih => exact (Adds.addError (h extra)).trans (ih _)

theorem visits_eq (visits : List (GraphId × Nat)) (r : Registry) : ∃ visited graphs,
    visits.foldl (fun r visit => r.visit visit.1 visit.2) r = { r with visited := visited, graphs := graphs } := by
  induction visits generalizing r with
  | nil => exact ⟨r.visited, r.graphs, rfl⟩
  | cons visit visits ih => exact ih (r.visit visit.1 visit.2)

theorem absorb_errors (r : Registry) (trail : Trail) : (r.absorb trail).errors = r.errors ++ trail.errors := by
  obtain ⟨visited, graphs, h⟩ := visits_eq trail.visits r
  rw [absorb, h]

theorem absorb_warnings (r : Registry) (trail : Trail) :
    (r.absorb trail).warnings = r.warnings ++ trail.warnings := by
  obtain ⟨visited, graphs, h⟩ := visits_eq trail.visits r
  rw [absorb, h]

theorem absorb_adds {trail : Trail} (h : ∀ e ∈ trail.errors, kind e) : Adds kind r (r.absorb trail) := by
  refine ⟨fun e he => ?_, fun e he => ?_⟩ <;> rw [absorb_errors, mem_append_list] at *
  · exact .inl he
  · exact he.imp_right (h e)

/-- What a step may report. -/
inductive StepError (src : Sources) (r : Registry) : Task → CompileError → Prop
  | wire {task : Task} {e : CompileError} (h : e.OfWire) : StepError src r task e
  | conflict {i : Instance} (site : Location) (lookup : UInt16) (expected found : String) :
    StepError src r (.operator i) (.lookupConflict site lookup expected found)
  | cycle {i : Instance} (hopen : i.key ∈ r.inProgress) :
    StepError src r (.operator i) (.expressionCycle ((i.graph src.library).location i.node))

/-- Nothing is reported. -/
def Silent (r r' : Registry) : Prop :=
  r'.errors = r.errors ∧ r'.warnings = r.warnings

theorem noteType_silent (r : Registry) (component : String) : Silent r (r.noteType src component) := by
  unfold noteType
  split_ifs <;> exact ⟨rfl, rfl⟩

theorem noteAction_silent (r : Registry) (role : Role) : Silent r (r.noteAction src role) := by
  unfold noteAction
  split
  · exact noteType_silent r _
  · exact ⟨rfl, rfl⟩

theorem noteLookup_adds (r : Registry) (site : Location) (lookup : UInt16) (component : String)
    (hkind : ∀ expected, kind (.lookupConflict site lookup expected component)) :
    Adds kind r (r.noteLookup src site lookup component) := by
  unfold noteLookup
  split_ifs
  · exact .of_eq rfl
  · split
    · split_ifs
      · exact .of_eq rfl
      · exact .addError (hkind _)
    · exact .of_eq rfl

theorem noteOperator_adds (r : Registry) (site : Location) (role : Role)
    (hkind : ∀ lookup expected found, kind (.lookupConflict site lookup expected found)) :
    Adds kind r (r.noteOperator src site role) := by
  unfold noteOperator
  split
  · exact .of_eq (noteType_silent r _).1
  · exact noteLookup_adds r _ _ _ fun _ => hkind _ _ _
  · exact .of_eq rfl

theorem registerAction_silent {i : Instance} {first : List Task} (h : r.registerAction src i = .ok (first, r')) :
    Silent r r' := by
  unfold registerAction at h
  dsimp only at h
  split_ifs at h <;> obtain ⟨-, rfl⟩ := Prod.mk.inj (Except.ok.inj h)
  · exact ⟨rfl, rfl⟩
  · exact noteAction_silent _ _

theorem registerOperator_adds (r : Registry) (i : Instance) :
    Adds (StepError src r (.operator i)) r (r.registerOperator src i).2 := by
  unfold registerOperator
  dsimp only
  split_ifs with hknown hopen
  · exact .of_eq rfl
  · exact .addError (.cycle (Std.HashSet.contains_iff_mem.mp hopen))
  · have hvisited : Adds (StepError src r (.operator i)) r ((r.opened i).visit i.path.graph i.node) := .of_eq rfl
    exact hvisited.trans (noteOperator_adds _ _ _ fun _ _ _ => .conflict _ _ _ _)

theorem step_adds {task : Task} {first : List Task} (h : r.step src bound task = .ok (first, r')) :
    Adds (StepError src r task) r r' := by
  cases task with
  | action i => exact .of_eq (registerAction_silent h).1
  | flow spot =>
    obtain ⟨⟨target, trail⟩, hflow, -⟩ := Refusal.bind_eq_ok_iff.mp h
    obtain ⟨-, rfl⟩ := Prod.mk.inj (Except.ok.inj ((step_flow hflow).symm.trans h))
    exact absorb_adds fun e he => .wire (Library.ofWire_flowTarget hflow e he)
  | value spot =>
    obtain ⟨⟨source, trail⟩, hvalue, -⟩ := Refusal.bind_eq_ok_iff.mp h
    obtain ⟨-, rfl⟩ := Prod.mk.inj (Except.ok.inj ((step_value hvalue).symm.trans h))
    exact absorb_adds fun e he => .wire (Library.ofWire_valueSource hvalue e he)
  | operator i =>
    obtain ⟨-, rfl⟩ := Prod.ext_iff.mp (Except.ok.inj h)
    exact registerOperator_adds r i
  | «seal» i =>
    obtain ⟨sealed, hseal, hpair⟩ := Refusal.map_eq_ok_iff.mp h
    obtain ⟨-, rfl⟩ := Prod.mk.inj hpair
    obtain ⟨-, rfl⟩ := sealOperator_eq_ok hseal
    exact .of_eq rfl

/-- An operator that is met among its own operands is reported. -/
theorem step_open {i : Instance} {first : List Task} (h : r.step src bound (.operator i) = .ok (first, r'))
    (hnew : r.operatorNumber i.key = none) (hopen : i.key ∈ r.inProgress) :
    .expressionCycle ((i.graph src.library).location i.node) ∈ r'.errors := by
  have hknown : r.operators.contains i.key = false := by rw [contains_operators, hnew]; rfl
  obtain ⟨-, rfl⟩ := Prod.ext_iff.mp (Except.ok.inj h)
  simp only [registerOperator, hknown, Std.HashSet.contains_iff_mem.mpr hopen, Bool.false_eq_true, if_false, if_true]
  exact Array.mem_push_self

end Registry

/-! ### Emission -/

namespace Emit

variable {α β : Type} {kind : CompileError → Prop}

/-- Every error that is reported is of the kind. -/
def Reports (kind : CompileError → Prop) (m : Emit α) : Prop :=
  ∀ d a d', m d = .ok (a, d') → (∀ e ∈ d.errors, kind e) → ∀ e ∈ d'.errors, kind e

namespace Reports

theorem pure (a : α) : (Pure.pure a : Emit α).Reports kind := by
  intro d b d' hrun herrors
  obtain ⟨rfl, rfl⟩ := Prod.mk.inj (Except.ok.inj hrun)
  exact herrors

theorem bind {m : Emit α} {next : α → Emit β} (h : m.Reports kind) (hnext : ∀ a, (next a).Reports kind) :
    (m >>= next).Reports kind := by
  intro d b d' hrun herrors
  obtain ⟨a, d₁, hfirst, hrest⟩ := bind_eq_ok_iff.mp hrun
  exact hnext a d₁ b d' hrest (h d a d₁ hfirst herrors)

theorem mapM {items : List α} {f : α → Emit β} (hf : ∀ a ∈ items, (f a).Reports kind) :
    (items.mapM f).Reports kind := by
  induction items with
  | nil =>
    rw [List.mapM_nil]
    exact pure []
  | cons a items ih =>
    rw [List.mapM_cons]
    exact bind (hf a (by simp)) fun b => bind (ih fun a ha => hf a (by simp [ha])) fun bs => pure _

theorem report {e : CompileError} (h : kind e) : (Emit.report e).Reports kind := by
  intro d a d' hrun herrors
  obtain ⟨-, rfl⟩ := Prod.mk.inj (Except.ok.inj hrun)
  intro other hother
  obtain hold | rfl := Array.mem_push.mp hother
  · exact herrors other hold
  · exact h

theorem intern (value : Constant) : (Emit.intern value).Reports kind := by
  intro d a d' hrun herrors
  obtain ⟨-, rfl⟩ := Prod.mk.inj (Except.ok.inj hrun)
  exact herrors

theorem trailed {lookup : Except Fault (α × Trail)}
    (h : ∀ a trail, lookup = .ok (a, trail) → ∀ e ∈ trail.errors, kind e) : (Emit.trailed lookup).Reports kind := by
  intro d b d' hrun herrors
  cases lookup with
  | error fault => cases hrun
  | ok result =>
    obtain ⟨a, trail⟩ := result
    obtain ⟨-, rfl⟩ := Prod.mk.inj (Except.ok.inj hrun)
    intro e he
    exact (mem_append_list.mp he).elim (herrors e) (h a trail rfl e)

end Reports

end Emit

namespace Plan

open Emit (Reports)

section

variable {plan : Plan} {kind : CompileError → Prop} (hwire : ∀ e, e.OfWire → kind e)

include hwire

theorem flowTarget_reports (i : Instance) (port : Nat) : (plan.flowTarget i port).Reports kind :=
  .trailed fun _ _ h e he => hwire e (Library.ofWire_flowTarget h e he)

theorem childAt_reports (i : Instance) (port : Nat) : (plan.childAt i port).Reports kind := by
  refine (flowTarget_reports hwire i port).bind fun target => ?_
  split
  · exact .pure _
  · split
    · exact (Reports.report (hwire (.rootAsChild _) trivial)).bind fun _ => .pure _
    · exact (Reports.report (hwire (.misplacedThreadRoot _) trivial)).bind fun _ => .pure _
    · exact .pure _

theorem child_reports (i : Instance) (name : String) : (plan.child i name).Reports kind := by
  unfold child
  split
  · exact childAt_reports hwire i _
  · exact .pure _

theorem thread_reports (i : Instance) : (plan.thread i).Reports kind := by
  have hinvalid : (thread.invalid plan i).Reports kind :=
    (Reports.report (hwire (.invalidParallelBranch _) trivial)).bind fun _ => .pure _
  unfold thread
  split
  · refine (flowTarget_reports hwire i _).bind fun target => ?_
    dsimp only
    split
    · split
      · exact .pure _
      · exact hinvalid
    · exact hinvalid
  · exact hinvalid

theorem valueAt_reports (i : Instance) (port : Nat) (type : ValueType) : (plan.valueAt i port type).Reports kind := by
  have hsource : (Emit.trailed (plan.src.library.valueSource plan.bound ⟨i.path, i.node, port⟩)).Reports kind :=
    .trailed fun _ _ h e he => hwire e (Library.ofWire_valueSource h e he)
  refine hsource.bind fun source => ?_
  split
  · split
    · exact .pure _
    · exact .intern _
  · exact .intern _
  · exact .intern _

theorem value_reports (i : Instance) (name : String) (type : ValueType) : (plan.value i name type).Reports kind := by
  unfold value
  split
  · exact valueAt_reports hwire i _ type
  · exact .intern _

theorem withChildren_reports {i : Instance} {emit : List Nat → Emit Node} (h : ∀ ports, (emit ports).Reports kind) :
    (plan.withChildren i emit).Reports kind := by
  unfold withChildren
  dsimp only
  split_ifs
  · exact (Reports.report (hwire (.tooManyChildren _ _ _) trivial)).bind fun _ => .pure _
  · exact h _

theorem sequence_reports (i : Instance) : (plan.action i .sequence).Reports kind := by
  rw [action]
  exact withChildren_reports hwire fun ports =>
    (Reports.mapM fun port _ => childAt_reports hwire i port).bind fun _ => .pure _

theorem selector_reports (i : Instance) : (plan.action i .selector).Reports kind := by
  rw [action]
  refine withChildren_reports hwire fun ports => (Reports.mapM fun branch _ => ?_).bind fun _ => .pure _
  exact (valueAt_reports hwire i _ _).bind fun _ => (childAt_reports hwire i _).bind fun _ => .pure _

/-- The two operands of an operator. -/
theorem operands_reports (i : Instance) (type : ValueType) (make : ValueRef → ValueRef → Operation) :
    (do
      let a ← plan.value i "a" type
      return make a (← plan.value i "b" type) : Emit Operation).Reports kind :=
  (value_reports hwire i _ _).bind fun _ => (value_reports hwire i _ _).bind fun _ => .pure _

end

/-- A program reports what its entries and operations report. -/
theorem program_reports {plan : Plan} {kind : CompileError → Prop}
    (hentry : ∀ i ∈ plan.registry.actionOrder, (plan.entry i).Reports kind)
    (hoperation : ∀ i ∈ plan.registry.operatorOrder, (plan.operation i).Reports kind) : plan.program.Reports kind := by
  have hentries : plan.entries.Reports kind := by
    unfold entries
    split
    · exact .pure _
    · exact .mapM fun i hi => hentry i (Array.mem_toList_iff.mp hi)
  refine hentries.bind fun entries => (Reports.mapM fun i hi => ?_).bind fun operations => ?_
  · exact hoperation i (Array.mem_toList_iff.mp hi)
  · intro d program d' hrun herrors
    obtain ⟨-, rfl⟩ := Prod.mk.inj (Except.ok.inj hrun)
    exact herrors

/-! Emission reports no operator that depends on itself. -/

section

variable {plan : Plan}

theorem wire_not_ofCycle (e : CompileError) (h : e.OfWire) : ¬e.OfCycle :=
  h.not_ofCycle

theorem expectType_not_ofCycle (site : Location) (expected found : ValueType) :
    (expectType site expected found).Reports fun e => ¬e.OfCycle := by
  unfold expectType
  split_ifs
  · exact .pure _
  · exact .report id

theorem slot?_not_ofCycle (site : Location) (var : String) : (plan.slot? site var).Reports fun e => ¬e.OfCycle := by
  unfold slot?
  split
  · exact .pure _
  · exact (Reports.report id).bind fun _ => .pure _

theorem fieldWrite?_not_ofCycle (i : Instance) (layout : ComponentLayout) (port : Port) :
    (plan.fieldWrite? i layout port).Reports fun e => ¬e.OfCycle := by
  unfold fieldWrite?
  dsimp only
  split
  · exact .pure _
  · exact (Reports.report id).bind fun _ => .pure _
  · exact (expectType_not_ofCycle _ _ _).bind fun _ => (value_reports wire_not_ofCycle i _ _).bind fun _ => .pure _

theorem writeField_not_ofCycle (i : Instance) (component : String) :
    (plan.writeField i component).Reports fun e => ¬e.OfCycle := by
  unfold writeField
  split
  · exact (Reports.mapM fun port _ => fieldWrite?_not_ofCycle i _ _).bind fun _ => .pure _
  · exact (Reports.report id).bind fun _ => .pure _

theorem action_not_ofCycle (i : Instance) (a : Action) : (plan.action i a).Reports fun e => ¬e.OfCycle := by
  cases a with
  | root | «catch» | threadRoot => exact (child_reports wire_not_ofCycle i _).bind fun _ => .pure _
  | sequence => exact sequence_reports wire_not_ofCycle i
  | selector => exact selector_reports wire_not_ofCycle i
  | writeField component => exact writeField_not_ofCycle i component
  | waitFor | waitUntil => exact (value_reports wire_not_ofCycle i _ _).bind fun _ => .pure _
  | fail => exact .pure _
  | optional =>
    exact (value_reports wire_not_ofCycle i _ _).bind fun _ => (child_reports wire_not_ofCycle i _).bind fun _ => .pure _
  | writeVar var =>
    refine (slot?_not_ofCycle _ var).bind fun slot => ?_
    cases slot with
    | none => exact .pure _
    | some slot =>
      exact (expectType_not_ofCycle _ _ _).bind fun _ => (value_reports wire_not_ofCycle i _ _).bind fun _ => .pure _
  | query id var =>
    refine (slot?_not_ofCycle _ var).bind fun slot => ?_
    cases slot with
    | none => exact .pure _
    | some slot => exact .pure _
  | parallel =>
    exact (child_reports wire_not_ofCycle i _).bind fun _ => (thread_reports wire_not_ofCycle i).bind fun _ => .pure _

theorem fieldOffset_not_ofCycle (site : Location) (component field : String) (type : ValueType) :
    (plan.fieldOffset site component field type).Reports fun e => ¬e.OfCycle := by
  unfold fieldOffset
  split
  · exact (Reports.report id).bind fun _ => .pure _
  · split
    · exact (Reports.report id).bind fun _ => .pure _
    · exact (expectType_not_ofCycle _ _ _).bind fun _ => .pure _

theorem operator_not_ofCycle (i : Instance) (op : Operator) : (plan.operator i op).Reports fun e => ¬e.OfCycle := by
  cases op with
  | readField component field | lookupField lookup component field =>
    exact (fieldOffset_not_ofCycle _ _ _ _).bind fun _ => .pure _
  | readVar var =>
    refine (slot?_not_ofCycle _ var).bind fun slot => ?_
    cases slot with
    | none => exact .pure _
    | some slot => exact (expectType_not_ofCycle _ _ _).bind fun _ => .pure _
  | not => exact (value_reports wire_not_ofCycle i _ _).bind fun _ => .pure _
  | and | or | compare => exact operands_reports wire_not_ofCycle i _ _
  | arith op type =>
    unfold operator
    dsimp only
    split_ifs
    · exact (Reports.report id).bind fun _ => operands_reports wire_not_ofCycle i _ _
    · exact operands_reports wire_not_ofCycle i _ _

theorem program_not_ofCycle (plan : Plan) : plan.program.Reports fun e => ¬e.OfCycle := by
  refine program_reports (fun i _ => ?_) fun i _ => ?_
  · unfold entry
    split
    next a _ => exact (action_not_ofCycle i a).bind fun _ => .pure _
    next => exact (Reports.pure _).bind fun _ => .pure _
  · unfold operation
    split
    next op _ => exact operator_not_ofCycle i op
    next => exact .pure _

end

end Plan

end BehaviorTree
