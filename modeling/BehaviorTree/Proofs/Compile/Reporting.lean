import BehaviorTree.Compile.Basic
import BehaviorTree.Proofs.Compile.Errors
import BehaviorTree.Proofs.Compile.Walk

/-! What wires say is reported. All that is seen along the wires of met instances is among the errors and the warnings
of the compilation. A value that comes from nowhere is an error; control that comes to no action has met a port
without a link, or leaves an error or a warning behind. -/

namespace BehaviorTree

open Relation Refusal

/-! ### Wires that break off -/

namespace Spot

variable {library : Library} {spot : Spot} {path : CallPath} {seen : Trail}

theorem errors_of_leaveThrough {α : Type} {node : Nat} {name : String} {a : Option α}
    (h : leaveThrough library path node name = (.stop a, seen)) : seen.errors ≠ [] := by
  unfold leaveThrough at h
  dsimp only at h
  split at h
  next => cases h
  next =>
    obtain ⟨-, rfl⟩ := Prod.mk.inj h
    exact List.cons_ne_nil _ _

theorem reports_of_enterFlow {via : Nat} {callee : GraphId} {name : String} {target : Option Instance}
    (h : enterFlow library path via callee name = (.stop target, seen)) :
    seen.errors ≠ [] ∨ seen.warnings ≠ [] := by
  unfold enterFlow at h
  dsimp only at h
  split at h
  next =>
    obtain ⟨-, rfl⟩ := Prod.mk.inj h
    exact .inl (List.cons_ne_nil _ _)
  next =>
    split at h
    next =>
      obtain ⟨-, rfl⟩ := Prod.mk.inj h
      exact .inl (List.cons_ne_nil _ _)
    next =>
      split at h
      next =>
        obtain ⟨-, rfl⟩ := Prod.mk.inj h
        exact .inr (List.cons_ne_nil _ _)
      next => cases h

theorem errors_of_enterValue {via : Nat} {callee : GraphId} {name : String} {type : ValueType}
    (h : enterValue library path via callee name type = (.stop none, seen)) : seen.errors ≠ [] := by
  unfold enterValue at h
  dsimp only at h
  split at h
  next =>
    obtain ⟨-, rfl⟩ := Prod.mk.inj h
    exact List.cons_ne_nil _ _
  next =>
    split at h
    next =>
      obtain ⟨-, rfl⟩ := Prod.mk.inj h
      exact List.cons_ne_nil _ _
    next => split_ifs at h <;> cases (Prod.mk.inj h).1

/-- Control that comes to no action has met a port without a link, or something is said about it. -/
theorem reports_of_flowHop (h : spot.flowHop library = (.stop none, seen)) :
    (spot.graph library).linksFrom spot.ref = [] ∨ seen.errors ≠ [] ∨ seen.warnings ≠ [] := by
  unfold flowHop at h
  dsimp only at h
  split at h
  next hlinks => exact .inl hlinks
  next link others hlinks =>
    obtain ⟨hstop, rfl⟩ := Prod.mk.inj h
    refine .inr (Or.imp (List.append_ne_nil_of_right_ne_nil _) (List.append_ne_nil_of_right_ne_nil _) ?_)
    generalize ((spot.graph library).node link.target.node).role = role at hstop ⊢
    cases role with
    | action a => cases hstop
    | call callee => exact reports_of_enterFlow (Prod.ext hstop rfl)
    | output => exact .inl (errors_of_leaveThrough (Prod.ext hstop rfl))
    | operator op | input => exact .inl (List.cons_ne_nil _ _)

/-- A value that comes from nowhere is an error. -/
theorem errors_of_valueHop (h : spot.valueHop library = .ok (.stop none, seen)) : seen.errors ≠ [] := by
  unfold valueHop at h
  dsimp only at h
  split at h
  next => cases h
  next =>
    split at h
    next =>
      split at h
      next => cases (Prod.mk.inj (Except.ok.inj h)).1
      next =>
        obtain ⟨-, rfl⟩ := Prod.mk.inj (Except.ok.inj h)
        exact List.cons_ne_nil _ _
    next link others hlinks =>
      obtain ⟨hstop, rfl⟩ := Prod.mk.inj (Except.ok.inj h)
      refine List.append_ne_nil_of_right_ne_nil _ ?_
      generalize ((spot.graph library).node link.source.node).role = role at hstop ⊢
      cases role with
      | operator op => cases hstop
      | call callee => exact errors_of_enterValue (Prod.ext hstop rfl)
      | input => exact errors_of_leaveThrough (Prod.ext hstop rfl)
      | action a | output => exact List.cons_ne_nil _ _

end Spot

namespace Library

variable {library : Library} {bound : Nat} {spot : Spot} {trail : Trail}

theorem reports_of_flowTarget (h : library.flowTarget bound spot = .ok (none, trail)) :
    (∃ last, ReflTransGen (Spot.PassesFlow library) spot last ∧ (last.graph library).linksFrom last.ref = []) ∨
      trail.errors ≠ [] ∨ trail.warnings ≠ [] := by
  obtain ⟨last, seen, hpath, hlast, herrors, hwarnings⟩ := Spot.last_of_follow h
  obtain hlinks | hsaid := Spot.reports_of_flowHop (Except.ok.inj hlast)
  · exact .inl ⟨last, hpath, hlinks⟩
  · refine .inr (hsaid.imp (fun hne hclean => hne ?_) fun hne hclean => hne ?_)
    · exact List.eq_nil_of_subset_nil (hclean ▸ herrors)
    · exact List.eq_nil_of_subset_nil (hclean ▸ hwarnings)

theorem errors_of_valueSource (h : library.valueSource bound spot = .ok (none, trail)) : trail.errors ≠ [] := by
  obtain ⟨last, seen, -, hlast, herrors, -⟩ := Spot.last_of_follow h
  intro hclean
  exact Spot.errors_of_valueHop hlast (List.eq_nil_of_subset_nil (hclean ▸ herrors))

end Library

/-! ### Registration -/

/-- All that is seen on the way to a result is among the errors and the warnings. -/
def Heard {α : Type} (errors : List CompileError) (warnings : List CompileWarning) (lookup : Except Fault (α × Trail)) :
    Prop :=
  ∀ a trail, lookup = .ok (a, trail) → trail.errors ⊆ errors ∧ trail.warnings ⊆ warnings

theorem Heard.mono {α : Type} {errors errors' : List CompileError} {warnings warnings' : List CompileWarning}
    {lookup : Except Fault (α × Trail)} (heard : Heard errors warnings lookup) (herrors : errors ⊆ errors')
    (hwarnings : warnings ⊆ warnings') : Heard errors' warnings' lookup := by
  intro a trail h
  obtain ⟨hold, hold'⟩ := heard a trail h
  exact ⟨List.Subset.trans hold herrors, List.Subset.trans hold' hwarnings⟩

namespace Registry

variable {src : Sources} {bound : Nat} {r r' : Registry} {task : Task} {first tasks : List Task} {spot : Spot}

/-- What the lookup sees is reported. -/
def Hears {α : Type} (r : Registry) (lookup : Except Fault (α × Trail)) : Prop :=
  Heard r.errors.toList r.warnings.toList lookup

theorem hears_absorb {α : Type} {a : α} {trail : Trail} : (r.absorb trail).Hears (.ok (a, trail)) := by
  intro b other h
  obtain ⟨-, rfl⟩ := Prod.mk.inj (Except.ok.inj h)
  rw [absorb_errors, absorb_warnings]
  exact ⟨fun e he => by simp [he], fun w hw => by simp [hw]⟩

theorem noteLookup_warnings (r : Registry) (site : Location) (lookup : UInt16) (component : String) :
    (r.noteLookup src site lookup component).warnings = r.warnings := by
  unfold noteLookup
  split_ifs
  · rfl
  · split
    · split_ifs <;> rfl
    · rfl

theorem registerOperator_warnings (r : Registry) (i : Instance) :
    (r.registerOperator src i).2.warnings = r.warnings := by
  unfold registerOperator noteOperator
  dsimp only
  split_ifs
  · rfl
  · rfl
  · split
    · exact (noteType_silent _ _).2
    · exact noteLookup_warnings _ _ _ _
    · rfl

theorem step_warnings (h : r.step src bound task = .ok (first, r')) : r.warnings.toList ⊆ r'.warnings.toList := by
  cases task with
  | action i =>
    rw [(registerAction_silent h).2]
    exact List.Subset.refl _
  | flow spot =>
    obtain ⟨⟨target, trail⟩, hflow, -⟩ := bind_eq_ok_iff.mp h
    obtain ⟨-, rfl⟩ := Prod.mk.inj (Except.ok.inj ((step_flow hflow).symm.trans h))
    rw [absorb_warnings]
    simp
  | value spot =>
    obtain ⟨⟨source, trail⟩, hvalue, -⟩ := bind_eq_ok_iff.mp h
    obtain ⟨-, rfl⟩ := Prod.mk.inj (Except.ok.inj ((step_value hvalue).symm.trans h))
    rw [absorb_warnings]
    simp
  | operator i =>
    obtain ⟨-, rfl⟩ := Prod.ext_iff.mp (Except.ok.inj h)
    rw [registerOperator_warnings]
    exact List.Subset.refl _
  | «seal» i =>
    obtain ⟨sealed, hseal, hpair⟩ := map_eq_ok_iff.mp h
    obtain ⟨-, rfl⟩ := Prod.mk.inj hpair
    obtain ⟨-, rfl⟩ := sealOperator_eq_ok hseal
    exact List.Subset.refl _

theorem Hears.step {α : Type} {lookup : Except Fault (α × Trail)} (hears : r.Hears lookup)
    (h : r.step src bound task = .ok (first, r')) : r'.Hears lookup := by
  refine hears.mono (fun e he => ?_) (step_warnings h)
  exact Array.mem_toList_iff.mpr ((step_adds h).1 e (Array.mem_toList_iff.mp he))

theorem hears_flow (h : r.step src bound (.flow spot) = .ok (first, r')) :
    r'.Hears (src.library.flowTarget bound spot) := by
  obtain ⟨⟨target, trail⟩, hflow, -⟩ := bind_eq_ok_iff.mp h
  obtain ⟨-, rfl⟩ := Prod.mk.inj (Except.ok.inj ((step_flow hflow).symm.trans h))
  rw [hflow]
  exact hears_absorb

theorem hears_value (h : r.step src bound (.value spot) = .ok (first, r')) :
    r'.Hears (src.library.valueSource bound spot) := by
  obtain ⟨⟨source, trail⟩, hvalue, -⟩ := bind_eq_ok_iff.mp h
  obtain ⟨-, rfl⟩ := Prod.mk.inj (Except.ok.inj ((step_value hvalue).symm.trans h))
  rw [hvalue]
  exact hears_absorb

/-- What the wires of registered instances say is reported, or will be. -/
structure Attentive (src : Sources) (bound : Nat) (tasks : List Task) (r : Registry) : Prop where
  flows : ∀ i ∈ r.actionOrder, ∀ port ∈ (i.graphNode src.library).flowOutputs,
    .flow (i.spot port) ∈ tasks ∨ r.Hears (src.library.flowTarget bound (i.spot port))
  values : ∀ i, i ∈ r.actionOrder ∨ i ∈ r.operatorOrder ∨ i ∈ sealing tasks →
    ∀ port ∈ (i.graphNode src.library).valueInputs,
      .value (i.spot port) ∈ tasks ∨ r.Hears (src.library.valueSource bound (i.spot port))

theorem Attentive.step (attentive : Attentive src bound (task :: tasks) r)
    (h : r.step src bound task = .ok (first, r')) : Attentive src bound (first ++ tasks) r' where
  flows := by
    intro i hi port hport
    rcases (step_taken h).actions_or hi with hmem | rfl
    · rcases attentive.flows i hmem port hport with htask | hears
      · rcases List.mem_cons.mp htask with rfl | htask
        · exact .inr (hears_flow h)
        · exact .inl (List.mem_append_right _ htask)
      · exact .inr (hears.step h)
    · exact .inl (List.mem_append_left _ (List.mem_append_left _ (mem_flowTasks hport)))
  values := by
    intro i hi port hport
    rcases (step_taken h).values_or hi with hmem | hnext
    · rcases attentive.values i hmem port hport with htask | hears
      · rcases List.mem_cons.mp htask with rfl | htask
        · exact .inr (hears_value h)
        · exact .inl (List.mem_append_right _ htask)
      · exact .inr (hears.step h)
    · exact .inl (List.mem_append_left _ (hnext port hport))

theorem attentive_of_build (h : build src = .ok r) : Attentive src (src.library.wireBound src.entry) [] r := by
  unfold build at h
  dsimp only at h
  split at h
  next =>
    obtain rfl := Except.ok.inj h
    exact ⟨by simp [start, addError], by simp [start, addError, sealing]⟩
  next root others hroots =>
    obtain ⟨errors, herrors⟩ := addErrors_eq (start src.entry) others fun extra =>
      .duplicateRoot ((src.library.graph src.entry).location extra)
    rw [herrors] at h
    refine walk_induction (Attentive src _) (fun _ _ _ _ _ attentive hstep => attentive.step hstep) h ⟨?_, ?_⟩
    · simp [start]
    · simp [start, sealing, sealing?]

end Registry

/-! ### Compilation -/

namespace Sources

variable {src : Sources} {c : Compilation} {i : Instance} {port : Nat}

/-- What the wires of met instances say is reported. -/
theorem heard_of_compile (distinct : CallPath.Distinct src.library src.entry) (h : src.compile = .ok c)
    (met : src.Met i) :
    (i ∈ src.metActions → ∀ port ∈ (i.graphNode src.library).flowOutputs,
      Heard c.errors c.warnings (src.library.flowTarget (src.library.wireBound src.entry) (i.spot port))) ∧
    ∀ port ∈ (i.graphNode src.library).valueInputs,
      Heard c.errors c.warnings (src.library.valueSource (src.library.wireBound src.entry) (i.spot port)) := by
  obtain ⟨r, hbuild, h⟩ := bind_eq_ok_iff.mp h
  obtain ⟨⟨program, draft⟩, -, h⟩ := bind_eq_ok_iff.mp h
  obtain rfl := Except.ok.inj h
  have w := Registry.walked_of_build hbuild
  have attentive := Registry.attentive_of_build hbuild
  have herrors : r.errors.toList ⊆ (r.errors ++ draft.errors).toList.eraseDups := fun e he => by simp [he]
  have hwarnings : r.warnings.toList ⊆
      (r.warnings.toList ++ r.unreached src ++ draft.warnings.toList).eraseDups := fun w hw => by simp [hw]
  constructor
  · rintro ⟨-, a, hrole⟩ port hport
    have hi : i ∈ r.actionOrder := w.mem_actionOrder (w.registered distinct met) hrole
    obtain hmem | hears := attentive.flows i hi port hport
    · cases hmem
    · exact hears.mono herrors hwarnings
  · intro port hport
    obtain hmem | hears := attentive.values i ((w.registered distinct met).imp_right .inl) port hport
    · cases hmem
    · exact hears.mono herrors hwarnings

/-- Every value of a met instance comes from somewhere, or there are errors. -/
theorem fed_of_compile (distinct : CallPath.Distinct src.library src.entry) (h : src.compile = .ok c)
    (met : src.Met i) (hport : port ∈ (i.graphNode src.library).valueInputs) :
    (∃ source, (i.spot port).EndsValue src.library (some source)) ∨ c.errors ≠ [] := by
  obtain ⟨r, hbuild, -⟩ := bind_eq_ok_iff.mp h
  have w := Registry.walked_of_build hbuild
  obtain hmem | ⟨source, trail, hvalue, -⟩ := w.values i ((w.registered distinct met).imp_right .inl) port hport
  · cases hmem
  cases source with
  | some source => exact .inl ⟨source, Spot.ends_of_follow hvalue⟩
  | none =>
    obtain ⟨herrors, -⟩ := (heard_of_compile distinct h met).2 port hport none trail hvalue
    exact .inr fun hclean => Library.errors_of_valueSource hvalue (List.eq_nil_of_subset_nil (hclean ▸ herrors))

/-- Every flow output of a met action leads to an action or to a port without a link, or something is reported. -/
theorem led_of_compile (distinct : CallPath.Distinct src.library src.entry) (h : src.compile = .ok c)
    (met : i ∈ src.metActions) (hport : port ∈ (i.graphNode src.library).flowOutputs) :
    (∃ j, (i.spot port).EndsFlow src.library (some j)) ∨
      (∃ last, ReflTransGen (Spot.PassesFlow src.library) (i.spot port) last ∧
        (last.graph src.library).linksFrom last.ref = []) ∨ c.errors ≠ [] ∨ c.warnings ≠ [] := by
  obtain ⟨r, hbuild, -⟩ := bind_eq_ok_iff.mp h
  have w := Registry.walked_of_build hbuild
  obtain ⟨a, hrole⟩ := met.2
  have hi : i ∈ r.actionOrder := w.mem_actionOrder (w.registered distinct met.1) hrole
  obtain hmem | ⟨target, trail, hflow, -⟩ := w.flows i hi port hport
  · cases hmem
  cases target with
  | some j => exact .inl ⟨j, Spot.ends_of_follow hflow⟩
  | none =>
    obtain ⟨herrors, hwarnings⟩ := (heard_of_compile distinct h met.1).1 met port hport none trail hflow
    obtain hunlinked | hsaid := Library.reports_of_flowTarget hflow
    · exact .inr (.inl hunlinked)
    · refine .inr (.inr (hsaid.imp (fun hne hclean => hne ?_) fun hne hclean => hne ?_))
      · exact List.eq_nil_of_subset_nil (hclean ▸ herrors)
      · exact List.eq_nil_of_subset_nil (hclean ▸ hwarnings)

end Sources

end BehaviorTree
