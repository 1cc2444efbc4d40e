import BehaviorTree.Proofs.Machine.Step

/-! What acts leave alone. Whatever is seen of a tick is compared before and after an act; most parts of a step only
report, and what is done with lanes and queries does not change memory. -/

namespace BehaviorTree

/-- The memory that programs read and write. -/
def World.memory {σ : Type} (world : World σ) : Array Storage × Array Storage × Memory :=
  (world.components, world.lookups, world.blackboard)

namespace Act

variable {σ α β γ δ : Type}

/-- What holds if the act returns. -/
abbrev Leads (act : Act σ α) (t : Tick σ) (post : α → Tick σ → Prop) : Prop :=
  act.Ensures t (fun _ => True) post

theorem Ensures.of_ok {act : Act σ α} {t t' : Tick σ} {refused : Fault → Prop} {post : α → Tick σ → Prop}
    {a : α} (h : act.Ensures t refused post) (heq : act t = .ok (a, t')) : post a t' := by
  unfold Ensures at h
  rwa [heq] at h

theorem Ensures.and {act : Act σ α} {t : Tick σ} {refused : Fault → Prop} {post post' : α → Tick σ → Prop}
    (h : act.Ensures t refused post) (h' : act.Ensures t refused post') :
    act.Ensures t refused fun a t' => post a t' ∧ post' a t' := by
  unfold Ensures at h h' ⊢
  split
  next heq =>
    simp only [heq] at h h'
    exact ⟨h, h'⟩
  next heq =>
    simp only [heq] at h
    exact h

theorem Leads.lift {x : Except Fault α} {t : Tick σ} {post : α → Tick σ → Prop} (h : ∀ a, x = .ok a → post a t) :
    (liftM x : Act σ α).Leads t post := by
  cases x with
  | error fault => exact .of_error (show _ = Except.error fault from rfl) trivial
  | ok a => exact .of_eq (show _ = Except.ok (a, t) from rfl) (h a rfl)

theorem Leads.onWorld {f : World σ → Except Fault (World σ)} {t : Tick σ} {post : Unit → Tick σ → Prop}
    (h : ∀ world, f t.world = .ok world → post () { t with world := world }) : (Act.onWorld f).Leads t post := by
  cases hworld : f t.world with
  | error fault =>
    refine .of_error (show _ = Except.error fault from ?_) trivial
    show ((f t.world >>= fun world => Except.ok (world, t)) >>= _) = _
    rw [hworld]
    rfl
  | ok world => exact .of_eq (onWorld_eq hworld) (h world hworld)

/-- What is seen of a tick is the same if the act returns. -/
def Leaves (see : Tick σ → γ) (act : Act σ α) : Prop :=
  ∀ t, act.Leads t fun _ t' => see t' = see t

namespace Leaves

variable {see : Tick σ → γ}

theorem pure (a : α) : (Pure.pure a : Act σ α).Leaves see :=
  fun _ => .pure rfl

theorem throw (fault : Fault) : (MonadExcept.throw fault : Act σ α).Leaves see :=
  fun _ => .of_error rfl trivial

theorem bind {act : Act σ α} {next : α → Act σ β} (h : act.Leaves see) (hnext : ∀ a, (next a).Leaves see) :
    (act >>= next).Leaves see := by
  intro t
  exact .seq (h t) fun a t' hsame => (hnext a t').mono fun _ t'' hsame' => hsame'.trans hsame

/-- What is read is the tick itself. -/
theorem get_bind {next : Tick σ → Act σ β} (h : ∀ t, (next t).Leaves see) : (get >>= next).Leaves see :=
  fun t => .bind_of_eq rfl (h t t)

theorem lift (x : Except Fault α) : (liftM x : Act σ α).Leaves see :=
  fun _ => .lift fun _ _ => rfl

theorem forM {f : α → Act σ Unit} (h : ∀ a, (f a).Leaves see) (items : List α) : (items.forM f).Leaves see := by
  induction items with
  | nil => exact pure ()
  | cons a items ih =>
    rw [List.forM_eq_forM, List.forM_cons]
    exact (h a).bind fun _ => ih

theorem lane (index : Nat) : (Act.lane index : Act σ Lane).Leaves see :=
  get_bind fun t => lift (t.agent.lanes.lane index)

theorem top? (index : Nat) : (Act.top? index : Act σ (Option Frame)).Leaves see :=
  get_bind fun t => lift (t.agent.lanes.top? index)

theorem node (p : Program) (id : NodeId) : (Act.node p id : Act σ Node).Leaves see := by
  unfold Act.node
  split
  · exact pure _
  · exact throw _

/-- Less is seen. -/
theorem comp {act : Act σ α} (h : act.Leaves see) (f : γ → δ) : act.Leaves (f ∘ see) :=
  fun t => (h t).mono fun _ _ hsame => congrArg f hsame

end Leaves

/-! ### Reports -/

/-- Neither the agent nor its world changes. -/
abbrev Reports (act : Act σ α) : Prop :=
  act.Leaves fun t => (t.agent, t.world)

namespace Reports

theorem notice (n : Notice) : (Act.notice n : Act σ Unit).Reports :=
  fun _ => .of_eq rfl rfl

theorem lane (index : Nat) : (Act.lane index : Act σ Lane).Reports :=
  Leaves.lane index

theorem top? (index : Nat) : (Act.top? index : Act σ (Option Frame)).Reports :=
  Leaves.top? index

theorem node (p : Program) (id : NodeId) : (Act.node p id : Act σ Node).Reports :=
  Leaves.node p id

theorem emitFor (p : Program) (id : NodeId) (event : EventKind) (laneId : LaneId) (depth : Nat) :
    (Act.emitFor p id event laneId depth : Act σ Unit).Reports :=
  (node p id).bind fun _ => .get_bind fun _ => notice _

theorem emit (p : Program) (index : Nat) (id : NodeId) (event : EventKind) :
    (Act.emit p index id event : Act σ Unit).Reports :=
  (lane index).bind fun _ => emitFor p id event _ _

theorem evaluateWith (p : Program) (value : ValueRef) (read : Surroundings → ValueRef → Except Fault α) :
    (Act.evaluateWith p value read : Act σ α).Reports :=
  (notice _).bind fun _ => .get_bind fun _ => .lift _

theorem choose (p : Program) (branches : List Branch) (progress : Nat) :
    (Act.choose p branches progress : Act σ _).Reports := by
  induction branches generalizing progress with
  | nil => exact .pure none
  | cons branch rest ih =>
    refine (evaluateWith p branch.guard _).bind fun holds => ?_
    cases holds with
    | false => exact ih _
    | true =>
      by_cases h : progress % 0x10000 + 1 < 0x10000
      · simp only [h, if_true]
        exact .pure _
      · simp only [h, if_false, if_true]
        exact (Leaves.throw _).bind fun _ => .pure _

theorem waitOver (p : Program) (index : Nat) (goal : WaitGoal) : (Act.waitOver p index goal : Act σ Bool).Reports := by
  cases goal with
  | condition holds => exact evaluateWith p holds _
  | duration seconds =>
    exact (evaluateWith p seconds _).bind fun _ => (lane index).bind fun _ => .get_bind fun _ => .pure _

end Reports

/-! ### Lanes -/

/-- Nothing changes outside of the agent. -/
abbrev Inner (act : Act σ α) : Prop :=
  act.Leaves fun t => t.world

theorem Reports.inner {act : Act σ α} (reports : act.Reports) : act.Inner :=
  reports.comp Prod.snd

namespace Inner

theorem onLanes (index : Nat) (f : LaneStack → Except Fault (α × LaneStack)) :
    (Act.onLanes index f : Act σ α).Inner := by
  intro t
  cases h : f t.agent.lanes with
  | error fault => exact .onLanes_error h trivial
  | ok r => exact .onLanes h fun _ => rfl

theorem push (index : Nat) (frame : Frame) : (Act.push index frame : Act σ Unit).Inner :=
  onLanes index _

theorem pop (index : Nat) : (Act.pop index : Act σ Unit).Inner :=
  onLanes index _

theorem setChildIndex (index : Nat) (childIndex : UInt16) : (Act.setChildIndex index childIndex : Act σ Unit).Inner :=
  onLanes index _

theorem setHolder (holder : Option QueryRequest) : (Act.setHolder holder : Act σ Unit).Inner :=
  fun _ => .of_eq rfl rfl

theorem freshLane : (Act.freshLane : Act σ LaneId).Inner := by
  intro t
  by_cases h : t.agent.nextLane + 1 < 0x100000000
  · exact .of_eq (freshLane_of_lt h) rfl
  · exact .of_error (freshLane_of_le (Nat.le_of_not_lt h)) trivial

theorem createPrimary : (Act.createPrimary : Act σ Unit).Inner :=
  freshLane.bind fun _ => onLanes 0 _

theorem call (p : Program) (index : Nat) (caller : NodeId) (progress : UInt16) (child : NodeId) :
    (Act.call p index caller progress child : Act σ Unit).Inner :=
  (setChildIndex index progress).bind fun _ => (Reports.emit p index caller .call).inner.bind fun _ => push index _

theorem finish (p : Program) (index : Nat) (id : NodeId) : (Act.finish p index id : Act σ Unit).Inner :=
  (Reports.emit p index id .return).inner.bind fun _ => pop index

theorem wait (p : Program) (index : Nat) (frame : Frame) (goal : WaitGoal) :
    (Act.wait p index frame goal : Act σ Outcome).Inner := by
  have hrest : (do
      if ← waitOver p index goal then
        Act.finish p index frame.node
        return .goOn
      else
        emit p index frame.node .wait
        return .suspend : Act σ Outcome).Inner := by
    refine (Reports.waitOver p index goal).inner.bind fun passed => ?_
    cases passed with
    | true => exact (finish p index frame.node).bind fun _ => .pure _
    | false => exact (Reports.emit p index frame.node .wait).inner.bind fun _ => .pure _
  unfold Act.wait
  split_ifs
  · exact (setChildIndex index 1).bind fun _ => .get_bind fun _ => (onLanes index _).bind fun _ => hrest
  · exact hrest

theorem laneRoot (p : Program) (index : Nat) (frame : Frame) (child : NodeId) (once rootVisited : Bool) :
    (Act.laneRoot p index frame child once rootVisited : Act σ Outcome).Inner := by
  unfold Act.laneRoot
  split_ifs
  · exact (Reports.emit p index frame.node .yield).inner.bind fun _ => .pure _
  · exact (call p index frame.node 1 child).bind fun _ => .pure _

theorem single (p : Program) (index : Nat) (frame : Frame) (child : NodeId) :
    (Act.single p index frame child : Act σ Unit).Inner := by
  unfold Act.single
  split_ifs
  · exact call p index frame.node 1 child
  · exact finish p index frame.node

end Inner

/-! ### Memory -/

/-- What programs read and write does not change. -/
abbrev Still (act : Act σ α) : Prop :=
  act.Leaves fun t => t.world.memory

theorem Inner.still {act : Act σ α} (inner : act.Inner) : act.Still :=
  inner.comp World.memory

namespace Still

/-- What happens to the query system alone. -/
theorem onQueries (f : σ → σ) : (Act.onWorld fun w => .ok { w with queries := f w.queries } : Act σ Unit).Still :=
  fun _ => .of_eq rfl rfl

variable [QuerySystem σ]

theorem submit (request : QueryRequest) : (Act.submit request : Act σ Unit).Still :=
  (Reports.notice _).inner.still.bind fun _ => onQueries (QuerySystem.submit · request)

theorem poll (request : QueryRequest) : (Act.poll request : Act σ QueryStatus).Still :=
  fun _ => .of_eq rfl rfl

theorem cancel (request : QueryRequest) : (Act.cancel request : Act σ Unit).Still :=
  onQueries (QuerySystem.cancel · request)

theorem abort (p : Program) (index : Nat) (id : NodeId) (owned : Nat) :
    (Act.abort p index id owned : Act σ Unit).Still := by
  have hreport (lane : Lane) (depth : Nat) : (Act.emitFor p id .abort lane.id depth : Act σ Unit).Still :=
    (Reports.emitFor p id .abort lane.id depth).inner.still
  refine (Reports.lane index).inner.still.bind fun lane => (Inner.onLanes index _).still.bind fun removed => .forM (fun gone => ?_) _
  refine .get_bind fun t => ?_
  cases t.agent.holder with
  | none => exact hreport gone lane.count
  | some request =>
    dsimp only
    split_ifs
    · exact (Inner.setHolder none).still.bind fun _ => (cancel request).bind fun _ => hreport gone lane.count
    · exact hreport gone lane.count

theorem abortThread (p : Program) (index : Nat) (id thread : NodeId) :
    (Act.abortThread p index id thread : Act σ Unit).Still := by
  refine .get_bind fun t => ?_
  cases t.agent.lanes.findOwned? index thread with
  | none => exact .pure ()
  | some owned => exact abort p index id owned

theorem restart (index : Nat) : (Act.restart index : Act σ Outcome).Still := by
  have hbegin : (do
      Act.onLanes index fun s => .ok ((), s.reset)
      Act.createPrimary
      return if index = 0 then .goOn else .suspend : Act σ Outcome).Still :=
    (Inner.onLanes index _).still.bind fun _ => Inner.createPrimary.still.bind fun _ => .pure _
  refine (Reports.lane index).inner.still.bind fun lane => (Reports.notice _).inner.still.bind fun _ => .get_bind fun t => ?_
  cases t.agent.holder with
  | none => exact hbegin
  | some request => exact (Inner.setHolder none).still.bind fun _ => (cancel request).bind fun _ => hbegin

theorem unwind (p : Program) (index depth : Nat) : (Act.unwind p index depth : Act σ Bool).Still := by
  induction depth with
  | zero => exact .pure false
  | succ depth ih =>
    unfold Act.unwind
    refine (Reports.top? index).inner.still.bind fun top => ?_
    cases top with
    | none => exact .pure false
    | some frame =>
      refine (Reports.node p frame.node).inner.still.bind fun node => ?_
      split
      · exact (Reports.emit p index frame.node .catch).inner.still.bind fun _ => (Inner.pop index).still.bind fun _ => .pure true
      · exact (abortThread p index frame.node _).bind fun _ => (Inner.pop index).still.bind fun _ => ih
      · exact (Inner.pop index).still.bind fun _ => ih

theorem fail (p : Program) (index : Nat) (id : NodeId) : (Act.fail p index id : Act σ Outcome).Still := by
  refine (Reports.emit p index id .fail).inner.still.bind fun _ => (Inner.pop index).still.bind fun _ => ?_
  refine (Reports.lane index).inner.still.bind fun lane => (unwind p index lane.count).bind fun caught => ?_
  cases caught with
  | true => exact .pure Outcome.goOn
  | false => exact restart index

theorem parallel (p : Program) (index : Nat) (frame : Frame) (main thread : NodeId) :
    (Act.parallel p index frame main thread : Act σ Unit).Still := by
  unfold Act.parallel
  split_ifs
  · refine (Inner.setChildIndex index 1).still.bind fun _ => Inner.freshLane.still.bind fun id => .get_bind fun t => ?_
    refine (Inner.onLanes _ _).still.bind fun _ => (Reports.notice _).inner.still.bind fun _ => ?_
    refine (Reports.lane index).inner.still.bind fun lane => ?_
    exact (Reports.emitFor p frame.node .spawn id _).inner.still.bind fun _ => (Inner.call p index frame.node 1 main).still
  · exact (abortThread p index frame.node thread).bind fun _ => (Inner.finish p index frame.node).still

end Still

end Act

end BehaviorTree
