import BehaviorTree.Proofs.Machine.Deeds

/-! The moves of a lane: everything that a step can do to the lanes and to the query in flight. Whatever holds of
all moves holds of every step that returns. -/

namespace BehaviorTree

namespace Roster

variable {σ : Type} [QuerySystem σ]

/-- The query on top of a lane looks for its results. -/
inductive Polls (index : Nat) (request : QueryRequest) (r : Roster σ) : Outcome → Roster σ → Prop
  | pending {queries : σ} (h : QuerySystem.poll r.queries request = (.pending, queries)) :
    Polls index request r .suspend { r with queries := queries }
  | complete {queries : σ} {count : UInt32} (h : QuerySystem.poll r.queries request = (.complete count, queries)) :
    Polls index request r .goOn ({ r with holder := none, queries := queries }.onLane index Kin.pop)

/-- Asks the query system. -/
def submit (request : QueryRequest) (r : Roster σ) : Roster σ :=
  { r with holder := some request, queries := QuerySystem.submit r.queries request }

/-- What a step of a lane can do. -/
inductive Moves (p : Program) (now : UInt64) (index : Nat) (rootVisited : Bool) (r : Roster σ) :
    Outcome → Roster σ → Prop
  | yield {k : Kin} {frame : Frame} {node : Node} {child : NodeId} {once : Bool} (top : r.Top p index k frame node)
    (hbottom : k.frames.length = 1) (hroot : node.rootChild? = some (child, once))
    (hagain : rootVisited = true ∨ once = true ∧ frame.childIndex ≠ 0) : Moves p now index rootVisited r .suspend r
  | enter {k : Kin} {frame : Frame} {node : Node} {child : NodeId} {once : Bool} (top : r.Top p index k frame node)
    (hbottom : k.frames.length = 1) (hroot : node.rootChild? = some (child, once))
    (hfirst : rootVisited = false ∧ (once = true → frame.childIndex = 0)) :
    Moves p now index rootVisited r .enterRoot (r.onLane index fun k => (k.setProgress 1).push (.start child))
  | call {k : Kin} {frame : Frame} {node : Node} {progress : UInt16} {child : NodeId}
    (top : r.Top p index k frame node) (habove : 1 < k.frames.length)
    (hcall : node.Calls frame.childIndex progress child) :
    Moves p now index rootVisited r .goOn (r.onLane index fun k => (k.setProgress progress).push (.start child))
  | finish {k : Kin} {frame : Frame} {node : Node} (top : r.Top p index k frame node) (habove : 1 < k.frames.length)
    (hfinish : node.Finishes frame.childIndex) : Moves p now index rootVisited r .goOn (r.onLane index Kin.pop)
  | wait {k : Kin} {frame : Frame} {goal : WaitGoal} (top : r.Top p index k frame (.wait goal))
    (hlater : frame.childIndex ≠ 0) : Moves p now index rootVisited r .suspend r
  | beginWait {k : Kin} {frame : Frame} {goal : WaitGoal} (top : r.Top p index k frame (.wait goal))
    (hfirst : frame.childIndex = 0) :
    Moves p now index rootVisited r .suspend (r.onLane index fun k => (k.setProgress 1).setWaitStart now)
  | passWait {k : Kin} {frame : Frame} {goal : WaitGoal} (top : r.Top p index k frame (.wait goal))
    (habove : 1 < k.frames.length) (hfirst : frame.childIndex = 0) :
    Moves p now index rootVisited r .goOn (r.onLane index fun k => ((k.setProgress 1).setWaitStart now).pop)
  | blocked {k : Kin} {frame : Frame} {id : UInt16} {result : VarSlot} {other : QueryRequest}
    (top : r.Top p index k frame (.query id result)) (hholder : r.holder = some other) (hother : other ≠ ⟨id, k.id⟩) :
    Moves p now index rootVisited r .suspend r
  | poll {k : Kin} {frame : Frame} {id : UInt16} {result : VarSlot} {outcome : Outcome} {r' : Roster σ}
    (top : r.Top p index k frame (.query id result)) (habove : 1 < k.frames.length)
    (hholder : r.holder = some ⟨id, k.id⟩) (polls : r.Polls index ⟨id, k.id⟩ outcome r') :
    Moves p now index rootVisited r outcome r'
  | ask {k : Kin} {frame : Frame} {id : UInt16} {result : VarSlot} {outcome : Outcome} {r' : Roster σ}
    (top : r.Top p index k frame (.query id result)) (habove : 1 < k.frames.length) (hholder : r.holder = none)
    (polls : ((r.onLane index (Kin.setProgress 1)).submit ⟨id, k.id⟩).Polls index ⟨id, k.id⟩ outcome r') :
    Moves p now index rootVisited r outcome r'
  | fork {k : Kin} {frame : Frame} {main thread : NodeId} (top : r.Top p index k frame (.parallel main thread))
    (habove : 1 < k.frames.length) (hfirst : frame.childIndex = 0) :
    Moves p now index rootVisited r .goOn
      (((r.onLane index (Kin.setProgress 1)).spawn k.id thread).onLane index fun k =>
        (k.setProgress 1).push (.start main))
  | join {k : Kin} {frame : Frame} {main thread : NodeId} {r' : Roster σ}
    (top : r.Top p index k frame (.parallel main thread)) (habove : 1 < k.frames.length)
    (hlater : frame.childIndex ≠ 0) (releases : r.Releases index thread r') :
    Moves p now index rootVisited r .goOn (r'.onLane index Kin.pop)
  | catch {k : Kin} {frame : Frame} {node : Node} {r' : Roster σ} (top : r.Top p index k frame node)
    (hfail : node.Fails frame.childIndex) (unwinds : Unwinds p index (r.onLane index Kin.pop) true r') :
    Moves p now index rootVisited r .goOn r'
  | restart {k : Kin} {frame : Frame} {node : Node} {r' : Roster σ} (top : r.Top p index k frame node)
    (hfail : node.Fails frame.childIndex) (unwinds : Unwinds p index (r.onLane index Kin.pop) false r') :
    Moves p now index rootVisited r (if index = 0 then .goOn else .suspend) r'.restart

end Roster

namespace Roster

variable {σ : Type} [QuerySystem σ] {p : Program} {index : Nat} {r : Roster σ}

theorem Does.moves {now : UInt64} {rootVisited : Bool} {s s' : Surroundings} {outcome : Outcome} {r' : Roster σ}
    (does : r.Does p now index rootVisited s outcome r' s') : r.Moves p now index rootVisited outcome r' := by
  cases does with
  | yield top hbottom hroot hagain => exact .yield top hbottom hroot hagain
  | enter top hbottom hroot hfirst => exact .enter top hbottom hroot hfirst
  | call top habove _ hcall => exact .call top habove hcall
  | finish top habove _ hfinish => exact .finish top habove hfinish
  | wait top hlater => exact .wait top hlater
  | beginWait top _ hfirst => exact .beginWait top hfirst
  | passWait top habove hfirst => exact .passWait top habove hfirst
  | endWait top habove hlater => exact .finish top habove hlater
  | «catch» top _ hfail unwinds => exact .catch top hfail unwinds
  | restart top _ hfail unwinds => exact .restart top hfail unwinds

theorem Polls.orderly {request : QueryRequest} {outcome : Outcome} {r' : Roster σ}
    (polls : r.Polls index request outcome r') (orderly : r.Orderly) : r'.Orderly := by
  cases polls with
  | pending _ => exact orderly.mono (List.Sublist.refl _) (Nat.le_refl _)
  | complete _ =>
    refine Orderly.onLane ?_ index fun _ => ⟨rfl, rfl⟩
    exact orderly.mono (List.Sublist.refl _) (Nat.le_refl _)

/-- Lanes stay apart, and ids are given only once. -/
theorem Moves.orderly {now : UInt64} {rootVisited : Bool} {outcome : Outcome} {r' : Roster σ}
    (moves : r.Moves p now index rootVisited outcome r') (orderly : r.Orderly) : r'.Orderly := by
  cases moves with
  | yield _ _ _ _ | wait _ _ | blocked _ _ _ => exact orderly
  | enter _ _ _ _ | call _ _ _ | finish _ _ _ | beginWait _ _ | passWait _ _ _ =>
    exact orderly.onLane index fun _ => ⟨rfl, rfl⟩
  | poll _ _ _ polls => exact polls.orderly orderly
  | ask _ _ _ polls =>
    have asked := orderly.onLane index (f := Kin.setProgress 1) fun _ => ⟨rfl, rfl⟩
    exact polls.orderly (asked.mono (List.Sublist.refl _) (Nat.le_refl _))
  | fork top _ _ =>
    have begun := orderly.onLane index (f := Kin.setProgress 1) fun _ => ⟨rfl, rfl⟩
    refine Orderly.onLane ?_ index fun _ => ⟨rfl, rfl⟩
    exact begun.spawn (List.mem_of_getElem? (top.onLane (Kin.setProgress 1))) _
  | join _ _ _ releases => exact (releases.orderly orderly).onLane index fun _ => ⟨rfl, rfl⟩
  | «catch» _ _ unwinds => exact unwinds.orderly (orderly.onLane index fun _ => ⟨rfl, rfl⟩)
  | restart _ _ _ => exact .begin _

end Roster

namespace Act

variable {σ : Type} {p : Program} {index depth : Nat} {now : UInt64} {r : Roster σ} {t : Tick σ}

section Queries

variable [QuerySystem σ]

theorem poll_shows (shown : t.Shows p index depth now r) (request : QueryRequest) :
    (poll request).Leads t fun status t' => ∃ queries, QuerySystem.poll r.queries request = (status, queries) ∧
      t'.Shows p index depth now { r with queries := queries } := by
  have suits := shown.sound.suits
  have hqueries : t.world.queries = r.queries := by rw [← shown.roster]; rfl
  refine .of_eq rfl ⟨(QuerySystem.poll t.world.queries request).2, congrArg (QuerySystem.poll · request) hqueries.symm,
    shown.sound.of_same rfl rfl ⟨suits.components, suits.lookups, suits.blackboard⟩, ?_, shown.now,
    shown.orderly.mono (List.Sublist.refl _) (Nat.le_refl _)⟩
  rw [← shown.roster]
  rfl

theorem polls_shows (shown : t.Shows p index 2 now r) {frame : Frame} (h : frame.node.toNat < p.size) {result : VarSlot}
    (hresult : p.VarValid result) (request : QueryRequest) :
    (do
      match ← poll request with
      | .complete count =>
        write result (queryResult result.type count)
        setHolder none
        finish p index frame.node
        return .goOn
      | .pending =>
        emit p index frame.node .wait
        return .suspend : Act σ Outcome).Leads t fun outcome t' =>
      r.Polls index request outcome t'.roster ∧ t'.world.now = now := by
  refine .seq (poll_shows shown request) ?_
  rintro status t ⟨queries, hpoll, polled⟩
  cases status with
  | pending =>
    refine .seq (emit_shows polled h .wait) fun _ t shown => .pure ⟨?_, shown.now⟩
    rw [shown.roster]
    exact .pending hpoll
  | complete count =>
    have hwrite := (Quiet.write result (queryResult result.type count)).keeps polled
      (write_ensures polled.sound hresult count)
    refine .seq hwrite fun _ t shown => .seq (setHolder_shows shown none) fun _ t shown => ?_
    refine .seq (finish_shows shown h) fun _ t shown => .pure ⟨?_, shown.now⟩
    rw [shown.roster]
    exact .complete hpoll

theorem query_moves (shown : t.Shows p index 2 now r) {k : Kin} {frame : Frame} {id : UInt16} {result : VarSlot}
    (top : r.Top p index k frame (.query id result)) (habove : 1 < k.frames.length) (h : frame.node.toNat < p.size)
    (hresult : p.VarValid result) (rootVisited : Bool) :
    (query p index frame id result).Leads t fun outcome t' =>
      r.Moves p now index rootVisited outcome t'.roster ∧ t'.world.now = now := by
  obtain ⟨lane, hlane, hid, -⟩ := shown.lane_of top.lane
  have hholder : t.agent.holder = r.holder := by rw [← shown.roster]; rfl
  refine .bind_of_eq hlane (.bind_of_eq rfl ?_)
  dsimp only
  rw [hid, hholder]
  split_ifs with hbusy hfree
  · obtain ⟨other, hother⟩ : ∃ other, r.holder = some other :=
      Option.isSome_iff_exists.mp (Bool.and_eq_true_iff.mp hbusy).1
    refine .seq (emit_shows shown h .wait) fun _ t shown => .pure ⟨?_, shown.now⟩
    rw [shown.roster]
    refine .blocked top hother ?_
    rw [hother] at hbusy
    simpa using hbusy
  · have hnone : r.holder = none := by simpa using hfree
    refine .seq (setHolder_shows shown _) fun _ t shown => .seq (setChildIndex_shows shown 1) fun _ t shown => ?_
    have hsubmit : (submit ⟨id, k.id⟩).Leads t fun _ t' =>
        t'.Shows p index 2 now ((r.onLane index (Kin.setProgress 1)).submit ⟨id, k.id⟩) :=
      .seq ((Reports.notice _).quiet.keeps shown (notice_ensures shown.sound _)) fun _ t shown =>
        onQueries_shows shown (QuerySystem.submit · _)
    refine .seq hsubmit fun _ t shown => (polls_shows shown h hresult _).mono fun _ t' polls => ?_
    exact ⟨.ask top habove hnone polls.1, polls.2⟩
  · have hself : r.holder = some ⟨id, k.id⟩ := by
      cases hother : r.holder with
      | none => simp [hother] at hfree
      | some other => simpa [hother] using hbusy
    refine (polls_shows shown h hresult _).mono fun _ t' polls => ?_
    exact ⟨.poll top habove hself polls.1, polls.2⟩

theorem parallel_moves (shown : t.Shows p index 2 now r) {k : Kin} {frame : Frame} {main thread : NodeId}
    (top : r.Top p index k frame (.parallel main thread)) (habove : 1 < k.frames.length)
    (h : frame.node.toNat < p.size) (hmain : main.toNat < p.size) (hthread : p.IsLaneRoot thread) (rootVisited : Bool) :
    (parallel p index frame main thread).Leads t fun _ t' =>
      r.Moves p now index rootVisited .goOn t'.roster ∧ t'.world.now = now := by
  unfold parallel
  split_ifs with hfirst
  · refine .seq (setChildIndex_shows shown 1) fun _ t shown => ?_
    have hk := top.onLane (Kin.setProgress 1)
    have orderly := shown.orderly
    refine .seq (freshLane_shows shown) ?_
    rintro id t ⟨rfl, shown⟩
    refine .bind_of_eq rfl (.seq (spawn_shows shown rfl orderly hk hthread) fun place t shown => ?_)
    refine .seq ((Reports.notice _).quiet.keeps shown (notice_ensures shown.sound _)) fun _ t shown => ?_
    obtain ⟨lane, hlane⟩ : ∃ lane, Act.lane index t = .ok (lane, t) := ⟨_, lane_eq shown.sound.index_lt⟩
    have hreport := (Reports.emitFor p frame.node .spawn r.next lane.count).quiet.keeps shown
      (emitFor_ensures shown.sound h .spawn r.next lane.count)
    refine .bind_of_eq hlane (.seq hreport fun _ t shown => ?_)
    refine (call_shows shown h hmain 1).mono fun _ t shown => ⟨?_, shown.now⟩
    have hmoves : r.Moves p now index rootVisited .goOn _ := .fork top habove hfirst
    rwa [shown.roster]
  · refine .seq (abortThread_shows shown h thread) ?_
    rintro _ t ⟨r', releases, shown⟩
    refine (finish_shows shown h).mono fun _ t shown => ⟨?_, shown.now⟩
    rw [shown.roster]
    exact .join top habove hfirst releases

/-- Whatever node is on top of the lane, the step is one of its moves. -/
theorem stepNode_moves (valid : p.Valid) (shown : t.Shows p index 1 now r) {k : Kin} {frame : Frame} {node : Node}
    (top : r.Top p index k frame node) (hknown : frame.node.toNat < p.size)
    (habove : ¬ p.IsLaneRoot frame.node → 1 < k.frames.length) (rootVisited : Bool) :
    (stepNode p index frame (k.frames.length = 1) rootVisited node).Leads t fun outcome t' =>
      r.Moves p now index rootVisited outcome t'.roster ∧ t'.world.now = now := by
  have hvalid := valid.node top.known
  have hplain (hkind : node.kind ≠ .parallel ∧ node.kind ≠ .query) :=
    (stepNode_did valid shown rfl top hknown habove hkind rootVisited).mono fun outcome t' did =>
      (⟨did.does.moves, did.now⟩ : r.Moves p now index rootVisited outcome t'.roster ∧ t'.world.now = now)
  have habove (hkind : node.kind ≠ .root ∧ node.kind ≠ .threadRoot) : 1 < k.frames.length := by
    refine habove ?_
    rintro ⟨other, hother, hroot⟩
    obtain rfl := Option.some.inj (top.known.symm.trans hother)
    exact hroot.elim hkind.1 hkind.2
  cases node with
  | query id result =>
    have habove := habove (by simp [Node.kind])
    exact query_moves (shown.deepen top.lane habove) top habove hknown hvalid.payload rootVisited
  | parallel main thread =>
    have habove := habove (by simp [Node.kind])
    have hmain := hvalid.children main (by simp [Node.children])
    have hthread : p.IsLaneRoot thread := by
      obtain ⟨node, hthread, hkind⟩ := Option.map_eq_some_iff.mp hvalid.payload
      exact ⟨node, hthread, .inr hkind⟩
    exact .seq (parallel_moves (shown.deepen top.lane habove) top habove hknown hmain hthread rootVisited) fun _ _ h =>
      .pure h
  | _ => exact hplain (by simp [Node.kind])

/-- A step that returns is a move of its lane. -/
theorem step_moves (valid : p.Valid) {t : Tick σ} (steady : t.Steady p) (orderly : t.roster.Orderly)
    (h : index < t.agent.lanes.lanes.size) (rootVisited : Bool) :
    (step p index rootVisited).Leads t fun outcome t' =>
      t.roster.Moves p t.world.now index rootVisited outcome t'.roster ∧ t'.world.now = t.world.now := by
  obtain ⟨shown, k, frame, node, top, hknown, habove, hstep⟩ := step_top steady orderly h
  have hmoves := stepNode_moves valid shown top hknown habove rootVisited
  unfold Leads Ensures at hmoves ⊢
  rwa [hstep]

end Queries

end Act

end BehaviorTree
