import BehaviorTree.Proofs.Machine.Parallel

/-! Structured parallelism along runs. Between two steps of any run the parallel frames in progress of every lane
correspond to the lanes that it owns, and a parallel frame that finishes or is unwound finds the lane that it
started itself. -/

namespace BehaviorTree

open Refusal

/-- The agents between two steps of a run, whichever lane makes them and in whatever world, with what their frames
have started. -/
inductive Program.Lives (p : Program) : Agent → Spawns → Prop
  | new {capacity block : Nat} {agent : Agent} (h : Agent.new capacity block = .ok agent) : Lives p agent fun _ => []
  | begin {σ : Type} {t t' : Tick σ} {spawns : Spawns} (lives : Lives p t.agent spawns) (suits : t.world.Suits p)
    (hnone : t.agent.lanes.lanes = #[]) (h : Act.createPrimary t = .ok ((), t')) : Lives p t'.agent spawns
  | step {σ : Type} [QuerySystem σ] {t t' : Tick σ} {spawns : Spawns} {index : Nat} {rootVisited : Bool}
    {outcome : Outcome} (lives : Lives p t.agent spawns) (suits : t.world.Suits p)
    (hindex : index < t.agent.lanes.lanes.size) (h : Act.step p index rootVisited t = .ok (outcome, t')) :
    Lives p t'.agent (spawns.after p index t.agent t'.agent)

namespace Act

variable {σ : Type}

/-- The step of a lane raises a failure. What is left of the lane is about to be unwound. -/
inductive Raises (p : Program) (index : Nat) (t : Tick σ) : Tick σ → Prop
  | fail {frame : Frame} {t' : Tick σ} (htop : t.agent.lanes.top? index = .ok (some frame))
    (hnode : p.node? frame.node = some .fail)
    (h : (do emit p index frame.node .fail; pop index : Act σ Unit) t = .ok ((), t')) : Raises p index t t'
  | selector {frame : Frame} {branches : List Branch} {u t' : Tick σ}
    (htop : t.agent.lanes.top? index = .ok (some frame)) (hnode : p.node? frame.node = some (.selector branches))
    (hfirst : frame.childIndex = 0) (hnone : choose p branches 0 t = .ok (none, u))
    (h : (do emit p index frame.node .fail; pop index : Act σ Unit) u = .ok ((), t')) : Raises p index t t'

variable [QuerySystem σ]

/-- The ticks at which `unwind` looks at the top frame of a lane, from the first one on, with what is left of its
bound. -/
inductive Unwinds (p : Program) (index depth : Nat) (t : Tick σ) : Nat → Tick σ → Prop
  | here : Unwinds p index depth t depth t
  | thread {frame : Frame} {main thread : NodeId} {left : Nat} {u u' : Tick σ}
    (before : Unwinds p index depth t (left + 1) u) (htop : u.agent.lanes.top? index = .ok (some frame))
    (hnode : p.node? frame.node = some (.parallel main thread)) (hprogress : frame.childIndex ≠ 0)
    (h : (do abortThread p index frame.node thread; pop index : Act σ Unit) u = .ok ((), u')) :
    Unwinds p index depth t left u'
  | skip {frame : Frame} {node : Node} {left : Nat} {u u' : Tick σ} (before : Unwinds p index depth t (left + 1) u)
    (htop : u.agent.lanes.top? index = .ok (some frame)) (hnode : p.node? frame.node = some node)
    (hskip : node.kind = .catch ∨ node.kind = .parallel → frame.childIndex = 0)
    (h : pop index u = .ok ((), u')) : Unwinds p index depth t left u'

variable {p : Program} {index : Nat} {t t' : Tick σ}

omit [QuerySystem σ] in
theorem bind_eq {α β : Type} {act : Act σ α} {next : α → Act σ β} {a : α} (h : act t = .ok (a, t')) :
    (act >>= next) t = next a t' := by
  show (act t >>= fun r => next r.1 r.2) = _
  rw [h]
  rfl

/-- The rest of a step that fails. -/
theorem Raises.step_eq (raises : Raises p index t t') (h : index < t.agent.lanes.lanes.size) (rootVisited : Bool) :
    step p index rootVisited t =
      (do if ← unwind p index (← lane index).count then return .goOn else restart index : Act σ Outcome) t' := by
  have hfail {u : Tick σ} {id : NodeId}
      (h : (do emit p index id .fail; pop index : Act σ Unit) u = .ok ((), t')) :
      Act.fail p index id u =
        (do if ← unwind p index (← lane index).count then return .goOn else restart index : Act σ Outcome) t' := by
    rw [Act.fail, ← bind_assoc]
    exact bind_eq h
  cases raises with
  | fail htop hnode hraise => exact (Act.step_eq h htop hnode rootVisited).trans (hfail hraise)
  | selector htop hnode hfirst hnone hraise =>
    rw [Act.step_eq h htop hnode, stepNode, hfirst]
    exact (bind_eq hnone).trans (hfail hraise)

/-- The loop goes on from every tick that it comes to. -/
theorem Unwinds.unwind_eq {depth left : Nat} {u : Tick σ} (unwinds : Unwinds p index depth t left u) :
    unwind p index depth t = unwind p index left u := by
  induction unwinds with
  | here => rfl
  | @thread frame main thread left u u' _ htop hnode hprogress h ih =>
    rw [ih, unwind, bind_eq (by rw [top?_apply, htop]; rfl)]
    have hrunning : (frame.childIndex != 0) = true := by simpa using hprogress
    refine (bind_eq (node_eq hnode)).trans ?_
    rw [hrunning]
    show (abortThread p index frame.node thread >>= fun _ => pop index >>= fun _ => unwind p index left) u = _
    rw [← bind_assoc]
    exact bind_eq h
  | @skip frame node left u u' _ htop hnode hskip h ih =>
    rw [ih, unwind, bind_eq (by rw [top?_apply, htop]; rfl)]
    refine (bind_eq (node_eq hnode)).trans ?_
    cases hrunning : frame.childIndex != 0 with
    | false => cases node <;> exact bind_eq h
    | true =>
      have hplain (hkind : node.kind = .catch ∨ node.kind = .parallel) : False := by
        simp [hskip hkind] at hrunning
      cases node with
      | «catch» child => exact (hplain (.inl rfl)).elim
      | parallel main thread => exact (hplain (.inr rfl)).elim
      | _ => exact bind_eq h

end Act

namespace Agent

/-- If a parallel frame in progress is on top of the lane, the lane that is found for it is the one that this very
frame started. -/
def FindsOwn (p : Program) (spawns : Spawns) (index : Nat) (agent : Agent) : Prop :=
  ∀ v frame thread, agent.lanes.view[index]? = some v → v.frames.getLast? = some frame →
    p.running? frame = some thread → ∃ s ∈ spawns v.id, s.place + 1 = v.frames.length ∧
      ∃ owned w, agent.lanes.findOwned? index thread = some owned ∧ agent.lanes.view[owned]? = some w ∧ w.id = s.lane

/-- Parallel frames in progress and lanes correspond. -/
structure Structured (p : Program) (spawns : Spawns) (agent : Agent) : Prop where
  /-- A lane is known by its id. -/
  nodup : (agent.lanes.view.map (·.id)).Nodup
  /-- What a lane started are the threads of its parallel frames in progress, bottom first. -/
  threads : ∀ (i : Nat) (v : LaneView), agent.lanes.view[i]? = some v →
    p.threads v.frames = (spawns v.id).map fun s => (s.place, s.thread)
  /-- The lanes that it owns are those that were started, in this order, each above the thread of its frame. -/
  lanes : ∀ (i : Nat) (v : LaneView), agent.lanes.view[i]? = some v →
    List.Forall₂ (fun s w => w.id = s.lane ∧ w.frames.head?.map (·.node) = some s.thread) (spawns v.id)
      (agent.lanes.view.filter (·.owner = some i))
  finds : ∀ i, agent.FindsOwn p spawns i

variable {p : Program} {spawns : Spawns} {agent : Agent} {σ : Type} {r : Roster σ} {index : Nat}

/-- The newest lane with the root of a thread is that of the topmost parallel frame. -/
theorem findsOwn_of_fit (ordered : agent.lanes.Ordered) (hlanes : r.lanes = agent.lanes.kin)
    (fit : r.Fit p spawns index) : agent.FindsOwn p spawns index := by
  intro v frame thread hv hlast hrunning
  have hk : r.lanes[index]? = some (agent.lanes.kinOf v) := by
    rw [hlanes, LaneStack.getElem?_kin, hv]
    rfl
  unfold Program.running? at hrunning
  split_ifs at hrunning with hfirst
  obtain ⟨main, hnode⟩ := Program.thread?_eq_some.mp hrunning
  obtain ⟨older, s, before, c, hof, hplace, -, -, hchildren, -, started, hroot⟩ :=
    fit.newest ⟨hk, hlast, hnode⟩ hfirst
  have hmem : s ∈ spawns.of (agent.lanes.kinOf v) := by simp [hof]
  refine ⟨s, (List.mem_filter.mp hmem).1, hplace, ?_⟩
  have hfound := LaneStack.findOwned?_kin ordered (hlanes ▸ fit.orderly.nodup) (hlanes ▸ hk) thread
  cases hfind : agent.lanes.findOwned? index thread with
  | none =>
    simp only [hfind, ← hlanes] at hfound
    exact absurd hroot (hfound c (by simp [hchildren]))
  | some owned =>
    simp only [hfind, ← hlanes] at hfound
    obtain ⟨c', hc', hparent, -, hlast⟩ := hfound
    obtain rfl := fit.orderly.youngest hchildren hroot hc' hparent hlast
    rw [hlanes, LaneStack.getElem?_kin] at hc'
    obtain ⟨w, hw, rfl⟩ := Option.map_eq_some_iff.mp hc'
    exact ⟨owned, w, rfl, hw, started.lane⟩

theorem structured_of_tallied (ordered : agent.lanes.Ordered) (tallied : agent.roster.Tallied p spawns) :
    agent.Structured p spawns := by
  have nodup : (agent.lanes.kin.map (·.id)).Nodup := tallied.orderly.nodup
  have hkin {i : Nat} {v : LaneView} (hv : agent.lanes.view[i]? = some v) :
      agent.lanes.kin[i]? = some (agent.lanes.kinOf v) := by
    rw [LaneStack.getElem?_kin, hv]
    rfl
  refine ⟨LaneStack.ids_kin _ ▸ nodup, fun i v hv => ?_, fun i v hv => ?_, fun i => findsOwn_of_fit ordered rfl
    (tallied.fit i)⟩
  · have matched := tallied.matched _ (List.mem_of_getElem? (hkin hv))
    rw [← show spawns.of (agent.lanes.kinOf v) = spawns v.id from
      tallied.full _ (List.mem_of_getElem? (hkin hv))]
    exact matched.threads
  · have matched := tallied.matched _ (List.mem_of_getElem? (hkin hv))
    have hchildren : Kin.children agent.lanes.kin v.id =
        (agent.lanes.view.filter (·.owner = some i)).map agent.lanes.kinOf := by
      rw [Kin.children, LaneStack.kin, List.filter_map]
      congr 1
      refine List.filter_congr fun w hw => ?_
      obtain ⟨j, hj⟩ := List.mem_iff_getElem?.mp hw
      exact decide_eq_decide.mpr (LaneStack.parent_eq_iff ordered nodup hj (hkin hv))
    have started := matched.children
    rw [tallied.full _ (List.mem_of_getElem? (hkin hv))] at started
    obtain ⟨hlength, hzip⟩ := List.forall₂_iff_zip.mp (List.forall₂_map_right_iff.mp (hchildren ▸ started))
    refine List.forall₂_iff_zip.mpr ⟨hlength, fun {s w} hmem => ?_⟩
    have started := hzip hmem
    have hw := List.mem_of_mem_filter (List.of_mem_zip hmem).2
    have hoccupied := tallied.occupied _ (List.mem_map_of_mem hw : agent.lanes.kinOf w ∈ agent.lanes.kin)
    obtain ⟨bottom, rest, hframes⟩ := List.exists_cons_of_ne_nil hoccupied
    have hbottom : w.frames.head? = some bottom := congrArg List.head? hframes
    refine ⟨started.lane, ?_⟩
    rw [hbottom, Option.map_some, started.root bottom.node (congrArg (·.map Frame.node) hbottom)]

end Agent

namespace Program

variable {p : Program} {agent : Agent} {spawns : Spawns}

/-- What a run keeps between two steps. -/
theorem Lives.tallied (valid : p.Valid) (lives : p.Lives agent spawns) :
    agent.Steady p ∧ agent.roster.Tallied p spawns := by
  induction lives with
  | @new capacity block agent h =>
    have hempty : agent.roster.lanes = [] := by
      simp [Agent.roster, LaneStack.kin, LaneStack.view, (Agent.empty_of_new h).1]
    refine ⟨(Reaches.new h).steady valid, ⟨⟨?_, ?_, ?_⟩, ?_, ?_, ?_, fun _ _ => rfl⟩⟩ <;> simp [hempty]
  | @begin σ t t' spawns _ suits hnone h ih =>
    have hempty : t.agent.roster.lanes = [] := by simp [Agent.roster, LaneStack.kin, LaneStack.view, hnone]
    have hidle (id : LaneId) : spawns id = [] := ih.2.idle id (by simp [hempty])
    have hroster := ((Act.createPrimary_roster hnone).of_ok h).1
    have created : Act.createPrimary.Leads t fun _ t' => t'.Steady p ∧ t'.agent.lanes.lanes.size = 1 :=
      Act.createPrimary_ensures valid hnone suits (fun _ => trivial) fun _ => trivial
    have begun := created.of_ok h
    have tallied : t.roster.begin.Tallied p spawns := by
      refine ⟨.begin _, ?_, Roster.matched_begin (hidle _), fun k _ => ?_, fun id _ => hidle id⟩
      · simp [Roster.begin]
      · simp [Spawns.of, hidle]
    exact ⟨begun.1.toSteady, (hroster ▸ tallied).same rfl rfl⟩
  | @step σ _ t t' spawns index rootVisited outcome _ suits hindex h ih =>
    obtain ⟨steady, tallied⟩ := ih
    have steady : t.Steady p := ⟨steady, suits⟩
    have tallied : t.roster.Tallied p spawns := tallied.same rfl rfl
    have moves := ((Act.step_moves valid steady tallied.orderly hindex rootVisited).of_ok h).1
    have settled := (Act.step_settled valid steady hindex h).1
    have occupied : ∀ k ∈ t'.roster.lanes, k.frames ≠ [] := by
      intro k hk
      obtain ⟨v, hv, rfl⟩ := List.mem_map.mp hk
      obtain ⟨i, hi⟩ := List.mem_iff_getElem?.mp hv
      exact settled.occupied i v hi
    refine ⟨settled.toSteady, ?_⟩
    exact (Roster.Tallied.of_matched (moves.orderly tallied.orderly) occupied (moves.matched tallied)).same rfl rfl

/-! ### All runs -/

theorem lives_kept {σ : Type} [QuerySystem σ] (p : Program) :
    Tick.Kept p fun t : Tick σ => ∃ spawns, p.Lives t.agent spawns where
  step := by
    rintro index rootVisited outcome t t' ⟨spawns, lives⟩ steady hindex h
    exact ⟨_, lives.step steady.suits hindex h⟩
  report _ _ h := h

/-- Whenever a step of a tick begins. -/
theorem Lives.visits {σ : Type} [QuerySystem σ] (valid : p.Valid) (lives : p.Lives agent spawns) {world : World σ}
    (checked : world.check p = .ok ()) {maxCycles index : Nat} {u : Tick σ}
    (visits : p.Visits maxCycles agent world index u) : ∃ spawns', p.Lives u.agent spawns' := by
  have suits := World.suits_of_check checked
  exact (visits.kept valid (lives_kept p) (lives.tallied valid).1 suits ⟨spawns, lives⟩ fun t hnone h =>
    ⟨spawns, .begin (t := ⟨agent, world, 0, #[]⟩) lives suits hnone h⟩).1

/-- Between two ticks. -/
theorem Reaches.lives (valid : p.Valid) (reaches : p.Reaches agent) : ∃ spawns, p.Lives agent spawns := by
  induction reaches with
  | new h => exact ⟨_, .new h⟩
  | @tick σ _ maxCycles agent world t _ h ih =>
    obtain ⟨spawns, lives⟩ := ih
    have suits := World.suits_of_check (unit_bind_eq_ok_iff.mp h).1
    exact tick_kept valid (lives_kept p) (lives.tallied valid).1 ⟨spawns, lives⟩ (fun t hnone h =>
      ⟨spawns, .begin (t := ⟨agent, world, 0, #[]⟩) lives suits hnone h⟩) h

/-! ### Within a step that fails -/

section Unwinding

variable {σ : Type} [QuerySystem σ] {index : Nat} {t u : Tick σ}

omit [QuerySystem σ] in
/-- The frame that failed goes first, and it has started nothing. -/
theorem raises_fit (valid : p.Valid) (steady : t.Steady p) (tallied : t.roster.Tallied p spawns)
    (h : index < t.agent.lanes.lanes.size) (raises : Act.Raises p index t u) :
    ∃ r, u.Shows p index 0 t.world.now r ∧ r.Fit p spawns index := by
  have shown := steady.shows tallied.orderly h
  obtain ⟨k, hk⟩ := shown.kin_of
  have hraise {frame : Frame} {node : Node} {t' : Tick σ} (htop : t.agent.lanes.top? index = .ok (some frame))
      (hnode : p.node? frame.node = some node) (hkind : node.kind ≠ .parallel)
      (shown' : t'.Shows p index 1 t.world.now t.roster)
      (h : (do Act.emit p index frame.node .fail; Act.pop index : Act σ Unit) t' = .ok ((), u)) :
      ∃ r, u.Shows p index 0 t.world.now r ∧ r.Fit p spawns index := by
    have hlast : k.frames.getLast? = some frame := Except.ok.inj ((shown.top?_of hk).symm.trans htop)
    have hleads : (do Act.emit p index frame.node .fail; Act.pop index : Act σ Unit).Leads t' fun _ t'' =>
        t''.Shows p index 0 t.world.now (t.roster.onLane index Kin.pop) :=
      .seq (Act.emit_shows shown' (shown.sound.of_top htop).2 .fail) fun _ _ shown => Act.pop_shows shown
    exact ⟨_, hleads.of_ok h, tallied.drop ⟨hk, hlast, hnode⟩ hkind (fun _ => ⟨rfl, rfl⟩) rfl⟩
  cases raises with
  | fail htop hnode h => exact hraise htop hnode nofun shown h
  | selector htop hnode _ hnone h =>
    exact hraise htop hnode nofun ((Act.choose_shows valid shown (valid.node hnode)).of_ok hnone).1 h

theorem unwinds_fit {now : UInt64} {r : Roster σ} (shown : t.Shows p index 0 now r) (fit : r.Fit p spawns index)
    {depth left : Nat} (unwinds : Act.Unwinds p index depth t left u) : ∃ r', u.Shows p index 0 now r' ∧ r'.Fit p spawns index := by
  induction unwinds with
  | here => exact ⟨r, shown, fit⟩
  | @thread frame main thread left u u' _ htop hnode hprogress h ih =>
    obtain ⟨r, shown, fit⟩ := ih
    obtain ⟨k, hk⟩ := shown.kin_of
    have hlast : k.frames.getLast? = some frame := Except.ok.inj ((shown.top?_of hk).symm.trans htop)
    have shown := shown.deepen hk (List.length_pos_of_mem (List.mem_of_getLast? hlast))
    have hleads : (do Act.abortThread p index frame.node thread; Act.pop index : Act σ Unit).Leads u fun _ t' =>
        ∃ r', r.Releases index thread r' ∧ t'.Shows p index 0 now (r'.onLane index Kin.pop) := by
      refine .seq (Act.abortThread_shows shown (shown.sound.of_top htop).2 thread) fun _ t ⟨r', releases, shown⟩ => ?_
      exact (Act.pop_shows shown).mono fun _ t shown => ⟨r', releases, shown⟩
    obtain ⟨r', releases, shown⟩ := hleads.of_ok h
    exact ⟨_, shown, fit.pop_thread ⟨hk, hlast, hnode⟩ hprogress releases⟩
  | @skip frame node left u u' _ htop hnode hskip h ih =>
    obtain ⟨r, shown, fit⟩ := ih
    obtain ⟨k, hk⟩ := shown.kin_of
    have hlast : k.frames.getLast? = some frame := Except.ok.inj ((shown.top?_of hk).symm.trans htop)
    have shown := shown.deepen hk (List.length_pos_of_mem (List.mem_of_getLast? hlast))
    have top : r.Top p index k frame node := ⟨hk, hlast, hnode⟩
    have hquiet := top.running?_eq fun hkind => hskip (.inr hkind)
    exact ⟨_, (Act.pop_shows shown).of_ok h, fit.pop top hquiet (fun _ => ⟨rfl, rfl⟩) rfl⟩

end Unwinding

/-- Parallel frames in progress and lanes correspond between any two steps of a run, and a parallel frame that
finishes or is unwound finds its own lane. -/
theorem parallel_structured (accepted : p.validate = .ok ()) :
    (∀ agent, p.Reaches agent → ∃ spawns, p.Lives agent spawns) ∧
    (∀ {σ : Type} [QuerySystem σ] (agent : Agent) (world : World σ) (maxCycles index : Nat) (u : Tick σ),
      p.Reaches agent → world.check p = .ok () → p.Visits maxCycles agent world index u →
      ∃ spawns, p.Lives u.agent spawns) ∧
    ∀ agent spawns, p.Lives agent spawns → agent.Structured p spawns ∧
      ∀ {σ : Type} [QuerySystem σ] (index depth left : Nat) (t t' u : Tick σ), t.agent = agent → t.world.Suits p →
        index < agent.lanes.lanes.size → Act.Raises p index t t' → Act.Unwinds p index depth t' left u →
        u.agent.FindsOwn p spawns index := by
  have valid : p.Valid := validate_eq_ok_iff.mp accepted
  refine ⟨fun agent reaches => reaches.lives valid, ?_, ?_⟩
  · intro σ _ agent world maxCycles index u reaches checked visits
    obtain ⟨spawns, lives⟩ := reaches.lives valid
    exact lives.visits valid checked visits
  · intro agent spawns lives
    obtain ⟨steady, tallied⟩ := lives.tallied valid
    refine ⟨Agent.structured_of_tallied steady.ordered tallied, ?_⟩
    rintro σ _ index depth left t t' u rfl suits hindex raises unwinds
    obtain ⟨r, shown, fit⟩ := raises_fit valid ⟨steady, suits⟩ (tallied.same rfl rfl) hindex raises
    obtain ⟨r', shown', fit'⟩ := unwinds_fit shown fit unwinds
    exact Agent.findsOwn_of_fit shown'.sound.ordered shown'.lanes.symm fit'

/-- A lane that starts another one and fails. -/
def duet : Program where
  expressions := ⟨[], #[]⟩
  entries := #[.ofNode .nop, .ofNode (.root ⟨2⟩), .ofNode (.parallel ⟨3⟩ ⟨4⟩), .ofNode .fail,
    .ofNode (.threadRoot ⟨0⟩ true)]
  types := #[]
  lookups := #[]
  blackboardSize := 0

def duetStart : Tick QueryBoard :=
  ⟨.fresh, .blank duet (Memory.zeros 0) .empty, 0, #[]⟩

def duetBegun : Tick QueryBoard :=
  Act.createPrimary.reached duetStart

def duetEntered : Tick QueryBoard :=
  (Act.step duet 0 false).reached duetBegun

def duetForked : Tick QueryBoard :=
  (Act.step duet 0 false).reached duetEntered

/-- The lane has begun its parallel node. -/
theorem duet_lives : ∃ spawns, duet.Lives duetForked.agent spawns ∧ spawns 0 = [⟨1, ⟨4⟩, 1⟩] := by
  have henter : Act.step duet 0 false duetBegun = .ok (.enterRoot, duetEntered) := Act.eq_reached (by decide +kernel)
  have hfork : Act.step duet 0 false duetEntered = .ok (.goOn, duetForked) := Act.eq_reached (by decide +kernel)
  have new : duet.Lives duetStart.agent fun _ => [] := .new (show Agent.new 32 8 = .ok .fresh from rfl)
  have begun : duet.Lives duetBegun.agent fun _ => [] :=
    new.begin (World.suits_of_check (by decide +kernel)) rfl (Act.eq_reached (by decide +kernel))
  have entered := begun.step (World.suits_of_check (by decide +kernel)) (by decide +kernel) henter
  have forked := entered.step (World.suits_of_check (by decide +kernel)) (by decide +kernel) hfork
  exact ⟨_, forked, by cbv⟩

theorem parallel_structured_duet : duet.validate = .ok () ∧
    ∃ spawns, duet.Lives duetForked.agent spawns ∧ spawns 0 = [⟨1, ⟨4⟩, 1⟩] ∧
      duetForked.agent.Structured duet spawns := by
  obtain ⟨spawns, lives, hspawns⟩ := duet_lives
  exact ⟨rfl, spawns, lives, hspawns, ((parallel_structured rfl).2.2 _ _ lives).1⟩

end Program

end BehaviorTree
