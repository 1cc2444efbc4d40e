import BehaviorTree.Proofs.Machine.Threads

/-! Every step keeps parallel frames and the lanes that they started together. What was started is told from the
steps that a run has made, and not from the lanes that there are. -/

namespace BehaviorTree

open Refusal

/-- A parallel node on top of a lane that has not begun starts a lane, which gets the next id. -/
def Program.starts (p : Program) (frames : List Frame) (next : LaneId) : List Spawn :=
  match frames.getLast? with
  | none => []
  | some frame =>
    if frame.childIndex = 0 then (p.thread? frame.node).toList.map (⟨frames.length - 1, ·, next⟩) else []

namespace Spawns

/-- With what a step of a lane starts. -/
def during (p : Program) (index : Nat) (lanes : List Kin) (next : LaneId) (spawns : Spawns) : Spawns := fun id =>
  spawns id ++
    match lanes[index]? with
    | none => []
    | some k => if k.id = id then p.starts k.frames next else []

/-- What is left when frames have gone, and lanes with all their frames. -/
def kept (lanes : List Kin) (spawns : Spawns) : Spawns := fun id =>
  (spawns id).filter fun s => lanes.any fun k => k.id = id ∧ s.place < k.frames.length

/-- After a step of a lane. -/
def after (p : Program) (index : Nat) (before after : Agent) (spawns : Spawns) : Spawns :=
  (spawns.during p index before.lanes.kin before.nextLane).kept after.lanes.kin

variable {p : Program} {index : Nat} {lanes : List Kin} {next : LaneId} {spawns : Spawns} {k : Kin}

theorem during_self (h : lanes[index]? = some k) :
    spawns.during p index lanes next k.id = spawns k.id ++ p.starts k.frames next := by
  simp [during, h]

theorem during_other (h : lanes[index]? = some k) {id : LaneId} (hid : id ≠ k.id) :
    spawns.during p index lanes next id = spawns id := by
  simp [during, h, hid.symm]

theorem kept_eq_of (nodup : (lanes.map (·.id)).Nodup) (h : k ∈ lanes) : spawns.kept lanes k.id = spawns.of k := by
  refine List.filter_congr fun s _ => ?_
  rw [Bool.eq_iff_iff, List.any_eq_true, decide_eq_true_eq]
  constructor
  · rintro ⟨k', hk', hdec⟩
    obtain ⟨hid, hplace⟩ := of_decide_eq_true hdec
    rwa [Kin.eq_of_id nodup hk' h hid] at hplace
  · exact fun hplace => ⟨k, h, decide_eq_true ⟨rfl, hplace⟩⟩

theorem kept_of (nodup : (lanes.map (·.id)).Nodup) (h : k ∈ lanes) : (spawns.kept lanes).of k = spawns.of k := by
  rw [of, kept_eq_of nodup h, of, List.filter_filter]
  simp

theorem kept_eq_nil {id : LaneId} (h : ∀ k ∈ lanes, k.id ≠ id) : spawns.kept lanes id = [] := by
  refine List.filter_eq_nil_iff.mpr fun s _ => ?_
  rw [List.any_eq_true]
  rintro ⟨k, hk, hdec⟩
  exact h k hk (of_decide_eq_true hdec).1

end Spawns

/-- A lane does not depend on what others started. -/
theorem Kin.Matched.congr {p : Program} {spawns spawns' : Spawns} {lanes : List Kin} {k : Kin}
    (matched : k.Matched p spawns lanes) (h : spawns'.of k = spawns.of k) : k.Matched p spawns' lanes :=
  ⟨h ▸ matched.threads, h ▸ matched.children⟩

namespace Roster

variable {σ : Type} [QuerySystem σ] {p : Program} {spawns : Spawns} {index : Nat} {r r' : Roster σ}

/-- Between two steps, all lanes go with what they started, and nothing else was started. -/
structure Tallied (p : Program) (spawns : Spawns) (r : Roster σ) : Prop where
  orderly : r.Orderly
  occupied : ∀ k ∈ r.lanes, k.frames ≠ []
  matched : ∀ k ∈ r.lanes, k.Matched p spawns r.lanes
  full : ∀ k ∈ r.lanes, spawns.of k = spawns k.id
  idle : ∀ id, (∀ k ∈ r.lanes, k.id ≠ id) → spawns id = []

omit [QuerySystem σ]

theorem Tallied.fit (tallied : r.Tallied p spawns) (index : Nat) : r.Fit p spawns index where
  orderly := tallied.orderly
  others _ hk _ := tallied.matched _ hk
  occupied _ hk hempty := absurd hempty (tallied.occupied _ hk)
  self _ hk := tallied.matched _ (List.mem_of_getElem? hk)

theorem Tallied.same {σ' : Type} (tallied : r.Tallied p spawns) {r' : Roster σ'} (hlanes : r'.lanes = r.lanes)
    (hnext : r'.next = r.next) : r'.Tallied p spawns where
  orderly := tallied.orderly.same hlanes hnext
  occupied := hlanes ▸ tallied.occupied
  matched := hlanes ▸ tallied.matched
  full := hlanes ▸ tallied.full
  idle := hlanes ▸ tallied.idle

/-- The next id has started nothing. -/
theorem Tallied.next_eq_nil (tallied : r.Tallied p spawns) : spawns r.next = [] :=
  tallied.idle r.next fun k hk => Nat.ne_of_lt (tallied.orderly.fresh k hk)

/-- The rest is forgotten after the step. -/
theorem Tallied.of_matched (orderly : r.Orderly) (occupied : ∀ k ∈ r.lanes, k.frames ≠ [])
    (matched : ∀ k ∈ r.lanes, k.Matched p spawns r.lanes) : r.Tallied p (spawns.kept r.lanes) where
  orderly := orderly
  occupied := occupied
  matched _ hk := (matched _ hk).congr (Spawns.kept_of orderly.nodup hk)
  full _ hk := (Spawns.kept_of orderly.nodup hk).trans (Spawns.kept_eq_of orderly.nodup hk).symm
  idle _ h := Spawns.kept_eq_nil h

/-- A lane that begins, without children. -/
theorem matched_start {lanes : List Kin} {k : Kin} {root : NodeId} (hframes : k.frames = [.start root])
    (hidle : spawns k.id = []) (hnone : Kin.children lanes k.id = []) : k.Matched p spawns lanes := by
  have hof : spawns.of k = [] := by simp [Spawns.of, hidle]
  refine ⟨?_, ?_⟩
  · rw [hof, hframes]
    simp [Program.threads, Program.running?, Frame.start]
  · rw [hof, hnone]
    exact .nil

theorem matched_begin (hidle : spawns r.next = []) : ∀ k ∈ r.begin.lanes, k.Matched p spawns r.begin.lanes := by
  intro k hk
  obtain rfl := List.mem_singleton.mp hk
  exact matched_start rfl hidle (by simp [begin, Kin.children])

/-! ### A parallel node begins -/

/-- What the lane itself started does not matter to the others. -/
theorem Near.congr (near : r.Near p spawns index) {k : Kin} (hk : r.lanes[index]? = some k) {spawns' : Spawns}
    (h : ∀ id, id ≠ k.id → spawns' id = spawns id) : r.Near p spawns' index := by
  refine ⟨near.orderly, fun k' hk' hne => (near.others k' hk' hne).congr ?_, near.occupied⟩
  have hid : k'.id ≠ k.id := fun hid =>
    hne (Kin.eq_of_id near.orderly.nodup hk' (List.mem_of_getElem? hk) hid ▸ hk)
  rw [Spawns.of, Spawns.of, h k'.id hid]

theorem getElem?_spawn {k : Kin} (hk : r.lanes[index]? = some k) (parent : LaneId) (thread : NodeId) :
    (r.spawn parent thread).lanes[index]? = some k := by
  rw [spawn, List.getElem?_append_left (List.getElem?_eq_some_iff.mp hk).1, hk]

/-- The others have nothing to do with the lane that starts. -/
theorem Near.spawn (near : r.Near p spawns index) {k : Kin} (hk : r.lanes[index]? = some k)
    (hidle : spawns r.next = []) (thread : NodeId) : (r.spawn k.id thread).Near p spawns index := by
  have hmem := List.mem_of_getElem? hk
  have hplace := getElem?_spawn hk k.id thread
  have hnone := near.orderly.children_next
  have hchildren {id : LaneId} (hid : id ≠ k.id) :
      Kin.children (r.spawn k.id thread).lanes id = Kin.children r.lanes id := by
    rw [Roster.spawn, Kin.children_append]
    simp [Kin.children, hid.symm]
  refine ⟨near.orderly.spawn hmem thread, fun k' hk' hne => ?_, fun k' hk' hempty => ?_⟩
  · have hid : k'.id ≠ k.id := by
      intro hid
      have nodup := (near.orderly.spawn hmem thread).nodup
      exact hne (Kin.eq_of_id nodup hk' (List.mem_of_getElem? hplace) hid ▸ hplace)
    obtain hold | hnew := List.mem_append.mp hk'
    · have matched := near.others k' hold fun h => hid (congrArg Kin.id (Option.some.inj (h.symm.trans hk)))
      exact ⟨matched.threads, hchildren hid ▸ matched.children⟩
    · obtain rfl := List.mem_singleton.mp hnew
      exact matched_start rfl hidle ((hchildren hid).trans hnone)
  · obtain hold | hnew := List.mem_append.mp hk'
    · have hself := near.occupied k' hold hempty
      rw [hplace, ← hk, hself]
    · rw [List.mem_singleton.mp hnew] at hempty
      cases hempty

/-- The new lane goes with the frame that started it. -/
theorem Tallied.fork (tallied : r.Tallied p spawns) {k : Kin} {frame : Frame} {main thread : NodeId}
    (top : r.Top p index k frame (.parallel main thread)) (hfirst : frame.childIndex = 0) :
    (((r.onLane index (Kin.setProgress 1)).spawn k.id thread).onLane index fun k =>
      (k.setProgress 1).push (.start main)).Fit p (spawns.during p index r.lanes r.next) index := by
  have hk := top.lane
  have matched := tallied.matched k (List.mem_of_getElem? hk)
  obtain ⟨lower, hframes⟩ : ∃ lower, k.frames = lower ++ [frame] :=
    ⟨_, (List.dropLast_append_getLast? frame top.last).symm⟩
  have hthread : p.thread? frame.node = some thread := Program.thread?_eq_some.mpr ⟨main, top.known⟩
  have hstarts : p.starts k.frames r.next = [⟨lower.length, thread, r.next⟩] := by
    simp [Program.starts, hframes, hfirst, hthread]
  have hspawns : spawns.during p index r.lanes r.next k.id = spawns k.id ++ [⟨lower.length, thread, r.next⟩] := by
    rw [Spawns.during_self hk, hstarts]
  have hnext : spawns.during p index r.lanes r.next r.next = [] := by
    have hid : r.next ≠ k.id := (Nat.ne_of_lt (tallied.orderly.fresh k (List.mem_of_getElem? hk))).symm
    rw [Spawns.during_other hk hid, tallied.next_eq_nil]
  -- the lane is changed, the new one is added, and the lane is changed again
  have hprogress := Kin.keepsRoot_of_eq (Kin.root?_setProgress 1 k)
  have near : r.Near p (spawns.during p index r.lanes r.next) index :=
    (tallied.fit index).toNear.congr hk fun _ => Spawns.during_other hk
  have hk' := top.onLane (Kin.setProgress 1)
  have started := (near.change hk (Kin.same_setProgress 1) hprogress).spawn hk' hnext thread
  have hk'' := getElem?_spawn hk' k.id thread
  have hset : ((k.setProgress 1).setProgress 1).frames = lower ++ [⟨frame.node, 1⟩] :=
    Kin.frames_setProgress (Kin.frames_setProgress hframes 1) 1
  have hsame (c : Kin) : Kin.Same c ((c.setProgress 1).push (.start main)) := ⟨rfl, rfl⟩
  have hroot := Kin.keepsRoot_of_eq ((Kin.root?_push (by simp [hset]) (.start main)).trans
    (Kin.root?_setProgress 1 (k.setProgress 1)))
  have hof : (spawns.during p index r.lanes r.next).of (((k.setProgress 1).setProgress 1).push (.start main)) =
      spawns.of k ++ [⟨lower.length, thread, r.next⟩] := by
    have full := tallied.full k (List.mem_of_getElem? hk)
    rw [full, ← hspawns]
    refine List.filter_eq_self.mpr fun s hs => decide_eq_true ?_
    rw [Kin.push, hset, List.length_append, List.length_append]
    obtain hs | hs := List.mem_append.mp (hspawns ▸ hs : s ∈ _ ++ _)
    · have hlt := Spawns.place_lt_of_full full hs
      rw [hframes, List.length_append] at hlt
      exact Nat.lt_succ_of_lt hlt
    · rw [List.mem_singleton.mp hs]
      simp
  refine started.onLane hk'' hsame hroot ⟨?_, ?_⟩
  · have hrunning : p.running? ⟨frame.node, 1⟩ = some thread := by simp [Program.running?, hthread]
    have hquiet : p.running? frame = none := if_pos hfirst
    have hthreads := matched.threads
    rw [hframes, Program.threads_of_quiet lower hquiet] at hthreads
    rw [hof, Kin.push, hset, Program.threads_of_quiet _ (Program.running?_start main), Program.threads_append, hrunning,
      hthreads, List.map_append]
    rfl
  · rw [hof]
    refine Kin.started_modify started.orderly.nodup hk'' hsame hroot ?_
    have hchildren : Kin.children ((r.onLane index (Kin.setProgress 1)).spawn k.id thread).lanes k.id =
        Kin.children (r.onLane index (Kin.setProgress 1)).lanes k.id ++ [⟨r.next, some k.id, 0, [.start thread]⟩] := by
      rw [Roster.spawn, Kin.children_append]
      simp [Kin.children, Roster.onLane]
    refine Eq.subst (motive := List.Forall₂ _ _) hchildren.symm ?_
    have holder := Kin.started_modify tallied.orderly.nodup hk (Kin.same_setProgress 1) hprogress matched.children
    refine List.rel_append holder (.cons ⟨rfl, ?_⟩ .nil)
    exact fun node hnode => (Option.some.inj hnode).symm

/-! ### Moves -/

/-- Only a parallel node that begins starts a lane. -/
theorem Top.during_eq {k : Kin} {frame : Frame} {node : Node} (top : r.Top p index k frame node)
    (h : frame.childIndex = 0 → p.thread? frame.node = none) :
    spawns.during p index r.lanes r.next = spawns := by
  have hstarts : p.starts k.frames r.next = [] := by
    simp only [Program.starts, top.last]
    split_ifs with hfirst
    · simp [h hfirst]
    · rfl
  funext id
  simp only [Spawns.during, top.lane, hstarts]
  split_ifs <;> exact List.append_nil _

theorem Top.thread?_eq {k : Kin} {frame : Frame} {node : Node} (top : r.Top p index k frame node)
    (h : node.kind ≠ .parallel) : p.thread? frame.node = none := by
  rw [Option.eq_none_iff_forall_ne_some]
  intro thread hthread
  obtain ⟨main, hnode⟩ := Program.thread?_eq_some.mp hthread
  rw [Option.some.inj (top.known.symm.trans hnode)] at h
  exact h rfl

theorem Top.running?_eq {k : Kin} {frame : Frame} {node : Node} (top : r.Top p index k frame node)
    (h : node.kind = .parallel → frame.childIndex = 0) : p.running? frame = none := by
  by_cases hkind : node.kind = .parallel
  · exact if_pos (h hkind)
  · simp [Program.running?, top.thread?_eq hkind]

theorem Top.dropLast_setProgress {k : Kin} {frame : Frame} {node : Node} (top : r.Top p index k frame node)
    (progress : UInt16) : (k.setProgress progress).frames.dropLast = k.frames.dropLast := by
  rw [Kin.frames_setProgress (List.dropLast_append_getLast? frame top.last).symm, List.dropLast_concat]

/-- A lane that goes on with its top frame, above which there may be a new one. -/
theorem Tallied.go (tallied : r.Tallied p spawns) {k : Kin} {frame : Frame} {node : Node}
    (top : r.Top p index k frame node) (hnode : node.kind ≠ .parallel) (progress : UInt16) {f : Kin → Kin}
    (hsame : ∀ c, Kin.Same c (f c)) (child : Option NodeId)
    (hf : (f k).frames = (k.setProgress progress).frames ++ (child.map Frame.start).toList) :
    (r.onLane index f).Fit p spawns index := by
  have hthread := top.thread?_eq hnode
  have hquiet (progress : UInt16) : p.running? ⟨frame.node, progress⟩ = none := by
    simp [Program.running?, hthread]
  obtain ⟨lower, hframes⟩ : ∃ lower, k.frames = lower ++ [frame] :=
    ⟨_, (List.dropLast_append_getLast? frame top.last).symm⟩
  have hset := Kin.frames_setProgress hframes progress
  refine (tallied.fit index).change top.lane hsame (Kin.keepsRoot_of_eq ?_) ?_ ?_
  · rw [← Kin.root?_setProgress progress k, Kin.root?, hf, List.head?_append_of_ne_nil _ (by simp [hset]), Kin.root?]
  · have hlower : p.threads (f k).frames = p.threads (k.setProgress progress).frames := by
      rw [hf]
      cases child with
      | none => exact congrArg p.threads (List.append_nil _)
      | some child => exact Program.threads_of_quiet _ (Program.running?_start child)
    rw [hlower, hset, hframes, Program.threads_of_quiet lower (hquiet progress),
      Program.threads_of_quiet lower (hquiet frame.childIndex)]
  · refine Spawns.of_grow (tallied.full k (List.mem_of_getElem? top.lane)) (hsame k).1 ?_
    rw [hf, hset, hframes]
    simp

/-- A lane that loses its top frame. -/
theorem Tallied.drop (tallied : r.Tallied p spawns) {k : Kin} {frame : Frame} {node : Node}
    (top : r.Top p index k frame node) (hnode : node.kind ≠ .parallel) {f : Kin → Kin}
    (hsame : ∀ c, Kin.Same c (f c)) (hf : (f k).frames = k.frames.dropLast) :
    (r.onLane index f).Fit p spawns index :=
  (tallied.fit index).pop top (top.running?_eq fun hkind => absurd hkind hnode) hsame hf

/-- Queries have nothing to do with lanes. -/
theorem Fit.same (fit : r.Fit p spawns index) (hlanes : r'.lanes = r.lanes) (hnext : r'.next = r.next) :
    r'.Fit p spawns index where
  orderly := fit.orderly.same hlanes hnext
  others := hlanes ▸ fit.others
  occupied := hlanes ▸ fit.occupied
  self := hlanes ▸ fit.self

variable [QuerySystem σ]

theorem Unwinds.fit {caught : Bool} (unwinds : r.Unwinds p index caught r') (fit : r.Fit p spawns index) :
    r'.Fit p spawns index := by
  induction unwinds with
  | empty _ _ => exact fit
  | «catch» top _ =>
    exact fit.pop top (top.running?_eq nofun) (fun _ => ⟨rfl, rfl⟩) rfl
  | thread top hprogress releases _ ih => exact ih (fit.pop_thread top hprogress releases)
  | @skip r r' k frame node caught top hskip _ ih =>
    exact ih (fit.pop top (top.running?_eq fun hkind => hskip (.inr hkind)) (fun _ => ⟨rfl, rfl⟩) rfl)

/-- After a move, every lane goes with what was started up to then. -/
theorem Moves.matched {now : UInt64} {rootVisited : Bool} {outcome : Outcome}
    (moves : r.Moves p now index rootVisited outcome r') (tallied : r.Tallied p spawns) :
    ∀ k ∈ r'.lanes, k.Matched p (spawns.during p index r.lanes r.next) r'.lanes := by
  have hquiet {k : Kin} {frame : Frame} {node : Node} (top : r.Top p index k frame node)
      (hnode : node.kind ≠ .parallel) (fit : r'.Fit p spawns index) :
      ∀ k ∈ r'.lanes, k.Matched p (spawns.during p index r.lanes r.next) r'.lanes := by
    rw [top.during_eq fun _ => top.thread?_eq hnode]
    exact fun _ => fit.matched
  have hpolls {request : QueryRequest} {r'' : Roster σ} (polls : r''.Polls index request outcome r')
      (hstay : r''.Fit p spawns index) (hdrop : (r''.onLane index Kin.pop).Fit p spawns index) : r'.Fit p spawns index := by
    cases polls with
    | pending _ => exact hstay.same rfl rfl
    | complete _ => exact hdrop.same rfl rfl
  cases moves with
  | yield top _ hroot _ => exact hquiet top (Node.kind_ne_of_rootChild hroot).1 (tallied.fit index)
  | @enter _ _ _ child _ top _ hroot _ =>
    have hnode := (Node.kind_ne_of_rootChild hroot).1
    exact hquiet top hnode (tallied.go top hnode 1 (fun _ => ⟨rfl, rfl⟩) (some child) rfl)
  | @call _ _ _ progress child top _ hcall =>
    exact hquiet top hcall.kind_ne.1 (tallied.go top hcall.kind_ne.1 progress (fun _ => ⟨rfl, rfl⟩) (some child) rfl)
  | finish top _ hfinish =>
    exact hquiet top hfinish.kind_ne.1 (tallied.drop top hfinish.kind_ne.1 (fun _ => ⟨rfl, rfl⟩) rfl)
  | wait top _ => exact hquiet top nofun (tallied.fit index)
  | beginWait top _ =>
    exact hquiet top nofun (tallied.go top nofun 1 (fun _ => ⟨rfl, rfl⟩) none (List.append_nil _).symm)
  | passWait top _ _ => exact hquiet top nofun (tallied.drop top nofun (fun _ => ⟨rfl, rfl⟩) (top.dropLast_setProgress 1))
  | blocked top _ _ => exact hquiet top nofun (tallied.fit index)
  | poll top _ _ polls =>
    exact hquiet top nofun (hpolls polls (tallied.fit index) (tallied.drop top nofun (fun _ => ⟨rfl, rfl⟩) rfl))
  | ask top _ _ polls =>
    have hstay := tallied.go top nofun 1 (Kin.same_setProgress 1) none (List.append_nil _).symm
    have hdrop := tallied.drop (f := Kin.pop ∘ Kin.setProgress 1) top nofun (fun _ => ⟨rfl, rfl⟩)
      (top.dropLast_setProgress 1)
    rw [← onLane_onLane] at hdrop
    exact hquiet top nofun (hpolls polls (hstay.same rfl rfl) (hdrop.same rfl rfl))
  | fork top _ hfirst => exact fun _ => (tallied.fork top hfirst).matched
  | join top _ hlater releases =>
    rw [top.during_eq fun hfirst => absurd hfirst hlater]
    exact fun _ => ((tallied.fit index).pop_thread top hlater releases).matched
  | «catch» top hfail unwinds =>
    exact hquiet top hfail.kind_ne.1 (unwinds.fit (tallied.drop top hfail.kind_ne.1 (fun _ => ⟨rfl, rfl⟩) rfl))
  | restart top hfail unwinds =>
    rw [top.during_eq fun _ => top.thread?_eq hfail.kind_ne.1]
    refine matched_begin ?_
    rw [withdraw_next, unwinds.next_eq]
    exact tallied.next_eq_nil

end Roster

end BehaviorTree
