import BehaviorTree.Machine.Queries
import BehaviorTree.Program.Node

/-! Lanes: the call stacks of one agent in a shared arena of frames. A lane owns the frames from
its offset up to the offset of the next lane, and the first `count` of them are live. Lanes stand
in creation order, so that their regions never overlap and leave no gap. -/

namespace BehaviorTree

/-- A node and how far it got through its children. -/
structure Frame where
  node : NodeId
  childIndex : UInt16
  deriving DecidableEq, Repr, Inhabited

/-- A node that has not begun. -/
def Frame.start (node : NodeId) : Frame :=
  ⟨node, 0⟩

structure Lane where
  id : LaneId
  offset : Nat
  count : Nat
  /-- Index of the lane that spawned this one; the primary lane has none. -/
  owner : Option Nat
  /-- The bits of the time at which the current wait began. -/
  waitStart : UInt64
  deriving DecidableEq, Repr, Inhabited

/-- The lane above a removed one moves down by one place. -/
def Lane.shiftOwner (removed : Nat) (lane : Lane) : Lane :=
  { lane with owner := lane.owner.map fun owner => if removed < owner then owner - 1 else owner }

structure LaneStack where
  lanes : Array Lane
  arena : Array Frame
  /-- Number of frames by which the arena grows. -/
  block : Nat
  block_pos : 0 < block

namespace LaneStack

/-- An arena of this many frames fills all memory that can be addressed. -/
def maxFrames : Nat := 2305843009213693951

def new (capacity block : Nat) : Except Fault LaneStack :=
  if h : 0 < block then
    if capacity ≤ maxFrames then .ok ⟨#[], Array.replicate capacity default, block, h⟩
    else .error .tooLarge
  else .error .emptyBlock

def lane (s : LaneStack) (index : Nat) : Except Fault Lane :=
  match s.lanes[index]? with
  | some lane => .ok lane
  | none => .error .outOfRange

def modifyLane (s : LaneStack) (index : Nat) (f : Lane → Lane) : LaneStack :=
  { s with lanes := s.lanes.modify index f }

/-- The live frames of a lane, bottom first. -/
def liveFrames (s : LaneStack) (lane : Lane) : List Frame :=
  (s.arena.extract lane.offset (lane.offset + lane.count)).toList

def frames (s : LaneStack) (index : Nat) : Except Fault (List Frame) :=
  (s.lane index).map s.liveFrames

def bottom? (s : LaneStack) (lane : Lane) : Option Frame :=
  if 0 < lane.count then s.arena[lane.offset]? else none

def top? (s : LaneStack) (index : Nat) : Except Fault (Option Frame) :=
  (s.lane index).map fun lane =>
    if 0 < lane.count then s.arena[lane.offset + lane.count - 1]? else none

/-- Sets the progress of the top frame, and says whether there was one. -/
def setChildIndex (s : LaneStack) (index : Nat) (childIndex : UInt16) : Except Fault (Bool × LaneStack) := do
  let lane ← s.lane index
  if 0 < lane.count then
    let arena := s.arena.modify (lane.offset + lane.count - 1) fun frame =>
      { frame with childIndex := childIndex }
    return (true, { s with arena := arena })
  else return (false, s)

/-- The first place after the region of a lane. -/
def regionEnd (s : LaneStack) (index : Nat) : Nat :=
  match s.lanes[index + 1]? with
  | some next => next.offset
  | none => s.arena.size

/-- Grows the arena by one block behind the region of a lane; all later lanes move up. The new room keeps what
stood there before. -/
def makeRoom (s : LaneStack) (index : Nat) : LaneStack :=
  let start := s.regionEnd index
  let grown := s.arena ++ Array.replicate s.block default
  { s with
    arena := grown.extract 0 (start + s.block) ++ s.arena.extract start s.arena.size
    lanes := s.lanes.mapIdx fun i lane =>
      if index < i then { lane with offset := lane.offset + s.block } else lane }

/-- Makes room if the region of a lane is full. -/
def ensureRoom (s : LaneStack) (index slot : Nat) : Except Fault LaneStack :=
  if slot = s.regionEnd index then
    if s.arena.size + s.block ≤ maxFrames then .ok (s.makeRoom index) else .error .tooLarge
  else .ok s

/-- Puts a frame on top of a lane. -/
def push (s : LaneStack) (index : Nat) (frame : Frame) : Except Fault LaneStack := do
  let lane ← s.lane index
  let slot := lane.offset + lane.count
  let s ← s.ensureRoom index slot
  if h : slot < s.arena.size then
    let s := { s with arena := s.arena.set slot frame h }
    return s.modifyLane index fun lane => { lane with count := lane.count + 1 }
  else throw .outOfRange

def pop (s : LaneStack) (index : Nat) : Except Fault (Option Frame × LaneStack) := do
  let top ← s.top? index
  match top with
  | none => return (none, s)
  | some frame =>
    return (some frame, s.modifyLane index fun lane => { lane with count := lane.count - 1 })

/-- Drops the frames above `depth`. -/
def truncate (s : LaneStack) (index depth : Nat) : Except Fault LaneStack := do
  let _ ← s.lane index
  return s.modifyLane index fun lane => { lane with count := min lane.count depth }

def setWaitStart (s : LaneStack) (index : Nat) (time : UInt64) : Except Fault LaneStack := do
  let _ ← s.lane index
  return s.modifyLane index fun lane => { lane with waitStart := time }

/-- Adds the first lane, without frames. -/
def openPrimary (s : LaneStack) (id : LaneId) : Except Fault LaneStack :=
  if s.lanes.isEmpty then .ok { s with lanes := #[⟨id, 0, 0, none, 0⟩] } else .error .primaryExists

/-- Adds a lane without frames right after the live frames of the last one. -/
def openOwned (s : LaneStack) (owner : Nat) (id : LaneId) : Except Fault LaneStack :=
  if owner < s.lanes.size then
    let offset := match s.lanes.back? with
      | some last => last.offset + last.count
      | none => 0
    .ok { s with lanes := s.lanes.push ⟨id, offset, 0, some owner, 0⟩ }
  else .error .missingOwner

/-- Creates the first lane with `root` as its only frame. -/
def createPrimary (s : LaneStack) (root : NodeId) (id : LaneId) : Except Fault LaneStack := do
  (← s.openPrimary id).push 0 (.start root)

/-- Creates a lane with `root` as its only frame, and returns its index. -/
def spawn (s : LaneStack) (owner : Nat) (root : NodeId) (id : LaneId) :
    Except Fault (Nat × LaneStack) := do
  let index := s.lanes.size
  return (index, ← (← s.openOwned owner id).push index (.start root))

/-- The newest lane among those of which `p` holds. -/
def findNewest? (s : LaneStack) (p : Lane → Bool) : Option Nat :=
  (List.range s.lanes.size).reverse.find? fun i => s.lanes[i]?.any p

/-- The newest lane of an owner that has `root` as its bottom frame. -/
def findOwned? (s : LaneStack) (owner : Nat) (root : NodeId) : Option Nat :=
  s.findNewest? fun lane => lane.owner = some owner ∧ (s.bottom? lane).map (·.node) = some root

/-- Removes a single lane. -/
def remove (s : LaneStack) (index : Nat) : LaneStack :=
  { s with lanes := (s.lanes.eraseIdxIfInBounds index).map (Lane.shiftOwner index) }

/-- Removes a lane and, first, the lanes that it owns, the newest first. Owned lanes stand above their
owner, so that removing them does not move it. Every step removes a lane, and `fuel` counts lanes. -/
def abortInto : (fuel : Nat) → LaneStack → (index : Nat) → Array Lane → Array Lane × LaneStack
  | 0, s, _, removed => (removed, s)
  | fuel + 1, s, index, removed =>
    match s.findNewest? (·.owner = some index) with
    | some owned =>
      let (removed, s) := abortInto fuel s owned removed
      abortInto fuel s index removed
    | none =>
      match s.lanes[index]? with
      | some lane => (removed.push lane, s.remove index)
      | none => (removed, s)

/-- Removes a lane and every lane that it owns directly or indirectly. Returns the removed lanes,
every lane after those that it owned. -/
def abort (s : LaneStack) (index : Nat) : Except Fault (List Lane × LaneStack) :=
  if index = 0 then .error .abortedPrimary
  else if index < s.lanes.size then
    let (removed, s) := abortInto s.lanes.size s index #[]
    .ok (removed.toList, s)
  else .error (.abortedMissing index)

/-- Discards every lane; the arena keeps its size. -/
def reset (s : LaneStack) : LaneStack :=
  { s with lanes := #[] }

/-- Checks one lane against its neighbours. -/
def checkLane (s : LaneStack) (index : Nat) (lane : Lane) : Except Fault Unit := do
  unless lane.offset + lane.count ≤ s.regionEnd index do throw (.laneOverflow index)
  match index with
  | 0 => unless lane.offset = 0 do throw .firstLaneOffset
  | before + 1 =>
    unless s.lanes[before]?.all (·.offset ≤ lane.offset) do throw (.laneOrder index)
  match lane.owner with
  | some owner => unless owner < index do throw (.laneOwner index owner)
  | none => pure ()

/-- Refuses lanes whose regions do not partition the arena. -/
def check (s : LaneStack) : Except Fault Unit := do
  (s.lanes.toList.zipIdx).forM fun (lane, index) => s.checkLane index lane
  if h : 0 < s.lanes.size then
    unless s.lanes.countP (·.owner.isNone) = 1 do throw .primaryCount
    unless s.lanes[0].owner.isNone do throw .primaryOwned

end LaneStack

end BehaviorTree
