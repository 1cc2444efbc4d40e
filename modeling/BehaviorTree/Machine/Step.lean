import BehaviorTree.Machine.Agent

/-! One step of a lane: the node on top of the lane calls a child, finishes, fails, or suspends
the lane. -/

namespace BehaviorTree

/-- What comes after a step. -/
inductive Outcome where
  | goOn
  /-- The lane goes on, and will end its turn when it comes back to its root. -/
  | enterRoot
  | suspend
  deriving DecidableEq, Repr

namespace Act

variable {σ : Type}

def node (p : Program) (id : NodeId) : Act σ Node :=
  match p.node? id with
  | some node => return node
  | none => throw .outOfRange

/-- Reports an event for a lane of the given id and depth. -/
def emitFor (p : Program) (id : NodeId) (event : EventKind) (lane : LaneId) (depth : Nat) :
    Act σ Unit := do
  let kind := (← node p id).kind
  notice (.traced ⟨id, kind, event, lane, depth, (← get).cycle⟩)

/-- Reports an event of a lane. -/
def emit (p : Program) (index : Nat) (id : NodeId) (event : EventKind) : Act σ Unit := do
  let lane ← lane index
  emitFor p id event lane.id lane.count

/-- Evaluates an expression of the program. -/
def evaluateWith {α : Type} (p : Program) (value : ValueRef)
    (read : Surroundings → ValueRef → Except Fault α) : Act σ α := do
  notice (.evaluated value)
  read ((← get).world.surroundings p) value

def evaluate (p : Program) (value : ValueRef) (size : Nat) : Act σ Bytes :=
  evaluateWith p value fun s value => s.evaluate value size

def evaluateBool (p : Program) (value : ValueRef) : Act σ Bool :=
  evaluateWith p value Surroundings.evaluateBool

/-- Records how far the top node of a lane got, and runs one of its children. -/
def call (p : Program) (index : Nat) (caller : NodeId) (progress : UInt16) (child : NodeId) :
    Act σ Unit := do
  setChildIndex index progress
  emit p index caller .call
  push index (.start child)

/-- Hands control back to the caller of the top node. -/
def finish (p : Program) (index : Nat) (id : NodeId) : Act σ Unit := do
  emit p index id .return
  pop index

/-- The child of the first alternative whose guard holds, and the progress that this means. -/
def choose (p : Program) : List Branch → (progress : Nat) → Act σ (Option (UInt16 × NodeId))
  | [], _ => return none
  | branch :: rest, progress => do
    if ← evaluateBool p branch.guard then
      unless progress % 0x10000 + 1 < 0x10000 do throw .overflow
      return some (UInt16.ofNat (progress + 1), branch.child)
    else choose p rest (progress + 1)

/-- Stores one field of a component. Values have at most eight bytes. -/
def writeField (p : Program) (component : UInt16) (field : FieldWrite) : Act σ Unit := do
  unless field.length.toNat ≤ 8 do throw .outOfRange
  let bytes ← evaluate p field.value field.length.toNat
  onWorld fun w =>
    match w.components[component.toNat]? with
    | none => .error .outOfRange
    | some store => do
      let data ← store.data.overwrite field.offset.toNat bytes
      return { w with components := w.components.setIfInBounds component.toNat { store with data := data } }

def writeVar (p : Program) (slot : VarSlot) (value : ValueRef) : Act σ Unit := do
  let bytes ← evaluate p value slot.length
  onWorld fun w => do
    return { w with blackboard := ← w.blackboard.overwrite slot.offset.toNat bytes }

/-- Whether a wait is over; the time passed has to exceed the duration. -/
def waitOver (p : Program) (index : Nat) : WaitGoal → Act σ Bool
  | .duration seconds => do
    let duration ← evaluateWith p seconds Surroundings.evaluateFloat
    let start := Float.ofBits (← lane index).waitStart
    let now := Float.ofBits (← get).world.now
    return (Float32.ofBits duration).toFloat < now - start
  | .condition holds => evaluateBool p holds

def wait (p : Program) (index : Nat) (frame : Frame) (goal : WaitGoal) : Act σ Outcome := do
  if frame.childIndex = 0 then
    setChildIndex index 1
    let now := (← get).world.now
    onLanes index fun s => (s.setWaitStart index now).map ((), ·)
  if ← waitOver p index goal then
    finish p index frame.node
    return .goOn
  else
    emit p index frame.node .wait
    return .suspend

/-- The number of results as a scalar; an integer stops at the greatest one. -/
def queryResult (type : ValueType) (count : UInt32) : Constant :=
  match type with
  | .bool => .bool (count ≠ 0)
  | .int => .int (Int32.ofNat (min count.toNat 0x7fffffff))
  | .float => .float (UInt32.ofNat (Decimal.binary32.nearest count.toNat 1))

section Queries

variable [QuerySystem σ]

/-- Removes a lane and everything that it owns, on behalf of a node of another lane. The query of a
removed lane is withdrawn. -/
def abort (p : Program) (index : Nat) (id : NodeId) (owned : Nat) : Act σ Unit := do
  let depth := (← lane index).count
  let removed ← onLanes index fun s => s.abort owned
  removed.forM fun lane => do
    match (← get).agent.holder with
    | some request =>
      if request.lane = lane.id then
        setHolder none
        cancel request
    | none => pure ()
    emitFor p id .abort lane.id depth

/-- Removes the lane that a parallel node of a lane started. -/
def abortThread (p : Program) (index : Nat) (id thread : NodeId) : Act σ Unit := do
  match (← get).agent.lanes.findOwned? index thread with
  | some owned => abort p index id owned
  | none => pure ()

/-- Discards all lanes and starts over from the root. -/
def restart (index : Nat) : Act σ Outcome := do
  notice (.restarted (← lane index).id)
  if let some request := (← get).agent.holder then
    setHolder none
    cancel request
  onLanes index fun s => .ok ((), s.reset)
  createPrimary
  -- The primary lane has already had its turn when another lane fails.
  return if index = 0 then .goOn else .suspend

/-- Removes frames up to and including the nearest catch in progress, and says whether there was
one. A lane has at most `depth` frames. -/
def unwind (p : Program) (index : Nat) : (depth : Nat) → Act σ Bool
  | 0 => return false
  | depth + 1 => do
    match ← top? index with
    | none => return false
    | some frame =>
      match ← node p frame.node, frame.childIndex != 0 with
      | .catch _, true =>
        emit p index frame.node .catch
        pop index
        return true
      | .parallel _ thread, true =>
        abortThread p index frame.node thread
        pop index
        unwind p index depth
      | _, _ =>
        pop index
        unwind p index depth

/-- Raises a failure. Without a catch the agent starts over. -/
def fail (p : Program) (index : Nat) (id : NodeId) : Act σ Outcome := do
  emit p index id .fail
  pop index
  if ← unwind p index (← lane index).count then return .goOn else restart index

/-- Asks the query system. At most one query of an agent is in flight, and other lanes wait until
it is complete. -/
def query (p : Program) (index : Nat) (frame : Frame) (id : UInt16) (result : VarSlot) :
    Act σ Outcome := do
  let request : QueryRequest := ⟨id, (← lane index).id⟩
  let holder := (← get).agent.holder
  if holder.isSome && holder ≠ some request then
    emit p index frame.node .wait
    return .suspend
  if holder.isNone then
    setHolder (some request)
    setChildIndex index 1
    submit request
  match ← poll request with
  | .complete count =>
    write result (queryResult result.type count)
    setHolder none
    finish p index frame.node
    return .goOn
  | .pending =>
    emit p index frame.node .wait
    return .suspend

/-- Starts a lane beside the main child, and removes it when the main child is done. -/
def parallel (p : Program) (index : Nat) (frame : Frame) (main thread : NodeId) : Act σ Unit := do
  if frame.childIndex = 0 then
    setChildIndex index 1
    let id ← freshLane
    let place := (← get).agent.lanes.lanes.size
    let spawned ← onLanes place fun s => s.spawn index thread id
    notice (.spawned frame.node id spawned)
    emitFor p frame.node .spawn id (← lane index).count
    call p index frame.node 1 main
  else
    abortThread p index frame.node thread
    finish p index frame.node

/-- A root at the bottom of its lane ends the turn when it is reached again. A thread that does not
loop also ends it when it has been run before. -/
def laneRoot (p : Program) (index : Nat) (frame : Frame) (child : NodeId) (once rootVisited : Bool) :
    Act σ Outcome := do
  if rootVisited || (once && frame.childIndex ≠ 0) then
    emit p index frame.node .yield
    return .suspend
  else
    call p index frame.node 1 child
    return .enterRoot

/-- A node with a single child, which it runs once. -/
def single (p : Program) (index : Nat) (frame : Frame) (child : NodeId) : Act σ Unit :=
  if frame.childIndex = 0 then call p index frame.node 1 child else finish p index frame.node

def andGoOn (act : Act σ Unit) : Act σ Outcome := do
  act
  return .goOn

/-- Executes the top node of a lane. -/
def stepNode (p : Program) (index : Nat) (frame : Frame) (isBottom rootVisited : Bool) :
    Node → Act σ Outcome
  | .nop => andGoOn (finish p index frame.node)
  | .root child =>
    if isBottom then laneRoot p index frame child false rootVisited
    else andGoOn (single p index frame child)
  | .threadRoot child looping =>
    if isBottom then laneRoot p index frame child (!looping) rootVisited
    else andGoOn (single p index frame child)
  | .catch child => andGoOn (single p index frame child)
  | .sequence children => andGoOn <|
    match children[frame.childIndex.toNat]? with
    | some child => do
      unless frame.childIndex.toNat + 1 < 0x10000 do throw .overflow
      call p index frame.node (frame.childIndex + 1) child
    | none => finish p index frame.node
  | .selector branches => do
    if frame.childIndex ≠ 0 then andGoOn (finish p index frame.node)
    else
      match ← choose p branches 0 with
      | some (progress, child) => andGoOn (call p index frame.node progress child)
      | none => fail p index frame.node
  | .writeField component fields => andGoOn do
    fields.forM (writeField p component)
    finish p index frame.node
  | .wait goal => wait p index frame goal
  | .fail => fail p index frame.node
  | .optional guard child => andGoOn do
    if frame.childIndex ≠ 0 then finish p index frame.node
    else if ← evaluateBool p guard then call p index frame.node 1 child
    else finish p index frame.node
  | .writeVar slot value => andGoOn do
    writeVar p slot value
    finish p index frame.node
  | .query id result => query p index frame id result
  | .parallel main thread => andGoOn (parallel p index frame main thread)

/-- One step of a lane. The flag says whether the lane has been at its root in this turn. -/
def step (p : Program) (index : Nat) (rootVisited : Bool) : Act σ Outcome := do
  match ← top? index with
  | none => throw (.emptyLane index)
  | some frame =>
    let isBottom := (← lane index).count = 1
    stepNode p index frame isBottom rootVisited (← node p frame.node)

end Queries

end Act

end BehaviorTree
