import BehaviorTree.Expression.Eval
import BehaviorTree.Machine.Lanes
import BehaviorTree.Machine.Trace
import BehaviorTree.Program.Basic

/-! Agents, the world in which they act, and the state of a tick. -/

namespace BehaviorTree

/-- The execution state of one agent. Its lanes are created in its first tick. -/
structure Agent where
  lanes : LaneStack
  /-- The query in flight. -/
  holder : Option QueryRequest
  nextLane : LaneId

def Agent.new (capacity block : Nat) : Except Fault Agent :=
  (LaneStack.new capacity block).map fun lanes => ⟨lanes, none, 0⟩

/-- An arena of 32 frames that grows by eight. -/
def Agent.fresh : Agent :=
  ⟨⟨#[], Array.replicate 32 default, 8, by decide⟩, none, 0⟩

/-- Everything outside of the agent that a tick reads or changes. -/
structure World (σ : Type) where
  /-- One for each component type of the program, in the same order. -/
  components : Array Storage
  lookups : Array Storage
  blackboard : Memory
  queries : σ
  /-- The bits of the current time. -/
  now : UInt64

namespace World

variable {σ : Type}

/-- Memory of the right type and of at least its size. -/
def checkComponent (store : Storage) (type : ComponentType) : Except Fault Unit := do
  unless store.typeId = type.id do throw (.componentType type.name)
  unless type.size.toNat ≤ store.data.size do
    throw (.componentSize type.name type.size.toNat store.data.size)

/-- A lookup that the program never reads may be anything. -/
def checkLookup (store : Storage) : Option ComponentType → Except Fault Unit
  | none => .ok ()
  | some type => do
    unless store.typeId = type.id do throw (.lookupType type.name)
    unless type.size.toNat ≤ store.data.size do
      throw (.lookupSize type.name type.size.toNat store.data.size)

/-- Whether the memory suits the program. -/
def check (world : World σ) (program : Program) : Except Fault Unit := do
  unless world.components.size = program.types.size do throw .componentCount
  (world.components.zip program.types).forM fun (store, type) => checkComponent store type
  unless program.lookups.size ≤ world.lookups.size do
    throw (.lookupCount program.lookups.size world.lookups.size)
  (world.lookups.zip program.lookups).forM fun (store, type) => checkLookup store type
  let needed := program.blackboardSize.toNat
  unless needed ≤ world.blackboard.size do throw (.blackboardSize needed world.blackboard.size)

/-- What expressions of the program may read. -/
def surroundings (world : World σ) (program : Program) : Surroundings :=
  ⟨program.expressions, world.components, world.lookups, world.blackboard⟩

/-- Zeroed memory for every type of the program. -/
def blank (program : Program) (blackboard : Memory) (queries : σ) : World σ where
  components := program.types.map fun type => ⟨type.id, Memory.zeros type.size.toNat⟩
  lookups := program.lookups.map fun
    | some type => ⟨type.id, Memory.zeros type.size.toNat⟩
    | none => ⟨0, Memory.zeros 0⟩
  blackboard
  queries
  now := 0

end World

/-- An agent in the middle of a tick. -/
structure Tick (σ : Type) where
  agent : Agent
  world : World σ
  /-- Number of steps begun. -/
  cycle : Nat
  notices : Array Notice

/-- A part of a tick. -/
abbrev Act (σ : Type) := StateT (Tick σ) (Except Fault)

namespace Act

variable {σ : Type}

def notice (n : Notice) : Act σ Unit :=
  modify fun t => { t with notices := t.notices.push n }

def lane (index : Nat) : Act σ Lane := do
  (← get).agent.lanes.lane index

def top? (index : Nat) : Act σ (Option Frame) := do
  (← get).agent.lanes.top? index

/-- Puts changed lanes back, and says so if the arena has grown from `size` for a lane. -/
@[noinline]
def putLanes {α : Type} (index size : Nat) (holder : Option QueryRequest) (nextLane : LaneId)
    (world : World σ) (cycle : Nat) (notices : Array Notice) :
    Except Fault (α × LaneStack) → Except Fault (α × Tick σ)
  | .error e => .error e
  | .ok (a, lanes) =>
    let notices :=
      if size < lanes.arena.size then notices.push (.arenaGrew index lanes.arena.size) else notices
    .ok (a, ⟨⟨lanes, holder, nextLane⟩, world, cycle, notices⟩)

/-- Changes the lanes. They are taken out of the tick meanwhile, so that they change in place. -/
def onLanes {α : Type} (index : Nat) (f : LaneStack → Except Fault (α × LaneStack)) : Act σ α :=
  fun ⟨⟨lanes, holder, nextLane⟩, world, cycle, notices⟩ =>
    putLanes index lanes.arena.size holder nextLane world cycle notices (f lanes)

def push (index : Nat) (frame : Frame) : Act σ Unit :=
  onLanes index fun s => (s.push index frame).map ((), ·)

def pop (index : Nat) : Act σ Unit :=
  onLanes index fun s => (s.pop index).map fun (_, s) => ((), s)

def setChildIndex (index : Nat) (childIndex : UInt16) : Act σ Unit :=
  onLanes index fun s => (s.setChildIndex index childIndex).map fun (_, s) => ((), s)

/-- An id that no lane of the agent has had before. -/
def freshLane : Act σ LaneId := do
  let t ← get
  let id := t.agent.nextLane
  unless id + 1 < 0x100000000 do throw .overflow
  set { t with agent := { t.agent with nextLane := id + 1 } }
  return id

/-- Starts over with a primary lane at the root. -/
def createPrimary : Act σ Unit := do
  let id ← freshLane
  onLanes 0 fun s => (s.createPrimary .root id).map ((), ·)

def setHolder (holder : Option QueryRequest) : Act σ Unit :=
  modify fun t => { t with agent := { t.agent with holder := holder } }

def onWorld (f : World σ → Except Fault (World σ)) : Act σ Unit := do
  let world ← (f (← get).world : Except Fault (World σ))
  modify fun t => { t with world := world }

def write (slot : VarSlot) (value : Constant) : Act σ Unit :=
  onWorld fun w => (slot.write value w.blackboard).map fun board => { w with blackboard := board }

variable [QuerySystem σ]

def submit (request : QueryRequest) : Act σ Unit := do
  notice (.submitted request)
  onWorld fun w => .ok { w with queries := QuerySystem.submit w.queries request }

def poll (request : QueryRequest) : Act σ QueryStatus :=
  modifyGet fun t =>
    let (status, queries) := QuerySystem.poll t.world.queries request
    (status, { t with world := { t.world with queries := queries } })

def cancel (request : QueryRequest) : Act σ Unit :=
  onWorld fun w => .ok { w with queries := QuerySystem.cancel w.queries request }

end Act

end BehaviorTree
