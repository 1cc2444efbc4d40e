import BehaviorTree.Machine.Step

/-! Ticks. Every lane has its turn, also those that are started in the tick; a turn goes on until
the lane suspends. The number of steps of a tick is limited. -/

namespace BehaviorTree

namespace Act

variable {σ : Type} [QuerySystem σ]

/-- Begins the turn of a lane. -/
def beginTurn (p : Program) (index : Nat) : Act σ Unit := do
  match ← (← get).agent.lanes.frames index with
  | [] => throw .outOfRange
  | bottom :: _ => emit p index bottom.node .start

/-- Makes steps, of which `budget` are left out of `maxCycles`, until all lanes from `index` on have
had their turn. -/
def runFrom (p : Program) (maxCycles : Nat) :
    (budget : Nat) → (index : Nat) → (rootVisited : Bool) → Tick σ → Except Fault (Tick σ)
  | 0, _, _, _ => .error (.runaway maxCycles)
  | budget + 1, index, rootVisited, t =>
    match step p index rootVisited { t with cycle := t.cycle + 1 } with
    | .error e => .error e
    | .ok (.goOn, t) => runFrom p maxCycles budget index rootVisited t
    | .ok (.enterRoot, t) => runFrom p maxCycles budget index true t
    | .ok (.suspend, t) =>
      if index + 1 < t.agent.lanes.lanes.size then
        match beginTurn p (index + 1) t with
        | .error e => .error e
        | .ok ((), t) => runFrom p maxCycles budget (index + 1) false t
      else .ok t

/-- Lets all lanes have their turn. An agent without lanes gets its primary one first. -/
def runLanes (p : Program) (maxCycles : Nat) (t : Tick σ) : Except Fault (Tick σ) := do
  let ((), t) ← (if t.agent.lanes.lanes.isEmpty then createPrimary else pure () : Act σ Unit) t
  let ((), t) ← beginTurn p 0 t
  runFrom p maxCycles maxCycles 0 false t

end Act

/-- The number of steps that a tick may take unless it is said otherwise. -/
def defaultMaxCycles : Nat := 10000

/-- Advances an agent by one tick. -/
def Program.tick {σ : Type} [QuerySystem σ] (p : Program) (maxCycles : Nat) (agent : Agent)
    (world : World σ) : Except Fault (Tick σ) := do
  world.check p
  let t ← Act.runLanes p maxCycles ⟨agent, world, 0, #[]⟩
  t.agent.lanes.check
  return t

end BehaviorTree
