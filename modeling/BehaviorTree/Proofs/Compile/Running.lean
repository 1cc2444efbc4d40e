import BehaviorTree.Proofs.Compile.Soundness
import BehaviorTree.Proofs.Machine.Safety

/-! Compiled programs in the machine. What is emitted for a field is never wider than a scalar, so that a tick of a
program that was compiled without errors is only refused when steps, ids or memory run out. Memory may run out at
once, since a block of frames can be chosen larger than all memory. -/

namespace BehaviorTree

/-- The result of an operation is a scalar. -/
theorem Program.HasSize.le_four {p : Program} {index : UInt16} {slot : UInt8} {size : Nat}
    (h : p.HasSize (.output index slot) size) : size ≤ 4 := by
  rw [← show _ = size from h, Expressions.resultSize?]
  cases p.expressions.operations[index.toNat]? with
  | none => exact Nat.zero_le _
  | some operation => exact Surroundings.size_le_four operation.outputType

namespace Plan

variable {plan : Plan} {p : Program} {final : Bytes} {i : Instance} {a : Action} {node : Node}

/-- Constants are interned with their own bytes. -/
theorem Stands.length_le {source : ValueSource} {offset : UInt32} {length : UInt16}
    (stands : plan.Stands final source (.constant offset length)) : length.toNat ≤ 4 := by
  cases source with
  | constant value =>
    have fits : plan.Fits final 0 value.type (.constant offset length) := Stands.fits stands
    rw [fits.2]
    exact Surroundings.size_le_four value.type
  | operator j =>
    obtain ⟨index, -, h⟩ := stands
    cases h

/-- No field of an emitted node is wider than a scalar. -/
theorem Emitted.narrow (emitted : plan.Emitted p i a node) (carried : plan.Carried p) : node.wideField? = none := by
  have payload := emitted.payload carried
  cases node with
  | writeField component fields =>
    obtain ⟨type, -, hfields⟩ := payload
    refine List.find?_eq_none.mpr fun field hfield => ?_
    have hsize := (hfields field hfield).2
    have hmem : field.value ∈ (Node.writeField component fields).values := List.mem_map_of_mem hfield
    obtain ⟨port, -, source, _, supplies⟩ := Emit.exists_of_mem_right emitted.arguments hmem
    have hle : field.length.toNat ≤ 4 := by
      cases hvalue : field.value with
      | constant offset length =>
        have stands := supplies.stands
        rw [hvalue] at stands hsize
        exact (show length.toNat = field.length.toNat from hsize) ▸ stands.length_le
      | output index slot =>
        rw [hvalue] at hsize
        exact hsize.le_four
    simpa using hle
  | _ => rfl

/-- No field of a compiled program is wider than a scalar. -/
theorem Made.narrow {entries : List Entry} {operations : List Operation} (made : plan.Made p entries operations)
    (carried : plan.Carried p) : ∀ entry ∈ p.entries, entry.node.wideField? = none := by
  intro entry hentry
  obtain rfl | ⟨i, a, emitted⟩ := made.entry_cases hentry
  · rfl
  · exact emitted.narrow carried

end Plan

/-- A new agent whose arena has one frame and grows by more frames than can be addressed. -/
def Agent.vast : Agent :=
  ⟨⟨#[], Array.replicate 1 default, 2 ^ 62, by decide⟩, none, 0⟩

namespace Sources

/-- Whatever the memory, the time and the answers to queries are, a tick of a program that was compiled without
errors returns, unless it runs out of steps, of ids for lanes, or of memory for frames. -/
theorem tick_of_compile {src : Sources} (built : src.library.Built) (bounded : src.library.Bounded src.entry)
    (fields : src.catalog.InRange) (declared : src.blackboard.Built) (hboard : src.blackboard.size < 2 ^ 32)
    {c : Compilation} (h : src.compile = .ok c) (hclean : c.errors = []) (htypes : c.program.types.size ≤ 65536)
    {σ : Type} [QuerySystem σ] {agent : Agent} (reaches : c.program.Reaches agent) {world : World σ}
    (checked : world.check c.program = .ok ()) (maxCycles : Nat) :
    (∃ t, c.program.tick maxCycles agent world = .ok t) ∨
      ∃ fault, c.program.tick maxCycles agent world = .error fault ∧
        c.program.Exhausts maxCycles agent world fault := by
  obtain ⟨registry, entries, operations, sound, made⟩ := made_of_compile built bounded h hclean
  have carried := made.carried sound htypes fields declared.inRange hboard
  exact Program.tick_ok_of_narrow (made.valid sound carried) reaches checked (made.narrow carried) maxCycles

theorem tick_of_compile_crossings : ∃ c, crossings.compile = .ok c ∧ c.errors = [] ∧
    c.program.types.size ≤ 65536 ∧ c.program.Reaches .fresh ∧
      (World.blank c.program (Memory.zeros 1) QueryBoard.empty).check c.program = .ok () ∧
      ((∃ t, c.program.tick 10 .fresh (.blank c.program (Memory.zeros 1) QueryBoard.empty) = .ok t) ∨
        ∃ fault, c.program.tick 10 .fresh (.blank c.program (Memory.zeros 1) QueryBoard.empty) = .error fault ∧
          c.program.Exhausts 10 .fresh (.blank c.program (Memory.zeros 1) QueryBoard.empty) fault) := by
  have htypes : crossed.types.size ≤ 65536 := by decide
  have hboard : crossings.blackboard.size < 2 ^ 32 := by decide
  have reaches : crossed.Reaches .fresh := .new (show Agent.new 32 8 = .ok .fresh from rfl)
  have checked : (World.blank crossed (Memory.zeros 1) QueryBoard.empty).check crossed = .ok () := by decide +kernel
  exact ⟨_, crossings_compile, rfl, htypes, reaches, checked, tick_of_compile crossings_built crossings_bounded
    crossings_inRange (.declare .empty "alert" .bool) hboard crossings_compile rfl htypes reaches checked 10⟩

/-- Steps and ids are not all that a tick of a program compiled without errors may run out of: the first call of a
vast agent is refused for want of memory. -/
theorem not_forall_tick_of_compile : ¬ ∀ (src : Sources) (c : Compilation), src.library.Built →
    src.library.Bounded src.entry → src.catalog.InRange → src.blackboard.Built → src.blackboard.size < 2 ^ 32 →
    src.compile = .ok c → c.errors = [] → c.program.types.size ≤ 65536 →
    ∀ (agent : Agent) (world : World QueryBoard) (maxCycles : Nat), c.program.Reaches agent →
      world.check c.program = .ok () → (∃ t, c.program.tick maxCycles agent world = .ok t) ∨
        c.program.tick maxCycles agent world = .error (.runaway maxCycles) ∨
        c.program.tick maxCycles agent world = .error .overflow := by
  have reaches : crossed.Reaches Agent.vast := .new (show Agent.new 1 (2 ^ 62) = .ok Agent.vast from rfl)
  have checked : (World.blank crossed (Memory.zeros 1) QueryBoard.empty).check crossed = .ok () := by decide +kernel
  have hrefused : (crossed.tick 10 Agent.vast (.blank crossed (Memory.zeros 1) QueryBoard.empty)).map (fun _ => ()) =
      .error .tooLarge := by decide +kernel
  intro hends
  obtain ⟨t, ht⟩ | ht | ht := hends crossings _ crossings_built crossings_bounded crossings_inRange
    (.declare .empty "alert" .bool) (by decide) crossings_compile rfl (by decide) Agent.vast _ 10 reaches checked
  all_goals
    rw [ht] at hrefused
    cases hrefused

end Sources

end BehaviorTree
