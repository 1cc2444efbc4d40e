import BehaviorTree.Proofs.Machine.Runs

/-! What programs leave alone. A step changes memory only in the variable or in the fields that the node on top of
its lane writes. Whatever happens in a run, a byte that no node of the program writes stays as it was, and all
memory keeps its size. -/

namespace BehaviorTree

open Refusal

/-! ### Memory -/

/-- The byte is one of `length` bytes from `offset` on. -/
def Memory.Within (offset length k : Nat) : Prop :=
  offset ≤ k ∧ k < offset + length

/-- The memory may have changed in the bytes that are touched, and nowhere else. -/
structure Memory.Spared (touched : Nat → Prop) (m m' : Memory) : Prop where
  size : m'.size = m.size
  rest : ∀ k, ¬touched k → (Memory.toBytes m')[k]? = (Memory.toBytes m)[k]?

namespace Memory.Spared

variable {touched touched' : Nat → Prop} {m m' m'' : Memory}

theorem refl (touched : Nat → Prop) (m : Memory) : m.Spared touched m :=
  ⟨rfl, fun _ _ => rfl⟩

theorem trans (h : m.Spared touched m') (h' : m'.Spared touched m'') : m.Spared touched m'' where
  size := h'.size.trans h.size
  rest k hk := (h'.rest k hk).trans (h.rest k hk)

theorem mono (h : m.Spared touched m') (himp : ∀ k, touched k → touched' k) : m.Spared touched' m' where
  size := h.size
  rest k hk := h.rest k (mt (himp k) hk)

theorem of_overwrite {offset : Nat} {new : Bytes} (h : m.overwrite offset new = .ok m') :
    m.Spared (Memory.Within offset new.length) m' := by
  have hbytes := overwrite_toBytes m offset new
  rw [h, Bytes.overwrite, length_toBytes] at hbytes
  have hle : offset + new.length ≤ m.size := by
    by_contra hgt
    rw [if_neg hgt] at hbytes
    cases hbytes
  rw [if_pos hle] at hbytes
  have hbytes := Except.ok.inj hbytes
  refine ⟨?_, fun k hk => ?_⟩
  · have hlength := congrArg List.length hbytes
    simp only [List.length_append, List.length_take, List.length_drop, length_toBytes] at hlength
    omega
  · have hbefore : ((toBytes m).take offset).length = offset := by
      rw [List.length_take, length_toBytes]
      omega
    rw [← hbytes, List.append_assoc, List.getElem?_append, hbefore, List.getElem?_take]
    by_cases hlt : k < offset
    · rw [if_pos hlt, if_pos hlt]
    · have hbehind : offset + new.length ≤ k := Nat.le_of_not_lt fun h => hk ⟨Nat.le_of_not_lt hlt, h⟩
      rw [if_neg hlt, List.getElem?_append_right (by omega), List.getElem?_drop]
      congr 1
      omega

/-- What is read from bytes that are not touched. -/
theorem slice_eq (h : m.Spared touched m') {offset length : Nat} (hfree : ∀ k, Within offset length k → ¬touched k) :
    m'.slice offset length = m.slice offset length := by
  rw [← slice_toBytes, ← slice_toBytes, Bytes.slice, Bytes.slice, length_toBytes, length_toBytes, h.size]
  refine if_congr Iff.rfl (congrArg Except.ok (List.ext_getElem? fun k => ?_)) rfl
  rw [List.getElem?_take, List.getElem?_take, List.getElem?_drop, List.getElem?_drop]
  by_cases hk : k < length
  · rw [if_pos hk, if_pos hk, h.rest _ (hfree _ ⟨Nat.le_add_right _ _, Nat.add_lt_add_left hk _⟩)]
  · rw [if_neg hk, if_neg hk]

end Memory.Spared

namespace Program

/-- A node writes a variable that has the byte. -/
def Stores (p : Program) (k : Nat) : Prop :=
  ∃ id node slot, p.node? id = some node ∧ node.slot? = some slot ∧
    Memory.Within slot.offset.toNat slot.length k

/-- A node writes a field of the component that has the byte. -/
def StoresField (p : Program) (component k : Nat) : Prop :=
  ∃ id index fields, p.node? id = some (.writeField index fields) ∧ index.toNat = component ∧
    ∃ write ∈ fields, Memory.Within write.offset.toNat write.length.toNat k

end Program

/-- The memory of the agent may have changed where a node of the program writes, and nowhere else. -/
structure World.Spared {σ : Type} (p : Program) (world world' : World σ) : Prop where
  blackboard : world.blackboard.Spared p.Stores world'.blackboard
  count : world'.components.size = world.components.size
  components : ∀ (index : Nat) (store : Storage), world.components[index]? = some store →
    ∃ store', world'.components[index]? = some store' ∧ store'.typeId = store.typeId ∧
      store.data.Spared (p.StoresField index) store'.data

namespace World.Spared

variable {σ : Type} {p : Program} {world world' world'' : World σ}

theorem refl (p : Program) (world : World σ) : world.Spared p world where
  blackboard := .refl _ _
  count := rfl
  components _ store h := ⟨store, h, rfl, .refl _ _⟩

theorem trans (h : world.Spared p world') (h' : world'.Spared p world'') : world.Spared p world'' where
  blackboard := h.blackboard.trans h'.blackboard
  count := h'.count.trans h.count
  components index store hstore := by
    obtain ⟨store', hstore', hid, spared⟩ := h.components index store hstore
    obtain ⟨store'', hstore'', hid', spared'⟩ := h'.components index store' hstore'
    exact ⟨store'', hstore'', hid'.trans hid, spared.trans spared'⟩

theorem of_same (hcomponents : world'.components = world.components) (hboard : world'.blackboard = world.blackboard) :
    world.Spared p world' where
  blackboard := hboard ▸ .refl _ _
  count := congrArg Array.size hcomponents
  components _ store h := ⟨store, hcomponents ▸ h, rfl, .refl _ _⟩

theorem of_board {board : Memory} (h : world.blackboard.Spared p.Stores board) :
    world.Spared p { world with blackboard := board } where
  blackboard := h
  count := rfl
  components _ store h := ⟨store, h, rfl, .refl _ _⟩

theorem of_store {component : Nat} {store : Storage} {data : Memory} (hstore : world.components[component]? = some store)
    (h : store.data.Spared (p.StoresField component) data) :
    world.Spared p { world with components := world.components.setIfInBounds component { store with data := data } } where
  blackboard := .refl _ _
  count := Array.size_setIfInBounds
  components index old hold := by
    simp only [Array.getElem?_setIfInBounds]
    by_cases hsame : component = index
    · subst hsame
      obtain rfl := Option.some.inj (hstore.symm.trans hold)
      rw [if_pos rfl, if_pos (Array.getElem?_eq_some_iff.mp hstore).1]
      exact ⟨_, rfl, rfl, h⟩
    · rw [if_neg hsame]
      exact ⟨old, hold, rfl, .refl _ _⟩

end World.Spared

/-! ### Steps -/

theorem Surroundings.length_evaluate {s : Surroundings} {ref : ValueRef} {size : Nat} {bytes : Bytes}
    (h : s.evaluate ref size = .ok bytes) : bytes.length = size := by
  obtain ⟨value, -, h⟩ := bind_eq_ok_iff.mp h
  split_ifs at h with hsize
  · obtain rfl := Except.ok.inj h
    exact hsize

namespace Act

variable {σ α β : Type} {p : Program}

/-- The act writes where nodes of the program write, and what it only reads does not change. -/
abbrev Spares (p : Program) (act : Act σ α) : Prop :=
  ∀ t, act.Leads t fun _ t' => t.world.Spared p t'.world ∧ t'.world.lookups = t.world.lookups

theorem Still.spares {act : Act σ α} (still : act.Still) : act.Spares p := by
  refine fun t => (still t).mono fun _ t' hmemory => ?_
  obtain ⟨hcomponents, hrest⟩ := Prod.mk.inj hmemory
  obtain ⟨hlookups, hboard⟩ := Prod.mk.inj hrest
  exact ⟨.of_same hcomponents hboard, hlookups⟩

theorem Inner.spares {act : Act σ α} (inner : act.Inner) : act.Spares p :=
  inner.still.spares

theorem Reports.spares {act : Act σ α} (reports : act.Reports) : act.Spares p :=
  reports.inner.spares

namespace Spares

theorem bind {act : Act σ α} {next : α → Act σ β} (h : act.Spares p) (hnext : ∀ a, (next a).Spares p) :
    (act >>= next).Spares p := by
  refine fun t => .seq (h t) fun a t' ⟨spared, hlookups⟩ => (hnext a t').mono ?_
  exact fun _ t'' ⟨spared', hlookups'⟩ => ⟨spared.trans spared', hlookups'.trans hlookups⟩

theorem get_bind {next : Tick σ → Act σ β} (h : ∀ t, (next t).Spares p) : (get >>= next).Spares p :=
  fun t => .bind_of_eq rfl (h t t)

theorem forM {f : α → Act σ Unit} {items : List α} (h : ∀ a ∈ items, (f a).Spares p) : (items.forM f).Spares p := by
  induction items with
  | nil => exact Still.spares (.pure ())
  | cons a items ih =>
    rw [List.forM_eq_forM, List.forM_cons]
    exact (h a (by simp)).bind fun _ => ih fun a ha => h a (by simp [ha])

theorem andGoOn {act : Act σ Unit} (h : act.Spares p) : (Act.andGoOn act).Spares p :=
  h.bind fun _ => Still.spares (.pure _)

/-- A scalar in the slot of a node. -/
theorem writeSlot {id : NodeId} {node : Node} {slot : VarSlot} (hnode : p.node? id = some node)
    (hslot : node.slot? = some slot) {t : Tick σ} {bytes : Bytes} {board : Memory} (hlength : bytes.length = slot.length)
    (h : t.world.blackboard.overwrite slot.offset.toNat bytes = .ok board) :
    t.world.Spared p { t.world with blackboard := board } := by
  have spared := Memory.Spared.of_overwrite h
  rw [hlength] at spared
  exact .of_board (spared.mono fun k hk => ⟨id, node, slot, hnode, hslot, hk⟩)

theorem writeVar {id : NodeId} {slot : VarSlot} {value : ValueRef} (hnode : p.node? id = some (.writeVar slot value)) :
    (Act.writeVar p slot value : Act σ Unit).Spares p := by
  refine fun t => .seq (evaluateWith_reads value _ t) fun bytes u ⟨hworld, hbytes⟩ => Leads.onWorld fun world h => ?_
  obtain ⟨board, hboard, h⟩ := bind_eq_ok_iff.mp h
  obtain rfl := Except.ok.inj h
  rw [hworld] at hboard ⊢
  exact ⟨writeSlot hnode rfl (Surroundings.length_evaluate hbytes) hboard, rfl⟩

/-- Results of a query. -/
theorem write {id : NodeId} {query : UInt16} {result : VarSlot} (hnode : p.node? id = some (.query query result))
    {value : Constant} (htype : value.type = result.type) : (Act.write result value : Act σ Unit).Spares p := by
  refine fun t => Leads.onWorld fun world h => ?_
  obtain ⟨board, hboard, rfl⟩ := map_eq_ok_iff.mp h
  rw [VarSlot.write] at hboard
  split_ifs at hboard
  have hlength : value.bytes.length = result.length := by
    rw [VarSlot.length, ← htype]
    cases value <;> rfl
  exact ⟨writeSlot hnode rfl hlength hboard, rfl⟩

theorem writeField {id : NodeId} {index : UInt16} {fields : List FieldWrite}
    (hnode : p.node? id = some (.writeField index fields)) {field : FieldWrite} (hfield : field ∈ fields) :
    (Act.writeField p index field : Act σ Unit).Spares p := by
  unfold Act.writeField
  split_ifs
  · refine fun t => .seq (evaluateWith_reads field.value _ t) fun bytes u ⟨hworld, hbytes⟩ => Leads.onWorld fun world h => ?_
    rw [hworld] at h
    split at h
    · cases h
    next store hstore =>
      obtain ⟨data, hdata, h⟩ := bind_eq_ok_iff.mp h
      obtain rfl := Except.ok.inj h
      have spared := Memory.Spared.of_overwrite hdata
      rw [Surroundings.length_evaluate hbytes] at spared
      exact ⟨.of_store hstore (spared.mono fun k hk => ⟨id, index, fields, hnode, rfl, field, hfield, hk⟩), rfl⟩
  · exact Still.spares (.throw _)

section Queries

variable [QuerySystem σ]

theorem query {id : NodeId} {request : UInt16} {result : VarSlot} (hnode : p.node? id = some (.query request result))
    (index : Nat) (frame : Frame) : (Act.query p index frame request result : Act σ Outcome).Spares p := by
  have htype (count : UInt32) : (queryResult result.type count).type = result.type := by
    cases result.type <;> rfl
  refine (Reports.lane index).spares.bind fun lane => .get_bind fun t => ?_
  dsimp only
  split_ifs
  · exact (Reports.emit p index frame.node .wait).spares.bind fun _ => Still.spares (.pure _)
  on_goal 1 =>
    refine (Inner.setHolder _).spares.bind fun _ => (Inner.setChildIndex index 1).spares.bind fun _ => ?_
    refine (Still.submit _).spares.bind fun _ => ?_
  -- Whether it has just been asked or before, the query looks for its results.
  all_goals
    refine (Still.poll _).spares.bind fun status => ?_
    cases status with
    | complete count =>
      refine (write hnode (htype count)).bind fun _ => (Inner.setHolder none).spares.bind fun _ => ?_
      exact (Inner.finish p index frame.node).spares.bind fun _ => Still.spares (.pure _)
    | pending => exact (Reports.emit p index frame.node .wait).spares.bind fun _ => Still.spares (.pure _)

theorem stepNode {id : NodeId} {node : Node} (hnode : p.node? id = some node) (index : Nat) (frame : Frame)
    (isBottom rootVisited : Bool) : (Act.stepNode p index frame isBottom rootVisited node : Act σ Outcome).Spares p := by
  have hfinish : (Act.finish p index frame.node : Act σ Unit).Spares p := (Inner.finish p index frame.node).spares
  cases node with
  | nop => exact andGoOn hfinish
  | root child | threadRoot child _ =>
    rw [Act.stepNode]
    split_ifs
    · exact (Inner.laneRoot p index frame child _ rootVisited).spares
    · exact andGoOn (Inner.single p index frame child).spares
  | «catch» child => exact andGoOn (Inner.single p index frame child).spares
  | sequence children =>
    rw [Act.stepNode]
    refine andGoOn ?_
    split
    · split_ifs
      · exact (Inner.call p index frame.node _ _).spares
      · exact Still.spares ((Leaves.throw _).bind fun _ => (Inner.call p index frame.node _ _).still)
    · exact hfinish
  | selector branches =>
    rw [Act.stepNode]
    split_ifs
    · exact andGoOn hfinish
    · refine (Reports.choose p branches 0).spares.bind fun choice => ?_
      cases choice with
      | none => exact (Still.fail p index frame.node).spares
      | some r => exact andGoOn (Inner.call p index frame.node r.1 r.2).spares
  | writeField component fields =>
    exact andGoOn ((forM fun field hfield => writeField hnode hfield).bind fun _ => hfinish)
  | wait goal => exact (Inner.wait p index frame goal).spares
  | fail => exact (Still.fail p index frame.node).spares
  | optional guard child =>
    rw [Act.stepNode]
    refine andGoOn ?_
    split_ifs
    · exact hfinish
    · refine (Reports.evaluateWith p guard _).spares.bind fun holds => ?_
      cases holds with
      | false => exact hfinish
      | true => exact (Inner.call p index frame.node 1 child).spares
  | writeVar slot value => exact andGoOn ((writeVar hnode).bind fun _ => hfinish)
  | query request result => exact query hnode index frame
  | parallel main thread => exact andGoOn (Still.parallel p index frame main thread).spares

/-- A step writes what the node on top of its lane writes. -/
theorem step (p : Program) (index : Nat) (rootVisited : Bool) :
    (Act.step p index rootVisited : Act σ Outcome).Spares p := by
  refine (Reports.top? index).spares.bind fun top => ?_
  cases top with
  | none => exact Still.spares (.throw _)
  | some frame =>
    refine (Reports.lane index).spares.bind fun lane => ?_
    cases hnode : p.node? frame.node with
    | none =>
      have hmissing : (Act.node p frame.node : Act σ Node) = throw Fault.outOfRange := by rw [Act.node, hnode]
      rw [hmissing]
      exact fun t => .bind (.of_error (show _ = Except.error Fault.outOfRange from rfl) trivial)
    | some node =>
      have hknown : (Act.node p frame.node : Act σ Node) = pure node := by rw [Act.node, hnode]
      rw [hknown, pure_bind]
      exact stepNode hnode index frame _ rootVisited

end Queries

end Spares

end Act

/-! ### Runs -/

namespace Program

variable {σ : Type} [QuerySystem σ] {p : Program}

/-- Ticks one after another. Between two of them the memory of the agent stays, and all else may change. -/
inductive Arrives (p : Program) (agent₀ : Agent) (world₀ : World σ) : Agent → World σ → Prop
  | start : Arrives p agent₀ world₀ agent₀ world₀
  | tick {maxCycles : Nat} {agent : Agent} {world world' : World σ} {t : Tick σ}
    (arrives : Arrives p agent₀ world₀ agent world) (hcomponents : world'.components = world.components)
    (hboard : world'.blackboard = world.blackboard) (h : p.tick maxCycles agent world' = .ok t) :
    Arrives p agent₀ world₀ t.agent t.world

variable {agent₀ agent : Agent} {world₀ world world' : World σ}

theorem spared_kept (p : Program) (world₀ : World σ) :
    Tick.Kept p fun t => world₀.Spared p t.world ∧ t.world.lookups = world₀.lookups where
  step h _ _ hstep := by
    obtain ⟨spared, hlookups⟩ := (Act.Spares.step p _ _ _).of_ok hstep
    exact ⟨h.1.trans spared, hlookups.trans h.2⟩
  report _ _ h := h

omit [QuerySystem σ] in
theorem spared_begin {t : Tick σ} (h : Act.createPrimary ⟨agent, world, 0, #[]⟩ = .ok ((), t)) :
    world.Spared p t.world ∧ t.world.lookups = world.lookups :=
  (Act.Inner.createPrimary.spares _).of_ok h

/-- Whenever a step begins. -/
theorem Visits.spared (valid : p.Valid) (reaches : p.Reaches agent) (checked : world.check p = .ok ()) {maxCycles index : Nat}
    {u : Tick σ} (visits : p.Visits maxCycles agent world index u) :
    world.Spared p u.world ∧ u.world.lookups = world.lookups :=
  (visits.kept valid (spared_kept p world) (reaches.steady valid) (World.suits_of_check checked) ⟨.refl p world, rfl⟩
    fun _ _ h => spared_begin h).1

theorem Arrives.reaches (reaches : p.Reaches agent₀) (arrives : p.Arrives agent₀ world₀ agent world) :
    p.Reaches agent := by
  induction arrives with
  | start => exact reaches
  | tick _ _ _ h ih => exact ih.tick h

/-- Between ticks. -/
theorem Arrives.spared (valid : p.Valid) (reaches : p.Reaches agent₀) (arrives : p.Arrives agent₀ world₀ agent world) :
    world₀.Spared p world := by
  induction arrives with
  | start => exact .refl p world₀
  | @tick maxCycles agent world world' t arrives hcomponents hboard h ih =>
    have steady := (arrives.reaches reaches).steady valid
    have spared := (tick_kept valid (spared_kept p world') steady ⟨.refl p world', rfl⟩ (fun _ _ h => spared_begin h) h).1
    exact (ih.trans (.of_same hcomponents hboard)).trans spared

end Program

end BehaviorTree
