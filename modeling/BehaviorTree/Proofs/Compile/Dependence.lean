import BehaviorTree.Proofs.Compile.Walk

/-! Which operators an instance depends on, said without the walk along the wires and whatever is wrong with the
graphs. Of several links to a port the first one counts, and of several output nodes the first one. -/

namespace BehaviorTree

open Relation

/-- The operator that feeds an incoming value port. A link from an input node goes on at the argument of the call that
led to its graph, one from a call at the result of the called graph. -/
inductive Draws (library : Library) : Spot → Instance → Prop
  | operator {spot : Spot} {link : Link} (hlink : ((spot.graph library).linksTo spot.ref).head? = some link)
    {op : Operator} (hrole : ((spot.graph library).node link.source.node).role = .operator op) :
    Draws library spot ⟨spot.path, link.source.node⟩
  | argument {spot : Spot} {link : Link} (hlink : ((spot.graph library).linksTo spot.ref).head? = some link)
    (hrole : ((spot.graph library).node link.source.node).role = .input) {outer : CallPath} {via port : Nat}
    (hleave : spot.path.leave? = some (outer, via))
    (hport : ((library.graph outer.graph).node via).port?
      (((spot.graph library).node link.source.node).port link.source.port).name = some port)
    {i : Instance} (next : Draws library ⟨outer, via, port⟩ i) : Draws library spot i
  | result {spot : Spot} {link : Link} (hlink : ((spot.graph library).linksTo spot.ref).head? = some link)
    {callee : GraphId} (hrole : ((spot.graph library).node link.source.node).role = .call callee) {output port : Nat}
    (houtput : (library.graph callee).outputNode? = some output)
    (hport : ((library.graph callee).node output).port?
      (((spot.graph library).node link.source.node).port link.source.port).name = some port)
    {i : Instance} (next : Draws library ⟨spot.path.enter link.source.node callee, output, port⟩ i) :
    Draws library spot i

/-- A value input of the instance is fed by the operator. -/
def DependsOn (library : Library) (i operator : Instance) : Prop :=
  ∃ port ∈ (i.graphNode library).valueInputs, Draws library (i.spot port) operator

variable {library : Library} {spot next : Spot} {operator : Instance} {seen : Trail}

namespace Spot

theorem leaveThrough_onward_iff {α : Type} {path : CallPath} {node : Nat} {name : String} :
    (leaveThrough library path node name : Hop (Option α) × Trail).1 = .onward next ↔
      outward? library path name = some next := by
  unfold leaveThrough
  dsimp only
  split
  next spot h => rw [h, Option.some.injEq, Hop.onward.injEq]
  next h => simp [h]

theorem outward?_eq_some_iff {path : CallPath} {name : String} :
    outward? library path name = some next ↔ ∃ outer via port, path.leave? = some (outer, via) ∧
      ((library.graph outer.graph).node via).port? name = some port ∧ next = ⟨outer, via, port⟩ := by
  simp only [outward?, Option.bind_eq_bind, Option.bind_eq_some_iff, Option.pure_def, Option.some.injEq, Prod.exists]
  constructor
  · rintro ⟨outer, via, hleave, port, hport, rfl⟩
    exact ⟨outer, via, port, hleave, hport, rfl⟩
  · rintro ⟨outer, via, port, hleave, hport, rfl⟩
    exact ⟨outer, via, hleave, port, hport, rfl⟩

/-- A value is followed into a called graph if there is something at its output. -/
theorem enterValue_onward_iff {path : CallPath} {via : Nat} {callee : GraphId} {name : String} {type : ValueType} :
    (enterValue library path via callee name type).1 = .onward next ↔
      ∃ output port, (library.graph callee).outputNode? = some output ∧
        ((library.graph callee).node output).port? name = some port ∧
        ¬((((library.graph callee).node output).port port).inline.isNone ∧
          (library.graph callee).linksTo ⟨output, port⟩ = []) ∧
        next = ⟨path.enter via callee, output, port⟩ := by
  unfold enterValue
  dsimp only
  split
  next h => simp [h]
  next output h =>
    split
    next hport => simp [h, hport]
    next port hport =>
      split_ifs with hempty
      · simp only [false_iff]
        rintro ⟨output', port', h', hport', hfull, -⟩
        obtain rfl := Option.some.inj (h.symm.trans h')
        obtain rfl := Option.some.inj (hport.symm.trans hport')
        exact hfull (by simpa using hempty)
      · rw [Hop.onward.injEq]
        constructor
        · rintro rfl
          exact ⟨output, port, h, hport, by simpa using hempty, rfl⟩
        · rintro ⟨output', port', h', hport', -, rfl⟩
          obtain rfl := Option.some.inj (h.symm.trans h')
          obtain rfl := Option.some.inj (hport.symm.trans hport')
          rfl

/-- A wire that ends at once at an operator. -/
theorem draws_of_stop (h : spot.valueHop library = .ok (.stop (some (.operator operator)), seen)) :
    Draws library spot operator := by
  unfold valueHop at h
  dsimp only at h
  split at h
  next => cases h
  next =>
    split at h
    next => split at h <;> simp at h
    next link others hlinks =>
      have hlink : ((spot.graph library).linksTo spot.ref).head? = some link := by rw [hlinks]; rfl
      obtain ⟨hstop, -⟩ := Prod.mk.inj (Except.ok.inj h)
      split at hstop
      next op hrole =>
        obtain rfl := ValueSource.operator.inj (Option.some.inj (Hop.stop.inj hstop))
        exact .operator hlink hrole
      next => exact absurd hstop enterValue_ne_operator
      next => exact absurd hstop leaveThrough_ne_some
      all_goals simp at hstop

/-- What feeds the next port of a wire feeds the port before. -/
theorem draws_of_passes (h : spot.PassesValue library next) (draws : Draws library next operator) :
    Draws library spot operator := by
  obtain ⟨seen, h⟩ := h
  unfold valueHop at h
  dsimp only at h
  split at h
  next => cases h
  next =>
    split at h
    next => split at h <;> simp at h
    next link others hlinks =>
      have hlink : ((spot.graph library).linksTo spot.ref).head? = some link := by rw [hlinks]; rfl
      obtain ⟨honward, -⟩ := Prod.mk.inj (Except.ok.inj h)
      split at honward
      next => cases honward
      next callee hrole =>
        obtain ⟨output, port, houtput, hport, -, rfl⟩ := enterValue_onward_iff.mp honward
        exact .result hlink hrole houtput hport draws
      next hrole =>
        obtain ⟨outer, via, port, hleave, hport, rfl⟩ := outward?_eq_some_iff.mp (leaveThrough_onward_iff.mp honward)
        exact .argument hlink hrole hleave hport draws
      all_goals cases honward

theorem EndsValue.draws (h : spot.EndsValue library (some (.operator operator))) : Draws library spot operator := by
  obtain ⟨last, seen, hpath, hlast⟩ := h
  induction hpath using ReflTransGen.head_induction_on with
  | refl => exact draws_of_stop hlast
  | head passes _ ih => exact draws_of_passes passes ih

/-! Where a link leads from a value port. -/

section

variable {type : ValueType} (hkind : (spot.portOf library).kind = .value type) {link : Link}
  (hlink : ((spot.graph library).linksTo spot.ref).head? = some link)

include hkind hlink

theorem valueHop_of_operator {op : Operator}
    (hrole : ((spot.graph library).node link.source.node).role = .operator op) :
    ∃ seen, spot.valueHop library = .ok (.stop (some (.operator ⟨spot.path, link.source.node⟩)), seen) := by
  obtain ⟨others, hlinks⟩ := List.head?_eq_some_iff.mp hlink
  unfold valueHop
  simp only [hkind, hlinks, hrole]
  exact ⟨_, rfl⟩

theorem passesValue_of_input (hrole : ((spot.graph library).node link.source.node).role = .input)
    (hnext : outward? library spot.path
      (((spot.graph library).node link.source.node).port link.source.port).name = some next) :
    spot.PassesValue library next := by
  obtain ⟨others, hlinks⟩ := List.head?_eq_some_iff.mp hlink
  have hhop : (leaveThrough library spot.path link.source.node
      (((spot.graph library).node link.source.node).port link.source.port).name :
        Hop (Option ValueSource) × Trail).1 = .onward next :=
    leaveThrough_onward_iff.mpr hnext
  unfold PassesValue Passes valueHop
  simp only [hkind, hlinks, hrole, hhop]
  exact ⟨_, rfl⟩

theorem passesValue_of_call {callee : GraphId}
    (hrole : ((spot.graph library).node link.source.node).role = .call callee)
    (hnext : (enterValue library spot.path link.source.node callee
      (((spot.graph library).node link.source.node).port link.source.port).name type).1 = .onward next) :
    spot.PassesValue library next := by
  obtain ⟨others, hlinks⟩ := List.head?_eq_some_iff.mp hlink
  unfold PassesValue Passes valueHop
  simp only [hkind, hlinks, hrole, hnext]
  exact ⟨_, rfl⟩

end

end Spot

namespace Draws

/-- Something is linked to the port. -/
theorem linksTo_ne_nil (h : Draws library spot operator) : (spot.graph library).linksTo spot.ref ≠ [] := by
  intro hnil
  cases h with
  | operator hlink | argument hlink | result hlink => simp [hnil] at hlink

/-- Unless a flow port is met on the way, the operator is found by following the wire. -/
theorem endsValue (h : Draws library spot operator) (clean : ¬spot.MeetsFlow library) :
    spot.EndsValue library (some (.operator operator)) := by
  have hvalue {spot : Spot} (clean : ¬spot.MeetsFlow library) : ∃ type, (spot.portOf library).kind = .value type := by
    cases hkind : (spot.portOf library).kind with
    | flow => exact absurd ⟨spot, .refl, hkind⟩ clean
    | value type => exact ⟨type, rfl⟩
  have honward {spot next : Spot} (clean : ¬spot.MeetsFlow library) (passes : spot.PassesValue library next) :
      ¬next.MeetsFlow library := by
    rintro ⟨last, hpath, hlast⟩
    exact clean ⟨last, .head passes hpath, hlast⟩
  induction h with
  | @operator spot link hlink op hrole =>
    obtain ⟨type, hkind⟩ := hvalue clean
    obtain ⟨seen, hhop⟩ := Spot.valueHop_of_operator hkind hlink hrole
    exact ⟨spot, seen, .refl, hhop⟩
  | @argument spot link hlink hrole outer via port hleave hport i next ih =>
    obtain ⟨type, hkind⟩ := hvalue clean
    have passes := Spot.passesValue_of_input hkind hlink hrole
      (Spot.outward?_eq_some_iff.mpr ⟨outer, via, port, hleave, hport, rfl⟩)
    exact (ih (honward clean passes)).head passes
  | @result spot link hlink callee hrole output port houtput hport i next ih =>
    obtain ⟨type, hkind⟩ := hvalue clean
    have hfull := next.linksTo_ne_nil
    have passes := Spot.passesValue_of_call hkind hlink hrole
      (Spot.enterValue_onward_iff.mpr ⟨output, port, houtput, hport, fun h => hfull h.2, rfl⟩)
    exact (ih (honward clean passes)).head passes

end Draws

end BehaviorTree
