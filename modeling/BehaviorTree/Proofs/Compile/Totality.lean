import BehaviorTree.Proofs.Compile.Walk
import BehaviorTree.Proofs.Script.Built

/-! Compilation gives a result for every graph, whatever is wrong with it, unless a flow port is read as a value. This
happens to a wire that crosses the boundary of a graph by the name of a flow port, and to a node that writes a field
of the name of its own flow port. -/

namespace BehaviorTree

open Registry

namespace Emit

variable {α β : Type} {risk : Prop}

/-- The emission gives a result on every draft, unless the risk is there and a flow port is read as a value. -/
def GivesUnless (risk : Prop) (m : Emit α) : Prop :=
  ∀ d, (∃ result, m d = .ok result) ∨ risk ∧ ∃ port, m d = .error (.flowAsValue port)

namespace GivesUnless

theorem pure (a : α) : (Pure.pure a : Emit α).GivesUnless risk :=
  fun d => .inl ⟨(a, d), rfl⟩

theorem bind {m : Emit α} {next : α → Emit β} (h : m.GivesUnless risk) (hnext : ∀ a, (next a).GivesUnless risk) :
    (m >>= next).GivesUnless risk := by
  intro d
  rw [show (m >>= next) d = (m d >>= fun r => next r.1 r.2) from rfl]
  rcases h d with ⟨⟨a, d₁⟩, hm⟩ | ⟨hrisk, port, hm⟩
  · rw [hm]
    exact hnext a d₁
  · rw [hm]
    exact .inr ⟨hrisk, port, rfl⟩

theorem mono {m : Emit α} {risk' : Prop} (h : m.GivesUnless risk) (himp : risk → risk') : m.GivesUnless risk' :=
  fun d => (h d).imp_right fun ⟨hrisk, port, hm⟩ => ⟨himp hrisk, port, hm⟩

theorem mapM {items : List α} {f : α → Emit β} (h : ∀ a ∈ items, (f a).GivesUnless risk) :
    (items.mapM f).GivesUnless risk := by
  induction items with
  | nil =>
    rw [List.mapM_nil]
    exact pure []
  | cons a items ih =>
    rw [List.mapM_cons]
    exact bind (h a (by simp)) fun b => bind (ih fun a ha => h a (by simp [ha])) fun bs => pure _

theorem report (e : CompileError) : (Emit.report e).GivesUnless risk :=
  fun _ => .inl ⟨_, rfl⟩

theorem intern (value : Constant) : (Emit.intern value).GivesUnless risk :=
  fun _ => .inl ⟨_, rfl⟩

theorem trailed {lookup : Except Fault (α × Trail)} {result : α × Trail} (h : lookup = .ok result) :
    (Emit.trailed lookup).GivesUnless risk := by
  subst h
  exact fun _ => .inl ⟨_, rfl⟩

end GivesUnless

/-- The emission gives a result on some draft. -/
def Gives (m : Emit α) : Prop :=
  ∃ d result, m d = .ok result

theorem Gives.of_bind {m : Emit α} {next : α → Emit β} (h : (m >>= next).Gives) :
    m.Gives ∧ ∃ a, (next a).Gives := by
  obtain ⟨d, ⟨b, d'⟩, h⟩ := h
  obtain ⟨a, d₁, hm, hnext⟩ := bind_eq_ok_iff.mp h
  exact ⟨⟨d, _, hm⟩, a, d₁, _, hnext⟩

theorem Gives.of_mapM {items : List α} {f : α → Emit β} (h : (items.mapM f).Gives) : ∀ a ∈ items, (f a).Gives := by
  induction items with
  | nil => simp
  | cons a items ih =>
    rw [List.mapM_cons] at h
    obtain ⟨hfirst, b, h⟩ := h.of_bind
    intro a' ha'
    rcases List.mem_cons.mp ha' with rfl | ha'
    · exact hfirst
    · exact ih h.of_bind.1 a' ha'

theorem Gives.of_trailed {lookup : Except Fault (α × Trail)} (h : (Emit.trailed lookup).Gives) :
    ∃ result, lookup = .ok result := by
  obtain ⟨d, result, h⟩ := h
  cases lookup with
  | ok found => exact ⟨found, rfl⟩
  | error fault => cases h

end Emit

/-- The instance writes a field that has the name of its own flow port. -/
def Instance.WritesIn (src : Sources) (i : Instance) : Prop :=
  ∃ component layout port, (i.graphNode src.library).role = .action (.writeField component) ∧
    src.catalog.get? component = some layout ∧ (layout.field? "in").isSome ∧
    port ∈ (i.graphNode src.library).valueInputs ∧ ((i.graphNode src.library).port port).name = "in"

/-- A met instance reads a flow port as a value. -/
def Sources.MisreadsFlow (src : Sources) : Prop :=
  ∃ i, src.Met i ∧ ((∃ port ∈ (i.graphNode src.library).valueInputs, (i.spot port).MeetsFlow src.library) ∨
    i.WritesIn src)

/-- A port is a value input if all ports of its name are. -/
theorem GraphNode.BuiltFrom.mem_valueInputs {node : GraphNode} {spec : NodeSpec} (built : node.BuiltFrom spec)
    {name : String} (hall : ∀ port ∈ spec.ports, port.name = name → port.direction = .incoming ∧ port.kind ≠ .flow)
    {index : Nat} (h : node.port? name = some index) : index ∈ node.valueInputs := by
  obtain ⟨hlt, hname⟩ := port?_eq_some h
  obtain ⟨port, hmem, hsame, hdirection, hkind⟩ := built.exists_port hlt
  obtain ⟨hincoming, hvalue⟩ := hall port hmem (hsame.trans hname)
  rw [hdirection] at hincoming
  rw [hkind] at hvalue
  cases htype : (node.port index).kind with
  | flow => exact absurd htype hvalue
  | value type => exact GraphNode.mem_valueInputs.mpr ⟨hlt, hincoming, type, htype⟩

/-- The operands of an operator are value inputs. -/
theorem GraphNode.Formed.operand {node : GraphNode} {library : Library} (formed : node.Formed library) {op : Operator}
    (hrole : node.role = .operator op) {name : String} (hname : name = "a" ∨ name = "b") {index : Nat}
    (h : node.port? name = some index) : index ∈ node.valueInputs := by
  obtain ⟨spec, -, built⟩ := formed
  have hspec := built.role.symm.trans hrole
  refine built.mem_valueInputs ?_ h
  obtain rfl | rfl := hname <;> cases spec <;>
    simp_all [NodeSpec.role, NodeSpec.ports, Port.valueIn, Port.valueOut]

namespace Plan

variable {plan : Plan} {i : Instance} {risk : Prop}

/-- A plan of everything that is met in acyclic graphs. -/
structure Ready (plan : Plan) : Prop where
  built : plan.src.library.Built
  acyclic : plan.src.library.Acyclic plan.src.entry
  bound : plan.bound = plan.src.library.wireBound plan.src.entry
  walked : Walked plan.src plan.bound [] plan.registry

/-- The instance is registered. -/
def Holds (plan : Plan) (i : Instance) : Prop :=
  i ∈ plan.registry.actionOrder ∨ i ∈ plan.registry.operatorOrder

theorem Ready.met (ready : plan.Ready) (holds : plan.Holds i) : plan.src.Met i :=
  holds.elim (fun h => (ready.walked.metActions i h).1.1) fun h => (ready.walked.metOperators i h).1

open Emit (GivesUnless)

/-! ### Small parts -/

theorem expectType_gives (site : Location) (expected found : ValueType) :
    (expectType site expected found).GivesUnless risk := by
  unfold expectType
  split_ifs
  · exact .pure _
  · exact .report _

theorem slot?_gives (site : Location) (var : String) : (plan.slot? site var).GivesUnless risk := by
  unfold slot?
  split
  · exact .pure _
  · exact .bind (.report _) fun _ => .pure _

theorem withChildren_gives {emit : List Nat → Emit Node} (h : (emit (plan.node i).flowOutputs).GivesUnless risk) :
    (plan.withChildren i emit).GivesUnless risk := by
  unfold withChildren
  dsimp only
  split_ifs
  · exact .bind (.report _) fun _ => .pure _
  · exact h

theorem fieldOffset_gives (site : Location) (component field : String) (type : ValueType) :
    (plan.fieldOffset site component field type).GivesUnless risk := by
  unfold fieldOffset
  split
  · exact .bind (.report _) fun _ => .pure _
  · split
    · exact .bind (.report _) fun _ => .pure _
    · exact .bind (expectType_gives _ _ _) fun _ => .pure _

section

variable (ready : plan.Ready) (holds : plan.Holds i)

include ready holds

theorem flowTarget_gives {port : Nat} (hport : port < (plan.node i).ports.size) :
    (plan.flowTarget i port).GivesUnless risk := by
  have within : (i.spot port).Within plan.src.library plan.src.entry := ⟨(valid_of_met (ready.met holds)).1, hport⟩
  obtain ⟨target, trail, h⟩ := Library.flowTarget_total ready.built ready.acyclic within
  rw [← ready.bound] at h
  exact .trailed h

theorem childAt_gives {port : Nat} (hport : port < (plan.node i).ports.size) :
    (plan.childAt i port).GivesUnless risk := by
  refine .bind (flowTarget_gives ready holds hport) fun target => ?_
  cases target with
  | none => exact .pure _
  | some child =>
    dsimp only
    split
    · exact .bind (.report _) fun _ => .pure _
    · exact .bind (.report _) fun _ => .pure _
    · exact .pure _

theorem child_gives (name : String) : (plan.child i name).GivesUnless risk := by
  unfold child
  split
  next port hport => exact childAt_gives ready holds (GraphNode.port?_eq_some hport).1
  next => exact .pure _

omit ready holds in
theorem threadAt_gives (target : Option Instance) :
    (match target with
      | some child => match (plan.node child).role with
        | .action (.threadRoot _) => Pure.pure (plan.nodeId child)
        | _ => thread.invalid plan i
      | none => thread.invalid plan i : Emit NodeId).GivesUnless risk := by
  have hinvalid : (thread.invalid plan i).GivesUnless risk := .bind (.report _) fun _ => .pure _
  cases target with
  | none => exact hinvalid
  | some child =>
    dsimp only
    split
    · exact .pure _
    · exact hinvalid

theorem thread_gives : (plan.thread i).GivesUnless risk := by
  unfold thread
  split
  next port hport => exact .bind (flowTarget_gives ready holds (GraphNode.port?_eq_some hport).1) threadAt_gives
  next => exact .bind (.pure none) threadAt_gives

/-- The wire of a value input has been followed before. -/
theorem valueAt_gives {port : Nat} (hport : port ∈ (plan.node i).valueInputs) (type : ValueType) :
    (plan.valueAt i port type).GivesUnless risk := by
  rcases ready.walked.values i (holds.imp_right .inl) port hport with hmem | ⟨source, trail, h, -⟩
  · cases hmem
  · refine .bind (.trailed h) fun source => ?_
    rcases source with - | operator | value
    · exact .intern _
    · dsimp only
      split
      · exact .pure _
      · exact .intern _
    · exact .intern _

theorem value_gives {name : String} (hport : ∀ port, (plan.node i).port? name = some port → port ∈ (plan.node i).valueInputs)
    (type : ValueType) : (plan.value i name type).GivesUnless risk := by
  unfold value
  split
  next port h => exact valueAt_gives ready holds (hport port h) type
  next => exact .intern _

omit holds in
/-- A flow port has no value. -/
theorem valueAt_flow {port : Nat} (hflow : ((plan.node i).port port).kind = .flow) (hrisk : risk) (type : ValueType) :
    (plan.valueAt i port type).GivesUnless risk := by
  have hkind : ((i.spot port).portOf plan.src.library).kind = .flow := hflow
  have h : plan.src.library.valueSource plan.bound (i.spot port) =
      .error (.flowAsValue ((i.spot port).portOf plan.src.library).name) := by
    rw [ready.bound, Library.valueSource, Library.wireBound, Spot.follow, Spot.valueHop, hkind]
  refine fun d => .inr ⟨hrisk, ((i.spot port).portOf plan.src.library).name, ?_⟩
  unfold valueAt
  rw [h]
  rfl

/-! ### Instructions -/

/-- A field takes the first port of its name, which is the flow port for one. -/
theorem fieldWrite?_gives {component : String} {fields : List (String × ValueType)}
    (hrole : (plan.node i).role = .action (.writeField component))
    (built : (plan.node i).BuiltFrom (.writeField component fields)) {layout : ComponentLayout}
    (hlayout : plan.src.catalog.get? component = some layout) {port : Nat} (hport : port ∈ (plan.node i).valueInputs) :
    (plan.fieldWrite? i layout ((plan.node i).port port)).GivesUnless (i.WritesIn plan.src) := by
  unfold fieldWrite?
  dsimp only
  split
  next => exact .pure _
  next => exact .bind (.report _) fun _ => .pure _
  next type field _ hfield =>
    refine .bind (expectType_gives _ _ _) fun _ => .bind ?_ fun _ => .pure _
    unfold value
    split
    next first hfirst =>
      obtain ⟨hlt, hname⟩ := GraphNode.port?_eq_some hfirst
      obtain ⟨other, hmem, hsame, hdirection, hkind⟩ := built.exists_port hlt
      rcases List.mem_cons.mp hmem with rfl | hmem
      · have hin : ((plan.node i).port port).name = "in" := hname.symm.trans hsame.symm
        refine valueAt_flow ready hkind.symm ⟨component, layout, port, hrole, hlayout, ?_, hport, hin⟩ _
        rw [← hin, hfield]
        rfl
      · obtain ⟨⟨name, type⟩, -, rfl⟩ := List.mem_map.mp hmem
        exact valueAt_gives ready holds (GraphNode.mem_valueInputs.mpr ⟨hlt, hdirection.symm, type, hkind.symm⟩) _
    next => exact .intern _

theorem writeField_gives {component : String} {fields : List (String × ValueType)}
    (hrole : (plan.node i).role = .action (.writeField component))
    (built : (plan.node i).BuiltFrom (.writeField component fields)) :
    (plan.writeField i component).GivesUnless (i.WritesIn plan.src) := by
  unfold writeField
  split
  next layout index hlayout _ =>
    exact .bind (.mapM fun port hport => fieldWrite?_gives ready holds hrole built hlayout hport) fun _ => .pure _
  next => exact .bind (.report _) fun _ => .pure _

theorem selector_gives : (plan.action i .selector).GivesUnless risk := by
  unfold action
  refine withChildren_gives ?_
  refine .bind (.mapM ?_) fun _ => .pure _
  rintro ⟨port, guard⟩ hmem
  obtain ⟨hport, hguard⟩ := List.of_mem_zip hmem
  refine .bind (valueAt_gives ready holds hguard _) fun _ => ?_
  exact .bind (childAt_gives ready holds (GraphNode.mem_flowOutputs.mp hport).1) fun _ => .pure _

theorem action_gives {a : Action} (hrole : (plan.node i).role = .action a) :
    (plan.action i a).GivesUnless (i.WritesIn plan.src) := by
  have formed : (plan.node i).Formed plan.src.library :=
    ready.built.formed.graphNode (by rw [show (i.graphNode plan.src.library).role = _ from hrole]; simp)
  obtain ⟨spec, known, built⟩ := formed
  have hspec := NodeSpec.of_action (built.role.symm.trans hrole)
  cases a <;> dsimp only at hspec
  case root => exact .bind (child_gives ready holds _) fun _ => .pure _
  case sequence =>
    unfold action
    refine withChildren_gives ?_
    refine .bind (.mapM fun port hport => ?_) fun _ => .pure _
    exact childAt_gives ready holds (GraphNode.mem_flowOutputs.mp hport).1
  case selector => exact selector_gives ready holds
  case writeField component =>
    obtain ⟨fields, rfl⟩ := hspec
    exact writeField_gives ready holds hrole built
  case waitFor =>
    subst hspec
    refine .bind (value_gives ready holds (fun port => built.mem_valueInputs ?_) _) fun _ => .pure _
    simp [NodeSpec.ports, Port.flowIn, Port.valueIn]
  case waitUntil =>
    subst hspec
    refine .bind (value_gives ready holds (fun port => built.mem_valueInputs ?_) _) fun _ => .pure _
    simp [NodeSpec.ports, Port.flowIn, Port.valueIn]
  case fail => exact .pure _
  case optional =>
    subst hspec
    refine .bind (value_gives ready holds (fun port => built.mem_valueInputs ?_) _) fun _ =>
      .bind (child_gives ready holds _) fun _ => .pure _
    simp [NodeSpec.ports, Port.flowIn, Port.flowOut, Port.valueIn]
  case «catch» => exact .bind (child_gives ready holds _) fun _ => .pure _
  case writeVar var =>
    obtain ⟨type, rfl⟩ := hspec
    refine .bind (slot?_gives _ _) fun slot => ?_
    cases slot with
    | none => exact .pure _
    | some slot =>
      refine .bind (expectType_gives _ _ _) fun _ =>
        .bind (value_gives ready holds (fun port => built.mem_valueInputs ?_) _) fun _ => .pure _
      simp [NodeSpec.ports, Port.flowIn, Port.valueIn]
  case query id var =>
    refine .bind (slot?_gives _ _) fun slot => ?_
    cases slot <;> exact .pure _
  case parallel => exact .bind (child_gives ready holds _) fun _ => .bind (thread_gives ready holds) fun _ => .pure _
  case threadRoot looping => exact .bind (child_gives ready holds _) fun _ => .pure _

/-- Two operands, one after the other. -/
theorem operands_gives (formed : (plan.node i).Formed plan.src.library) {op : Operator}
    (hrole : (plan.node i).role = .operator op) (type : ValueType) (make : ValueRef → ValueRef → Operation) : (do
      let a ← plan.value i "a" type
      return make a (← plan.value i "b" type) : Emit Operation).GivesUnless risk :=
  .bind (value_gives ready holds (fun _ => formed.operand hrole (.inl rfl)) _) fun _ =>
    .bind (value_gives ready holds (fun _ => formed.operand hrole (.inr rfl)) _) fun _ => .pure _

theorem operator_gives {op : Operator} (hrole : (plan.node i).role = .operator op) :
    (plan.operator i op).GivesUnless risk := by
  have formed : (plan.node i).Formed plan.src.library :=
    ready.built.formed.graphNode (by rw [show (i.graphNode plan.src.library).role = _ from hrole]; simp)
  have hoperands (type : ValueType) (make : ValueRef → ValueRef → Operation) : (do
      let a ← plan.value i "a" type
      return make a (← plan.value i "b" type) : Emit Operation).GivesUnless risk :=
    operands_gives ready holds formed hrole type make
  cases op with
  | readField component field | lookupField lookup component field =>
    exact .bind (fieldOffset_gives _ _ _ _) fun _ => .pure _
  | readVar var =>
    refine .bind (slot?_gives _ _) fun slot => ?_
    cases slot with
    | none => exact .pure _
    | some slot => exact .bind (expectType_gives _ _ _) fun _ => .pure _
  | not =>
    exact .bind (value_gives ready holds (fun _ => formed.operand hrole (.inl rfl)) _) fun _ => .pure _
  | and | or | compare => exact hoperands _ _
  | arith op type =>
    unfold operator
    dsimp only
    split_ifs
    · exact .bind (.report _) fun _ => hoperands _ _
    · exact hoperands _ _

theorem entry_gives : (plan.entry i).GivesUnless (i.WritesIn plan.src) := by
  unfold entry
  split
  next a hrole => exact .bind (action_gives ready holds hrole) fun _ => .pure _
  next => exact .bind (.pure _) fun _ => .pure _

theorem operation_gives : (plan.operation i).GivesUnless risk := by
  unfold operation
  split
  next op hrole => exact operator_gives ready holds hrole
  next => exact .pure _

end

theorem program_gives (ready : plan.Ready) :
    plan.program.GivesUnless (∃ i, plan.src.Met i ∧ i.WritesIn plan.src) := by
  have hentries : plan.entries.GivesUnless (∃ i, plan.src.Met i ∧ i.WritesIn plan.src) := by
    unfold entries
    split
    · exact .pure _
    · refine .mapM fun i hi => ?_
      have holds : plan.Holds i := .inl (Array.mem_toList_iff.mp hi)
      exact (entry_gives ready holds).mono fun h => ⟨i, ready.met holds, h⟩
  refine .bind hentries fun entries => .bind (.mapM fun i hi => ?_) fun operations => ?_
  · exact operation_gives ready (.inr (Array.mem_toList_iff.mp hi))
  · exact fun d => .inl ⟨_, rfl⟩

theorem writeField_of_program {d : Draft} {result : Program × Draft} (h : plan.program d = .ok result)
    (hi : i ∈ plan.registry.actionOrder) {component : String}
    (hrole : (plan.node i).role = .action (.writeField component)) : (plan.writeField i component).Gives := by
  have hprogram : plan.program.Gives := ⟨d, result, h⟩
  have hentries := hprogram.of_bind.1
  have hmem := Array.mem_toList_iff.mpr hi
  unfold entries at hentries
  split at hentries
  next hnil =>
    rw [hnil] at hmem
    cases hmem
  next =>
    have hentry := hentries.of_mapM i hmem
    unfold entry at hentry
    rw [hrole] at hentry
    exact hentry.of_bind.1

/-- A program that is given does not write a field of the name of a flow port. -/
theorem not_writesIn_of_program {d : Draft} {result : Program × Draft} (h : plan.program d = .ok result)
    (htypes : plan.typeNames = plan.registry.types.toList) (built : plan.src.library.Built)
    (hi : i ∈ plan.registry.actionOrder) (noted : Noted plan.src plan.registry (plan.node i).role) :
    ¬i.WritesIn plan.src := by
  rintro ⟨component, layout, port, hrole, hlayout, hfield, hport, hname⟩
  change (plan.node i).role = _ at hrole
  change port ∈ (plan.node i).valueInputs at hport
  change ((plan.node i).port port).name = _ at hname
  have hfieldWrite : (plan.fieldWrite? i layout ((plan.node i).port port)).Gives := by
    have hwrite := writeField_of_program h hi hrole
    rw [hrole] at noted
    obtain ⟨index, hindex⟩ := componentIndex?_of_mem htypes (noted (by rw [hlayout]; rfl))
    unfold writeField at hwrite
    rw [hlayout, hindex] at hwrite
    exact hwrite.of_bind.1.of_mapM port hport
  have hvalue : ∃ type, (plan.value i "in" type).Gives := by
    obtain ⟨field, hfield⟩ := Option.isSome_iff_exists.mp hfield
    obtain ⟨-, -, type, hkind⟩ := GraphNode.mem_valueInputs.mp hport
    unfold fieldWrite? at hfieldWrite
    rw [hkind, hname, hfield] at hfieldWrite
    obtain ⟨-, _, hrest⟩ := hfieldWrite.of_bind
    exact ⟨field.type, hrest.of_bind.1⟩
  obtain ⟨type, hvalue⟩ := hvalue
  obtain ⟨hfirst, hflow⟩ : (plan.node i).port? "in" = some 0 ∧ ((plan.node i).port 0).kind = .flow := by
    obtain ⟨spec, known, from_⟩ : (plan.node i).Formed plan.src.library :=
      built.formed.graphNode (by rw [show (i.graphNode plan.src.library).role = _ from hrole]; simp)
    obtain ⟨fields, rfl⟩ := NodeSpec.of_action (from_.role.symm.trans hrole)
    have hbare := GraphNode.bare_port (plan.node i) 0
    rw [from_.ports] at hbare
    exact ⟨from_.port?_eq "in", (Port.mk.inj hbare).2.2.1⟩
  unfold value at hvalue
  rw [hfirst] at hvalue
  obtain ⟨result, hsource⟩ := hvalue.of_bind.1.of_trailed
  have hkind : ((i.spot 0).portOf plan.src.library).kind = .flow := hflow
  exact Library.valueSource_flow hkind result hsource

end Plan

/-! ### Graphs without calls -/

/-- The entry graph calls no other graph. -/
def Library.Flat (library : Library) (entry : GraphId) : Prop :=
  ∀ via callee, ((library.graph entry).node via).role ≠ .call callee

namespace Library.Flat

variable {library : Library} {entry : GraphId}

theorem path_eq (flat : library.Flat entry) {path : CallPath} (valid : path.Valid library entry) :
    path = .start entry := by
  induction valid with
  | start => rfl
  | enter _ hcall ih =>
    subst ih
    exact absurd hcall (flat _ _)

theorem distinct (flat : library.Flat entry) : CallPath.Distinct library entry :=
  fun _ _ valid valid' _ => (flat.path_eq valid).trans (flat.path_eq valid').symm

/-- Nothing leaves the entry graph. -/
theorem leaveThrough_start {α : Type} (node : Nat) (name : String) :
    (Spot.leaveThrough library (.start entry) node name : Hop (Option α) × Trail).1 = .stop none :=
  rfl

/-- Without calls a wire is a link. -/
theorem not_passesFlow (flat : library.Flat entry) {spot : Spot} (within : spot.Within library entry) (next : Spot) :
    ¬spot.PassesFlow library next := by
  obtain ⟨path, node, port⟩ := spot
  obtain rfl := flat.path_eq within.path
  rintro ⟨seen, hhop⟩
  replace hhop := Except.ok.inj hhop
  unfold Spot.flowHop at hhop
  dsimp only at hhop
  split at hhop
  next => cases hhop
  next link others _ =>
    obtain ⟨honward, -⟩ := Prod.mk.inj hhop
    split at honward
    next callee hrole => exact flat _ _ hrole
    next => cases honward.symm.trans (leaveThrough_start _ _)
    all_goals cases honward

theorem not_passesValue (flat : library.Flat entry) {spot : Spot} (within : spot.Within library entry) (next : Spot) :
    ¬spot.PassesValue library next := by
  obtain ⟨path, node, port⟩ := spot
  obtain rfl := flat.path_eq within.path
  rintro ⟨seen, hhop⟩
  unfold Spot.valueHop at hhop
  dsimp only at hhop
  split at hhop
  next => cases hhop
  next =>
    split at hhop
    next => split at hhop <;> cases hhop
    next link others _ =>
      obtain ⟨honward, -⟩ := Prod.mk.inj (Except.ok.inj hhop)
      split at honward
      next => cases honward
      next callee hrole => exact flat _ _ hrole
      next => cases honward.symm.trans (leaveThrough_start _ _)
      all_goals cases honward

theorem acyclic (flat : library.Flat entry) : library.Acyclic entry := by
  intro spot within
  constructor
  · intro h
    obtain ⟨next, passes, -⟩ := Relation.TransGen.head'_iff.mp h
    exact flat.not_passesFlow within next passes
  · intro h
    obtain ⟨next, passes, -⟩ := Relation.TransGen.head'_iff.mp h
    exact flat.not_passesValue within next passes

/-- What is met without calls are nodes of the entry graph. -/
theorem mem_of_met {src : Sources} (flat : src.library.Flat src.entry) {i : Instance} (met : src.Met i) :
    i.path = .start src.entry ∧ i.node < (src.library.graph src.entry).nodes.size := by
  have hpath := flat.path_eq (valid_of_met met).1
  have hgraph : i.graph src.library = src.library.graph src.entry := by
    rw [Instance.graph, hpath]
    rfl
  exact ⟨hpath, hgraph ▸ lt_of_met met⟩

theorem encard_le {src : Sources} (flat : src.library.Flat src.entry) {s : Set Instance} (hs : ∀ i ∈ s, src.Met i) :
    s.encard ≤ (src.library.graph src.entry).nodes.size := by
  let nodes := (Finset.range (src.library.graph src.entry).nodes.size).image (Instance.mk (.start src.entry))
  have hsubset : s ⊆ nodes := by
    intro i hi
    obtain ⟨hpath, hnode⟩ := flat.mem_of_met (hs i hi)
    exact Finset.mem_coe.mpr (Finset.mem_image.mpr ⟨i.node, Finset.mem_range.mpr hnode, by rw [← hpath]⟩)
  have hcard : nodes.card ≤ (src.library.graph src.entry).nodes.size :=
    Finset.card_image_le.trans (Finset.card_range _).le
  calc s.encard ≤ (nodes : Set Instance).encard := Set.encard_le_encard hsubset
    _ = nodes.card := Set.encard_coe_eq_coe_finsetCard nodes
    _ ≤ (src.library.graph src.entry).nodes.size := by exact_mod_cast hcard

end Library.Flat

namespace Sources

variable {src : Sources}

/-- Compilation gives a result, unless a flow port is read as a value. -/
theorem compile_cases (built : src.library.Built) (acyclic : src.library.Acyclic src.entry)
    (hactions : src.metActions.encard ≤ 65534) (hoperators : src.metOperators.encard ≤ 65534) :
    (∃ c, src.compile = .ok c) ∨ src.MisreadsFlow ∧ ∃ port, src.compile = .error (.flowAsValue port) := by
  unfold compile
  rcases build_total built acyclic hactions hoperators with
    ⟨r, hbuild⟩ | ⟨name, i, port, hbuild, met, hport, meets⟩
  · have ready : (Plan.ofRegistry src r).Ready := ⟨built, acyclic, rfl, walked_of_build hbuild⟩
    rw [hbuild]
    rcases Plan.program_gives ready Draft.empty with ⟨⟨program, draft⟩, hprogram⟩ | ⟨⟨i, met, writes⟩, port, hprogram⟩
    · exact .inl ⟨_, Refusal.bind_eq_ok_iff.mpr ⟨r, rfl, Refusal.bind_eq_ok_iff.mpr ⟨_, hprogram, rfl⟩⟩⟩
    · refine .inr ⟨⟨i, met, .inr writes⟩, port, ?_⟩
      change ((Plan.ofRegistry src r).program Draft.empty >>= _) = _
      rw [hprogram]
      rfl
  · rw [hbuild]
    exact .inr ⟨⟨i, met, .inl ⟨port, hport, meets⟩⟩, name, rfl⟩

/-- A compilation that gives a result has read no flow port as a value. -/
theorem not_misreadsFlow_of_compile (built : src.library.Built) (distinct : CallPath.Distinct src.library src.entry)
    {c : Compilation} (h : src.compile = .ok c) : ¬src.MisreadsFlow := by
  obtain ⟨r, hbuild, h⟩ := Refusal.bind_eq_ok_iff.mp h
  obtain ⟨result, hprogram, -⟩ := Refusal.bind_eq_ok_iff.mp h
  have w := walked_of_build hbuild
  rintro ⟨i, met, ⟨port, hport, meets⟩ | writes⟩
  · exact w.not_meetsFlow (w.registered distinct met) hport meets
  · have hi : i ∈ r.actionOrder := by
      obtain ⟨component, _, _, hrole, -⟩ := writes
      exact w.mem_actionOrder (w.registered distinct met) hrole
    exact Plan.not_writesIn_of_program hprogram rfl built hi (w.metActions i hi).2 writes

/-- Compilation gives a result for everything that is built or read from a script, as long as wires do not run in
circles and the instances can be numbered, unless a flow port is read as a value. -/
theorem compile_total
    (written : src.library.Built ∨ ∃ text script, Script.parse text = .ok script ∧ src = script.sources)
    (acyclic : src.library.Acyclic src.entry) (hactions : src.metActions.encard ≤ 65534)
    (hoperators : src.metOperators.encard ≤ 65534) :
    (¬src.MisreadsFlow → ∃ c, src.compile = .ok c) ∧
      (CallPath.Distinct src.library src.entry → src.MisreadsFlow →
        ∃ port, src.compile = .error (.flowAsValue port)) := by
  have built : src.library.Built := by
    rcases written with built | ⟨text, script, hparse, rfl⟩
    · exact built
    · exact Script.built_of_parse hparse
  have hcases := compile_cases built acyclic hactions hoperators
  constructor
  · exact fun hclean => hcases.resolve_right fun ⟨misreads, _⟩ => hclean misreads
  · intro distinct misreads
    refine (hcases.resolve_left ?_).2
    rintro ⟨c, hc⟩
    exact not_misreadsFlow_of_compile built distinct hc misreads

/-- A root that writes one field of a component. -/
def mover (field : String) : Sources :=
  ⟨#[.assemble "mover" [.root, .writeField "body" [(field, .float)]] [((0, "child"), (1, "in"))] []],
    Catalog.empty.define "body" [(field, .float)], .empty, 0⟩

theorem mover_built (field : String) : (mover field).library.Built :=
  .push .empty (Graph.built_assemble (by simp [NodeSpec.Known]))

theorem mover_roles {field : String} (h : field = "in" ∨ field = "speed") :
    ((mover field).library.graph 0).nodes.toList.map (·.role) = [.action .root, .action (.writeField "body")] := by
  rcases h with rfl | rfl <;> cbv

theorem mover_flat {field : String} (h : field = "in" ∨ field = "speed") :
    (mover field).library.Flat (mover field).entry := by
  intro via callee hcall
  change (((mover field).library.graph 0).node via).role = _ at hcall
  rw [Graph.role_node, mover_roles h] at hcall
  rcases via with - | - | via <;> simp at hcall

theorem mover_few {field : String} (h : field = "in" ∨ field = "speed") {s : Set Instance}
    (hs : ∀ i ∈ s, (mover field).Met i) : s.encard ≤ 65534 := by
  refine ((mover_flat h).encard_le hs).trans ?_
  have hsize : ((mover field).library.graph 0).nodes.size = 2 := by
    rw [← Array.length_toList, ← List.length_map, mover_roles h]
    rfl
  rw [show ((mover field).library.graph (mover field).entry).nodes.size = 2 from hsize]
  norm_num

/-- The field of the name of the flow port is read from it. -/
theorem mover_misreadsFlow : (mover "in").MisreadsFlow := by
  have hroots : roots (mover "in") = [0] := by cbv
  have hrole : (Instance.graphNode (mover "in").library ⟨.start 0, 0⟩).role = .action .root := by cbv
  have hport : 0 ∈ (Instance.graphNode (mover "in").library ⟨.start 0, 0⟩).flowOutputs := by
    rw [show (Instance.graphNode (mover "in").library ⟨.start 0, 0⟩).flowOutputs = [0] by cbv]
    simp
  have hends : (Instance.spot ⟨.start 0, 0⟩ 0).EndsFlow (mover "in").library (some ⟨.start 0, 1⟩) :=
    ⟨_, .empty, .refl, by cbv⟩
  have hvalues : (Instance.graphNode (mover "in").library ⟨.start 0, 1⟩).valueInputs = [1] := by cbv
  refine ⟨⟨.start 0, 1⟩, .action (.root hroots) hrole hport hends, .inr ?_⟩
  exact ⟨"body", .ofFields "body" [("in", .float)], 1, by cbv, by cbv, by decide, by rw [hvalues]; simp, by cbv⟩

/-- A field of another name is not. -/
theorem mover_not_misreadsFlow : ¬(mover "speed").MisreadsFlow := by
  have flat := mover_flat (.inr rfl)
  rintro ⟨i, met, ⟨port, hport, last, hpath, hflow⟩ | ⟨component, layout, port, hrole, -, -, hport, hname⟩⟩
  · have within := within_of_valueInputs (valid_of_met met).1 hport
    obtain ⟨-, -, type, hvalue⟩ := GraphNode.mem_valueInputs.mp hport
    rcases hpath.cases_head with rfl | ⟨next, passes, -⟩
    · cases hflow.symm.trans hvalue
    · exact flat.not_passesValue within next passes
  · obtain ⟨path, node⟩ := i
    obtain ⟨rfl, -⟩ := flat.mem_of_met met
    change (((mover "speed").library.graph 0).node node).role = _ at hrole
    rw [Graph.role_node, mover_roles (.inr rfl)] at hrole
    obtain rfl : node = 1 := by rcases node with - | - | node <;> simp at hrole ⊢
    have hvalues : (Instance.graphNode (mover "speed").library ⟨.start 0, 1⟩).valueInputs = [1] := by cbv
    have hspeed : ((Instance.graphNode (mover "speed").library ⟨.start 0, 1⟩).port 1).name = "speed" := by cbv
    change port ∈ (Instance.graphNode (mover "speed").library ⟨.start 0, 1⟩).valueInputs at hport
    obtain rfl : port = 1 := by
      rw [hvalues] at hport
      simpa using hport
    exact absurd (hspeed.symm.trans hname) (by decide)

/-- The same graph is refused or compiled, as its field is named. -/
theorem compile_total_mover : (∃ port, (mover "in").compile = .error (.flowAsValue port)) ∧
    ∃ c, (mover "speed").compile = .ok c := by
  have hin := mover_flat (.inl rfl)
  have hspeed := mover_flat (.inr rfl)
  constructor
  · exact (compile_total (.inl (mover_built _)) hin.acyclic (mover_few (.inl rfl) fun _ h => h.1)
      (mover_few (.inl rfl) fun _ h => h.1)).2 hin.distinct mover_misreadsFlow
  · exact (compile_total (.inl (mover_built _)) hspeed.acyclic (mover_few (.inr rfl) fun _ h => h.1)
      (mover_few (.inr rfl) fun _ h => h.1)).1 mover_not_misreadsFlow

end Sources

end BehaviorTree
