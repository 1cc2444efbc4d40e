import BehaviorTree.Proofs.Compile.Errors
import BehaviorTree.Proofs.Compile.Walk
import BehaviorTree.Proofs.Script.Built

/-! What is left to be said about names when a script is compiled. The parser looks up every name of a node on the line
of the node, and compilation looks it up once more for every instance that is met. The second lookup finds what the
first one found, so that two errors remain: a component of which no field is written need not be there, and arithmetic
is not checked before it is compiled. -/

namespace BehaviorTree

open Registry

/-- The error is about what a name stands for, and not about how nodes are wired. -/
def CompileError.OfName : CompileError → Prop
  | unknownComponent _ _ | unknownField _ _ _ | unknownVariable _ _ | typeMismatch _ _ _ => True
  | _ => False

theorem CompileError.OfWire.not_ofName {e : CompileError} (h : e.OfWire) : ¬e.OfName := by
  cases e <;> first | exact id | cases h

namespace Sources

variable {src : Sources}

/-- Everything that a node names is there. -/
def Declared (src : Sources) : Prop :=
  ∀ graph ∈ src.library, graph.Consists (NodeSpec.Declared src.catalog src.blackboard)

/-- What can be wrong with sources that declare what they name. -/
inductive Remains (src : Sources) : CompileError → Prop
  | wiring {e : CompileError} (h : ¬e.OfName) : Remains src e
  | component {i : Instance} (met : src.Met i) {component : String}
    (built : (i.graphNode src.library).BuiltFrom (.writeField component []))
    (missing : src.catalog.get? component = none) :
    Remains src (.unknownComponent ((i.graph src.library).location i.node) component)
  | arith {i : Instance} (met : src.Met i) {op : ArithOp}
    (built : (i.graphNode src.library).BuiltFrom (.arith op .bool)) :
    Remains src (.typeMismatch ((i.graph src.library).location i.node) .int .bool)

theorem Remains.of_wire (e : CompileError) (h : e.OfWire) : src.Remains e :=
  .wiring h.not_ofName

/-- A met instance is built from a spec whose names are there. -/
theorem Declared.spec (declared : src.Declared) {i : Instance} (met : src.Met i) :
    ∃ spec : NodeSpec, spec.Declared src.catalog src.blackboard ∧ (i.graphNode src.library).BuiltFrom spec := by
  refine Library.exists_spec declared ?_
  obtain ⟨a, ha⟩ | ⟨op, hop⟩ := (valid_of_met met).2
  · simp [ha]
  · simp [hop]

end Sources

/-! ### Registration -/

namespace Registry

variable {src : Sources} {bound : Nat} {r r' : Registry}

/-- No error of registration is about names. -/
def Nameless (r : Registry) : Prop :=
  ∀ e ∈ r.errors, ¬e.OfName

theorem Nameless.adds {kind : CompileError → Prop} (nameless : r.Nameless) (h : Adds kind r r')
    (hkind : ∀ e, kind e → ¬e.OfName) : r'.Nameless :=
  fun e he => (h.2 e he).elim (nameless e) (hkind e)

theorem StepError.not_ofName {task : Task} {e : CompileError} (h : StepError src r task e) : ¬e.OfName := by
  cases h with
  | wire h => exact h.not_ofName
  | conflict | cycle => exact id

/-- Registration looks up no names. -/
theorem nameless_of_build (h : build src = .ok r) : r.Nameless := by
  have hstart : (start src.entry).Nameless := by simp [Nameless, start]
  unfold build at h
  dsimp only at h
  split at h
  next =>
    obtain rfl := Except.ok.inj h
    exact hstart.adds (.addError rfl) fun _ h => h ▸ id
  next root others _ =>
    have hduplicate (site : Location) : ¬(CompileError.duplicateRoot site).OfName := id
    refine walk_induction (fun _ r => r.Nameless) (fun _ _ _ _ _ nameless h => ?_) h ?_
    · exact nameless.adds (step_adds h) fun _ => StepError.not_ofName
    · exact hstart.adds (addErrors_adds (fun _ => hduplicate _) others _) fun _ h => h

end Registry

/-! ### Emission -/

namespace Plan

variable {plan : Plan} {i : Instance}

/-- A plan of what is met in sources that declare what they name. -/
structure Vetted (plan : Plan) : Prop where
  declared : plan.src.Declared
  typeNames : plan.typeNames = plan.registry.types.toList
  walked : Walked plan.src plan.bound [] plan.registry

/-! What is declared is found, and nothing is reported. -/

theorem expectType_self (site : Location) (type : ValueType) : expectType site type type = pure () := by
  rw [expectType, if_pos rfl]

theorem slot?_of_declared {site : Location} {var : String} {slot : VarSlot}
    (h : plan.src.blackboard.get? var = some slot) : plan.slot? site var = pure (some slot) := by
  rw [slot?, h]

theorem fieldOffset_of_declared {site : Location} {component field : String} {type : ValueType}
    (h : (plan.src.catalog.field? component field).map (·.type) = some type) :
    ∃ offset, plan.fieldOffset site component field type = pure offset := by
  obtain ⟨found, hfound, rfl⟩ := Option.map_eq_some_iff.mp h
  obtain ⟨layout, hlayout, hfound⟩ := Option.bind_eq_some_iff.mp hfound
  refine ⟨found.offset, ?_⟩
  rw [fieldOffset, hlayout]
  dsimp only
  rw [hfound]
  dsimp only
  rw [expectType_self]
  rfl

open Emit (Reports)
open Sources.Remains (of_wire)

/-! ### Instructions -/

theorem fieldWrite?_reports {component : String} {fields : List (String × ValueType)}
    (built : (plan.node i).BuiltFrom (.writeField component fields))
    (declared : NodeSpec.Declared plan.src.catalog plan.src.blackboard (.writeField component fields))
    {layout : ComponentLayout} (hlayout : plan.src.catalog.get? component = some layout) {port : Nat}
    (hport : port ∈ (plan.node i).valueInputs) :
    (plan.fieldWrite? i layout ((plan.node i).port port)).Reports plan.src.Remains := by
  obtain ⟨hlt, -, type, hkind⟩ := GraphNode.mem_valueInputs.mp hport
  obtain ⟨other, hmem, hname, -, hother⟩ := built.exists_port hlt
  obtain rfl | hmem := List.mem_cons.mp hmem
  · cases hother.trans hkind
  obtain ⟨⟨name, _⟩, hfield, rfl⟩ := List.mem_map.mp hmem
  obtain rfl : _ = type := PortKind.value.inj (hother.trans hkind)
  obtain ⟨found, hfound, htype⟩ := Option.map_eq_some_iff.mp (declared _ hfield)
  rw [Catalog.field?, hlayout, Option.bind_some] at hfound
  unfold fieldWrite?
  rw [hkind, ← hname]
  dsimp only [Port.valueIn]
  rw [hfound]
  dsimp only
  rw [htype, expectType_self, pure_bind]
  exact (value_reports of_wire i _ _).bind fun _ => .pure _

theorem writeField_reports (vetted : plan.Vetted) (hi : i ∈ plan.registry.actionOrder) {component : String}
    {fields : List (String × ValueType)} (built : (plan.node i).BuiltFrom (.writeField component fields))
    (declared : NodeSpec.Declared plan.src.catalog plan.src.blackboard (.writeField component fields)) :
    (plan.writeField i component).Reports plan.src.Remains := by
  obtain ⟨⟨met, -⟩, noted⟩ := vetted.walked.metActions i hi
  rw [show (i.graphNode plan.src.library).role = _ from built.role] at noted
  unfold writeField
  cases hlayout : plan.src.catalog.get? component with
  | some layout =>
    -- the component was noted when the instance was registered
    obtain ⟨index, hindex⟩ := componentIndex?_of_mem vetted.typeNames (noted (by rw [hlayout]; rfl))
    rw [hindex]
    exact (Reports.mapM fun port hport => fieldWrite?_reports built declared hlayout hport).bind fun _ => .pure _
  | none =>
    -- a field that is written has been found, and its component with it
    obtain rfl : fields = [] := by
      refine List.eq_nil_iff_forall_not_mem.mpr fun field hfield => ?_
      have := declared field hfield
      rw [Catalog.field?, hlayout] at this
      cases this
    exact (Reports.report (.component met built hlayout)).bind fun _ => .pure _

theorem action_reports (vetted : plan.Vetted) (hi : i ∈ plan.registry.actionOrder) {a : Action}
    (hrole : (plan.node i).role = .action a) : (plan.action i a).Reports plan.src.Remains := by
  obtain ⟨spec, declared, built⟩ := vetted.declared.spec (vetted.walked.metActions i hi).1.1
  have hspec := NodeSpec.of_action (built.role.symm.trans hrole)
  cases a with dsimp only at hspec
  | root | «catch» | threadRoot => exact (child_reports of_wire i _).bind fun _ => .pure _
  | sequence => exact sequence_reports of_wire i
  | selector => exact selector_reports of_wire i
  | writeField component =>
    obtain ⟨fields, rfl⟩ := hspec
    exact writeField_reports vetted hi built declared
  | waitFor | waitUntil => exact (value_reports of_wire i _ _).bind fun _ => .pure _
  | fail => exact .pure _
  | optional => exact (value_reports of_wire i _ _).bind fun _ => (child_reports of_wire i _).bind fun _ => .pure _
  | writeVar var =>
    obtain ⟨type, rfl⟩ := hspec
    obtain ⟨slot, hslot, rfl⟩ := Option.map_eq_some_iff.mp declared
    have hvalue : (plan.node i).valueType? "value" = some slot.type :=
      valueType?_eq built rfl (by simp [NodeSpec.ports, Port.flowIn, Port.valueIn])
    rw [action]
    rw [slot?_of_declared hslot, pure_bind]
    dsimp only
    rw [hvalue, Option.getD_some, expectType_self, pure_bind]
    exact (value_reports of_wire i _ _).bind fun _ => .pure _
  | query id var =>
    subst hspec
    obtain ⟨slot, hslot⟩ := Option.isSome_iff_exists.mp declared
    rw [action, slot?_of_declared hslot, pure_bind]
    exact .pure _
  | parallel => exact (child_reports of_wire i _).bind fun _ => (thread_reports of_wire i).bind fun _ => .pure _

theorem operator_reports (vetted : plan.Vetted) (hi : i ∈ plan.registry.operatorOrder) {op : Operator}
    (hrole : (plan.node i).role = .operator op) : (plan.operator i op).Reports plan.src.Remains := by
  have met := (vetted.walked.metOperators i hi).1
  obtain ⟨spec, declared, built⟩ := vetted.declared.spec met
  have hspec := NodeSpec.of_operator (built.role.symm.trans hrole)
  have hout {type : ValueType} (hports : spec.ports = [.valueOut type]) :
      (plan.node i).valueType? "out" = some type :=
    valueType?_eq built (by rw [hports]; rfl) (by simp [hports, Port.valueOut])
  cases op with dsimp only at hspec
  | readField component field =>
    obtain ⟨type, rfl⟩ := hspec
    obtain ⟨offset, hoffset⟩ := plan.fieldOffset_of_declared declared
    rw [operator, hout rfl, Option.getD_some, hoffset]
    exact .pure _
  | lookupField lookup component field =>
    obtain ⟨type, rfl⟩ := hspec
    obtain ⟨offset, hoffset⟩ := plan.fieldOffset_of_declared declared
    rw [operator, hout rfl, Option.getD_some, hoffset]
    exact .pure _
  | readVar var =>
    obtain ⟨type, rfl⟩ := hspec
    obtain ⟨slot, hslot, rfl⟩ := Option.map_eq_some_iff.mp declared
    rw [operator, hout rfl, Option.getD_some]
    rw [slot?_of_declared hslot, pure_bind]
    dsimp only
    rw [expectType_self, pure_bind]
    exact .pure _
  | not => exact (value_reports of_wire i _ _).bind fun _ => .pure _
  | and | or => exact operands_reports of_wire i _ _
  | compare op type => exact operands_reports of_wire i _ _
  | arith op type =>
    subst hspec
    rw [operator]
    dsimp only
    split_ifs with hbool
    · subst hbool
      exact (Reports.report (.arith met built)).bind fun _ => operands_reports of_wire i _ _
    · exact operands_reports of_wire i _ _

theorem entry_reports (vetted : plan.Vetted) (hi : i ∈ plan.registry.actionOrder) :
    (plan.entry i).Reports plan.src.Remains := by
  unfold entry
  split
  next a hrole => exact (action_reports vetted hi hrole).bind fun _ => .pure _
  next => exact (Reports.pure _).bind fun _ => .pure _

theorem operation_reports (vetted : plan.Vetted) (hi : i ∈ plan.registry.operatorOrder) :
    (plan.operation i).Reports plan.src.Remains := by
  unfold operation
  split
  next op hrole => exact operator_reports vetted hi hrole
  next => exact .pure _

end Plan

/-- Whatever is wrong with sources that declare what they name, it is one of what remains. -/
theorem Sources.Declared.remains_of_compile {src : Sources} (declared : src.Declared) {c : Compilation} (h : src.compile = .ok c)
    {e : CompileError} (he : e ∈ c.errors) : src.Remains e := by
  obtain ⟨registry, hbuild, h⟩ := Refusal.bind_eq_ok_iff.mp h
  obtain ⟨⟨program, draft⟩, hprogram, h⟩ := Refusal.bind_eq_ok_iff.mp h
  obtain rfl := Except.ok.inj h
  have vetted : (Plan.ofRegistry src registry).Vetted := ⟨declared, rfl, walked_of_build hbuild⟩
  have hemission := Plan.program_reports (fun _ => Plan.entry_reports vetted) (fun _ => Plan.operation_reports vetted)
    _ _ _ hprogram (by simp [Draft.empty])
  obtain he | he := Array.mem_append.mp (Array.mem_toList_iff.mp (List.mem_eraseDups.mp he))
  · exact .wiring (nameless_of_build hbuild e he)
  · exact hemission e he

/-! ### Scripts -/

namespace Script

/-- Compilation finds every name that the parser has found. No field and no variable of a script is unknown. A component
is only unknown to a node that writes no field of it, and only arithmetic over truth values has the wrong type. -/
theorem name_errors_of_compile {source : String} {script : Script} (hparse : parse source = .ok script)
    {c : Compilation} (hcompile : script.compile = .ok c) :
    (∀ site component field, .unknownField site component field ∉ c.errors) ∧
      (∀ site var, .unknownVariable site var ∉ c.errors) ∧
      (∀ site component, .unknownComponent site component ∈ c.errors → ∃ i, script.sources.Met i ∧
        (i.graph script.graphs).location i.node = site ∧
        (i.graphNode script.graphs).BuiltFrom (.writeField component []) ∧ script.catalog.get? component = none) ∧
      ∀ site expected found, .typeMismatch site expected found ∈ c.errors → expected = .int ∧ found = .bool ∧
        ∃ i op, script.sources.Met i ∧ (i.graph script.graphs).location i.node = site ∧
          (i.graphNode script.graphs).BuiltFrom (.arith op .bool) := by
  have declared : script.sources.Declared := declared_of_parse hparse
  have hremains (e : CompileError) (he : e ∈ c.errors) : script.sources.Remains e :=
    declared.remains_of_compile hcompile he
  refine ⟨fun site component field he => ?_, fun site var he => ?_, fun site component he => ?_,
    fun site expected found he => ?_⟩
  · cases hremains _ he with
    | wiring h => exact h trivial
  · cases hremains _ he with
    | wiring h => exact h trivial
  · cases hremains _ he with
    | wiring h => exact absurd trivial h
    | @component i met _ built missing => exact ⟨i, met, rfl, built, missing⟩
  · cases hremains _ he with
    | wiring h => exact absurd trivial h
    | @arith i met op built => exact ⟨rfl, rfl, i, op, met, rfl, built⟩

/-- A guard that adds truth values, before a component that is declared nowhere. -/
def haunted : String :=
  "graph g\nnode r root\nnode o optional\nnode w write-field ghost\nnode x add bool\nset x.a true\nset x.b true\n" ++
    "link r.child o\nlink o.child w\nlink x.out o.guard\nend"

theorem lines_haunted : lines haunted = ["graph g", "node r root", "node o optional", "node w write-field ghost",
    "node x add bool", "set x.a true", "set x.b true", "link r.child o", "link o.child w", "link x.out o.guard",
    "end"] := by
  have hchars : haunted.toList = _ :=
    String.toList_append.trans (congrArg₂ (· ++ ·) String.toList_ofList String.toList_ofList)
  rw [lines_eq, hchars]
  decide +kernel

theorem errors_haunted : (parse haunted).map (fun script => script.compile.map (·.errors)) =
    .ok (.ok [.unknownComponent ⟨"g", "w"⟩ "ghost", .typeMismatch ⟨"g", "x"⟩ .int .bool]) := by
  rw [parse, lines_haunted]
  cbv

/-- Both of the errors that remain, and the nodes that they are about. -/
theorem name_errors_of_compile_haunted : ∃ script c, parse haunted = .ok script ∧ script.compile = .ok c ∧
    c.errors = [.unknownComponent ⟨"g", "w"⟩ "ghost", .typeMismatch ⟨"g", "x"⟩ .int .bool] ∧
    (∃ i, script.sources.Met i ∧ (i.graph script.graphs).location i.node = ⟨"g", "w"⟩ ∧
      (i.graphNode script.graphs).BuiltFrom (.writeField "ghost" []) ∧ script.catalog.get? "ghost" = none) ∧
    ∃ i op, script.sources.Met i ∧ (i.graph script.graphs).location i.node = ⟨"g", "x"⟩ ∧
      (i.graphNode script.graphs).BuiltFrom (.arith op .bool) := by
  obtain ⟨script, hparse, hscript⟩ := Refusal.map_eq_ok_iff.mp errors_haunted
  obtain ⟨c, hcompile, herrors⟩ := Refusal.map_eq_ok_iff.mp hscript
  obtain ⟨-, -, components, mismatches⟩ := name_errors_of_compile hparse hcompile
  refine ⟨script, c, hparse, hcompile, herrors, components _ _ (by simp [herrors]), ?_⟩
  exact (mismatches _ _ _ (by rw [herrors]; exact List.mem_cons_of_mem _ List.mem_cons_self)).2.2

end Script

end BehaviorTree
