import BehaviorTree.Proofs.Compile.Emit

/-! Plans that agree. Emission asks little of an instance: its ports and its role, its place, where its wires end, and
the numbers of what is there. Two plans that give the same answers for one instance after the other emit the same
program and report the same, whatever graphs are behind them. -/

namespace BehaviorTree

open Refusal

/-! ### Nodes -/

/-- The roles differ at most in which graph is called. -/
inductive Role.Resembles : Role → Role → Prop
  | same (role : Role) : Resembles role role
  | call (callee callee' : GraphId) : Resembles (.call callee) (.call callee')

/-- The nodes have the same ports, and differ at most in which graph they call. -/
structure GraphNode.Resembles (node node' : GraphNode) : Prop where
  role : node.role.Resembles node'.role
  ports : node.ports = node'.ports

namespace GraphNode.Resembles

variable {node node' : GraphNode}

theorem of_eq (h : node = node') : node.Resembles node' :=
  h ▸ ⟨.same _, rfl⟩

variable (h : node.Resembles node')

include h

theorem port (index : Nat) : node.port index = node'.port index := by
  rw [GraphNode.port, GraphNode.port, h.ports]

theorem port? (name : String) : node.port? name = node'.port? name := by
  rw [GraphNode.port?, GraphNode.port?, h.ports]

theorem portsWhere (direction : Direction) (flow : Bool) :
    node.portsWhere direction flow = node'.portsWhere direction flow := by
  simp only [GraphNode.portsWhere, h.ports, h.port]

theorem flowOutputs : node.flowOutputs = node'.flowOutputs :=
  h.portsWhere _ _

theorem valueInputs : node.valueInputs = node'.valueInputs :=
  h.portsWhere _ _

theorem valueType? (name : String) : node.valueType? name = node'.valueType? name := by
  simp only [GraphNode.valueType?, h.port?, h.port]

end GraphNode.Resembles

/-! ### Emissions -/

namespace Emit

variable {α β γ : Type} {rel : α → β → Prop} {m : Emit α} {m' : Emit β}

/-- Both emissions are refused for the same reason, or they leave the same draft behind and return related results. -/
def Agree (rel : α → β → Prop) (m : Emit α) (m' : Emit β) : Prop :=
  ∀ d, Refusal.Agree (fun out out' => rel out.1 out'.1 ∧ out.2 = out'.2) (m d) (m' d)

/-- What comes next only has to be the same after related results. -/
theorem Agree.bind_eq (h : Agree rel m m') {next : α → Emit γ} {next' : β → Emit γ}
    (hnext : ∀ a b, rel a b → next a = next' b) : m >>= next = m' >>= next' := by
  funext d
  change (m d >>= fun out => next out.1 out.2) = (m' d >>= fun out => next' out.1 out.2)
  have hd := h d
  generalize m d = out at hd ⊢
  generalize m' d = out' at hd ⊢
  cases hd with
  | error e => rfl
  | @ok out out' h =>
    obtain ⟨a, d⟩ := out
    obtain ⟨b, d'⟩ := out'
    obtain ⟨hrel, rfl : d = d'⟩ := h
    exact congrFun (hnext a b hrel) d

/-- One emission under two names for its result. -/
theorem Returns.agree {m : Emit γ} {f : γ → α} {g : γ → β} (h : m.Returns fun c => rel (f c) (g c)) :
    Agree rel (f <$> m) (g <$> m) := by
  intro d
  change Refusal.Agree _ (m d >>= fun out => .ok (f out.1, out.2)) (m d >>= fun out => .ok (g out.1, out.2))
  cases hrun : m d with
  | error e => exact .error e
  | ok out => exact .ok ⟨h d out.1 out.2 hrun, rfl⟩

/-- One emission whose results are related to themselves. -/
theorem Returns.agree_self {m : Emit γ} {rel : γ → γ → Prop} (h : m.Returns fun c => rel c c) : Agree rel m m := by
  simpa using Returns.agree (f := id) (g := id) h

theorem mapM_eq {items : List α} {items' : List β} {f : α → Emit γ} {g : β → Emit γ}
    (h : List.Forall₂ (fun a b => f a = g b) items items') : items.mapM f = items'.mapM g := by
  induction h with
  | nil => rw [List.mapM_nil, List.mapM_nil]
  | cons hhead htail ih => rw [List.mapM_cons, List.mapM_cons, hhead, ih]

end Emit

/-! ### Plans -/

namespace Plan

/-- What a flow port runs is alike under both plans, and has the same number. -/
structure SameTarget (plan plan' : Plan) (j j' : Instance) : Prop where
  node : (plan.node j).Resembles (plan'.node j')
  location : plan.location j = plan'.location j'
  nodeId : plan.nodeId j = plan'.nodeId j'

/-- What feeds a value port is the same constant under both plans, or an operator of the same number. -/
inductive SameSource (plan plan' : Plan) : ValueSource → ValueSource → Prop
  | operator {j j' : Instance} (h : plan.registry.operators[j.key]? = plan'.registry.operators[j'.key]?) :
    SameSource plan plan' (.operator j) (.operator j')
  | constant (value : Constant) : SameSource plan plan' (.constant value) (.constant value)

/-- Under both plans the instance is the same in the same place, and what feeds it is the same. -/
structure SameOperands (plan plan' : Plan) (i i' : Instance) : Prop where
  node : (plan.node i).Resembles (plan'.node i')
  location : plan.location i = plan'.location i'
  valueSource : ∀ port, Emit.Agree (Option.Rel (plan.SameSource plan'))
    (Emit.trailed (plan.src.library.valueSource plan.bound ⟨i.path, i.node, port⟩))
    (Emit.trailed (plan'.src.library.valueSource plan'.bound ⟨i'.path, i'.node, port⟩))

/-- What the instance runs is the same as well, and it is identified in the same way. -/
structure SameAction (plan plan' : Plan) (i i' : Instance) : Prop extends plan.SameOperands plan' i i' where
  debugId : i.debugId plan.src.library = i'.debugId plan'.src.library
  instanceIds : i.path.instanceIds plan.src.library = i'.path.instanceIds plan'.src.library
  flowTarget : ∀ port, Emit.Agree (Option.Rel (plan.SameTarget plan'))
    (plan.flowTarget i port) (plan'.flowTarget i' port)

/-- The plans give the same answers for one instance after the other. -/
structure Agrees (plan plan' : Plan) : Prop where
  catalog : plan.src.catalog = plan'.src.catalog
  blackboard : plan.src.blackboard = plan'.src.blackboard
  typeNames : plan.typeNames = plan'.typeNames
  lookups : plan.registry.lookups = plan'.registry.lookups
  actions : List.Forall₂ (plan.SameAction plan') plan.registry.actionOrder.toList plan'.registry.actionOrder.toList
  operators : List.Forall₂ (plan.SameOperands plan') plan.registry.operatorOrder.toList
    plan'.registry.operatorOrder.toList

variable {plan plan' : Plan} {i i' : Instance}

namespace SameOperands

variable (same : plan.SameOperands plan' i i')

include same

theorem valueAt (port : Nat) (type : ValueType) : plan.valueAt i port type = plan'.valueAt i' port type := by
  refine (same.valueSource port).bind_eq fun source source' hsource => ?_
  cases hsource with
  | none => rfl
  | some same =>
    cases same with
    | operator h => simp only [h]
    | constant value => rfl

theorem value (name : String) (type : ValueType) : plan.value i name type = plan'.value i' name type := by
  simp only [Plan.value, same.node.port?, same.valueAt]

theorem withChildren {emit emit' : List Nat → Emit Node} (h : ∀ ports, emit ports = emit' ports) :
    plan.withChildren i emit = plan'.withChildren i' emit' := by
  simp only [Plan.withChildren, same.node.flowOutputs, same.location, h]

theorem fieldWrite? (layout : ComponentLayout) (port : Port) :
    plan.fieldWrite? i layout port = plan'.fieldWrite? i' layout port := by
  simp only [Plan.fieldWrite?, same.location, same.value]

end SameOperands

namespace SameAction

variable (same : plan.SameAction plan' i i')

include same

theorem childAt (port : Nat) : plan.childAt i port = plan'.childAt i' port := by
  refine (same.flowTarget port).bind_eq fun target target' htarget => ?_
  cases htarget with
  | none => rfl
  | @some j j' child =>
    have hrole := child.node.role
    dsimp only
    rw [child.location, child.nodeId]
    generalize (plan.node j).role = role at hrole ⊢
    generalize (plan'.node j').role = role' at hrole ⊢
    cases hrole with
    | same => rfl
    | call => rfl

theorem child (name : String) : plan.child i name = plan'.child i' name := by
  simp only [Plan.child, same.node.port?, same.childAt]

theorem thread : plan.thread i = plan'.thread i' := by
  have hinvalid : Plan.thread.invalid plan i = Plan.thread.invalid plan' i' := by
    rw [Plan.thread.invalid, Plan.thread.invalid, same.location]
  simp only [Plan.thread, same.node.port?, hinvalid]
  cases (plan'.node i').port? "parallel" with
  | none => rfl
  | some port =>
    refine (same.flowTarget port).bind_eq fun target target' htarget => ?_
    cases htarget with
    | none => rfl
    | @some j j' child =>
      have hrole := child.node.role
      dsimp only
      rw [child.nodeId]
      generalize (plan.node j).role = role at hrole ⊢
      generalize (plan'.node j').role = role' at hrole ⊢
      cases hrole with
      | same => rfl
      | call => rfl

end SameAction

namespace Agrees

variable (agrees : plan.Agrees plan')

include agrees

theorem slot? (site : Location) (var : String) : plan.slot? site var = plan'.slot? site var := by
  rw [Plan.slot?, Plan.slot?, agrees.blackboard]

theorem componentIndex? (name : String) : plan.componentIndex? name = plan'.componentIndex? name := by
  rw [Plan.componentIndex?, Plan.componentIndex?, agrees.typeNames]

theorem fieldOffset (site : Location) (component field : String) (type : ValueType) :
    plan.fieldOffset site component field type = plan'.fieldOffset site component field type := by
  rw [Plan.fieldOffset, Plan.fieldOffset, agrees.catalog]

theorem operator (same : plan.SameOperands plan' i i') (op : Operator) :
    plan.operator i op = plan'.operator i' op := by
  cases op <;>
    simp only [Plan.operator, same.location, same.node.valueType?, agrees.slot?, agrees.fieldOffset,
      agrees.componentIndex?, same.value]

theorem operation (same : plan.SameOperands plan' i i') : plan.operation i = plan'.operation i' := by
  have hrole := same.node.role
  simp only [Plan.operation]
  generalize (plan.node i).role = role at hrole ⊢
  generalize (plan'.node i').role = role' at hrole ⊢
  cases hrole with
  | call => rfl
  | same =>
    cases role with
    | operator op => exact agrees.operator same op
    | _ => rfl

theorem writeField (same : plan.SameOperands plan' i i') (component : String) :
    plan.writeField i component = plan'.writeField i' component := by
  simp only [Plan.writeField, agrees.catalog, agrees.componentIndex?, same.node.valueInputs, same.node.port,
    same.location, same.fieldWrite?]

theorem action (same : plan.SameAction plan' i i') (a : Action) : plan.action i a = plan'.action i' a := by
  cases a with
  | writeField component => exact agrees.writeField same.toSameOperands component
  | sequence | selector =>
    rw [Plan.action, Plan.action]
    refine same.withChildren fun ports => ?_
    simp only [same.node.valueInputs, same.valueAt, funext same.childAt]
  | root | «catch» | threadRoot => simp only [Plan.action, same.child]
  | waitFor | waitUntil => simp only [Plan.action, same.value]
  | optional => simp only [Plan.action, same.value, same.child]
  | parallel => simp only [Plan.action, same.child, same.thread]
  | writeVar var =>
    simp only [Plan.action, same.location, same.node.valueType?, agrees.slot?, same.value]
  | query id var => simp only [Plan.action, same.location, agrees.slot?]
  | fail => rfl

theorem entry (same : plan.SameAction plan' i i') : plan.entry i = plan'.entry i' := by
  have hrole := same.node.role
  simp only [Plan.entry, same.debugId, same.instanceIds]
  generalize (plan.node i).role = role at hrole ⊢
  generalize (plan'.node i').role = role' at hrole ⊢
  cases hrole with
  | call => rfl
  | same =>
    cases role with
    | action a => simp only [agrees.action same]
    | _ => rfl

theorem componentType? : plan.src.componentType? = plan'.src.componentType? := by
  funext name
  rw [Sources.componentType?, Sources.componentType?, agrees.catalog]

theorem typeLookups : plan.lookups = plan'.lookups := by
  rw [Plan.lookups, Plan.lookups, agrees.lookups, agrees.componentType?]

theorem entries : plan.entries = plan'.entries := by
  have hactions := agrees.actions
  have hall := hactions.imp fun _ _ => agrees.entry
  rw [Plan.entries, Plan.entries]
  generalize plan.registry.actionOrder.toList = items at hactions hall ⊢
  generalize plan'.registry.actionOrder.toList = items' at hactions hall ⊢
  cases hactions with
  | nil => rfl
  | cons => exact Emit.mapM_eq hall

theorem operations : plan.registry.operatorOrder.toList.mapM plan.operation =
    plan'.registry.operatorOrder.toList.mapM plan'.operation :=
  Emit.mapM_eq (agrees.operators.imp fun _ _ => agrees.operation)

/-- Plans that agree emit the same program. -/
theorem program : plan.program = plan'.program := by
  simp only [Plan.program, agrees.entries, agrees.operations, agrees.typeLookups, agrees.typeNames, agrees.blackboard,
    agrees.componentType?]

end Agrees

end Plan

end BehaviorTree
