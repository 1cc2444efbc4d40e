import BehaviorTree.Proofs.Compile.Instancing
import BehaviorTree.Proofs.Machine.Evaluation

/-! What the value ports of a graph mean in a world, said without a program's operations: a constant, what an operator
reads, or what it makes of the values of its own ports. Compilation without errors keeps this meaning. -/

namespace BehaviorTree

def Constant.scalar (value : Constant) : Scalar :=
  ⟨value.bytes, by rw [length_bytes]; cases value.type <;> decide⟩

/-- What an operator makes of the values of its two operands. -/
def Operator.combine? (a b : Scalar) : Operator → Option Scalar
  | .and => some (.ofBool (a.toBool && b.toBool))
  | .or => some (.ofBool (a.toBool || b.toBool))
  | .compare op type => some (.ofBool (op.holds (type.order a b)))
  | .arith op type => (op.apply type a b).toOption
  | _ => none

/-- What an operator without operands reads: a field of a component of the program, a field of a component behind a
lookup, or a variable of the blackboard. -/
inductive Reads {σ : Type} (src : Sources) (p : Program) (world : World σ) : Operator → Scalar → Prop
  | field {component field : String} {layout : ComponentLayout} {found : Field}
    (hlayout : src.catalog.get? component = some layout) (hfound : layout.field? field = some found) {index : Nat}
    {type : ComponentType} (htype : p.types[index]? = some type) (hname : type.name = component) {store : Storage}
    (hstore : world.components[index]? = some store) {v : Scalar}
    (hbytes : store.data.slice found.offset.toNat found.type.size = .ok v.bytes) :
    Reads src p world (.readField component field) v
  | lookup {lookup : UInt16} {component field : String} {layout : ComponentLayout} {found : Field}
    (hlayout : src.catalog.get? component = some layout) (hfound : layout.field? field = some found)
    {type : ComponentType} (htype : p.lookups[lookup.toNat]? = some (some type)) (hname : type.name = component)
    {store : Storage} (hstore : world.lookups[lookup.toNat]? = some store) {v : Scalar}
    (hbytes : store.data.slice found.offset.toNat found.type.size = .ok v.bytes) :
    Reads src p world (.lookupField lookup component field) v
  | var {var : String} {slot : VarSlot} (hslot : src.blackboard.get? var = some slot) {v : Scalar}
    (hbytes : world.blackboard.slice slot.offset.toNat slot.length = .ok v.bytes) : Reads src p world (.readVar var) v

/-- The value at an incoming port: that of the constant which feeds it, or that of the operator which does. -/
inductive Denotes {σ : Type} (src : Sources) (p : Program) (world : World σ) : Spot → Scalar → Prop
  | constant {spot : Spot} {value : Constant} (fed : FedBy src.library spot (.constant value)) :
    Denotes src p world spot value.scalar
  | read {spot : Spot} {i : Instance} (fed : FedBy src.library spot (.operator i)) {op : Operator}
    (hrole : (i.graphNode src.library).role = .operator op) {v : Scalar} (reads : Reads src p world op v) :
    Denotes src p world spot v
  | not {spot : Spot} {i : Instance} (fed : FedBy src.library spot (.operator i))
    (hrole : (i.graphNode src.library).role = .operator .not) {k : Nat}
    (hport : (i.graphNode src.library).port? "a" = some k) {a : Scalar}
    (ha : Denotes src p world ⟨i.path, i.node, k⟩ a) : Denotes src p world spot (.ofBool !a.toBool)
  | combine {spot : Spot} {i : Instance} (fed : FedBy src.library spot (.operator i)) {op : Operator}
    (hrole : (i.graphNode src.library).role = .operator op) {j k : Nat}
    (hleft : (i.graphNode src.library).port? "a" = some j) (hright : (i.graphNode src.library).port? "b" = some k)
    {a b : Scalar} (ha : Denotes src p world ⟨i.path, i.node, j⟩ a) (hb : Denotes src p world ⟨i.path, i.node, k⟩ b)
    {v : Scalar} (h : op.combine? a b = some v) : Denotes src p world spot v

section

variable {σ : Type} {src : Sources} {p : Program} {world : World σ} {spot : Spot}

/-- The value at the first port of a name. -/
def Instance.Takes (i : Instance) (src : Sources) (p : Program) (world : World σ) (name : String) (v : Scalar) : Prop :=
  ∃ k, (i.graphNode src.library).port? name = some k ∧ Denotes src p world ⟨i.path, i.node, k⟩ v

/-- The value of an operator. -/
def Instance.Gives (i : Instance) (src : Sources) (p : Program) (world : World σ) (op : Operator) (v : Scalar) : Prop :=
  Reads src p world op v ∨ (op = .not ∧ ∃ a, i.Takes src p world "a" a ∧ v = .ofBool !a.toBool) ∨
    ∃ a b, i.Takes src p world "a" a ∧ i.Takes src p world "b" b ∧ op.combine? a b = some v

theorem denotes_constant_iff {value : Constant}
    (fed : ∀ other, FedBy src.library spot other ↔ other = .constant value) {v : Scalar} :
    Denotes src p world spot v ↔ v = value.scalar := by
  constructor
  · intro h
    cases h with
    | constant h =>
      obtain rfl := ValueSource.constant.inj ((fed _).mp h)
      rfl
    | read h | not h | combine h => cases (fed _).mp h
  · rintro rfl
    exact .constant ((fed _).mpr rfl)

theorem denotes_operator_iff {i : Instance} (fed : ∀ other, FedBy src.library spot other ↔ other = .operator i)
    {op : Operator} (hrole : (i.graphNode src.library).role = .operator op) {v : Scalar} :
    Denotes src p world spot v ↔ i.Gives src p world op v := by
  have hfed : FedBy src.library spot (.operator i) := (fed _).mpr rfl
  constructor
  · intro h
    cases h with
    | constant h => cases (fed _).mp h
    | read h hrole' reads =>
      obtain rfl := ValueSource.operator.inj ((fed _).mp h)
      obtain rfl := Role.operator.inj (hrole'.symm.trans hrole)
      exact .inl reads
    | not h hrole' hport ha =>
      obtain rfl := ValueSource.operator.inj ((fed _).mp h)
      obtain rfl := Role.operator.inj (hrole'.symm.trans hrole)
      exact .inr (.inl ⟨rfl, _, ⟨_, hport, ha⟩, rfl⟩)
    | combine h hrole' hleft hright ha hb hv =>
      obtain rfl := ValueSource.operator.inj ((fed _).mp h)
      obtain rfl := Role.operator.inj (hrole'.symm.trans hrole)
      exact .inr (.inr ⟨_, _, ⟨_, hleft, ha⟩, ⟨_, hright, hb⟩, hv⟩)
  · rintro (reads | ⟨rfl, a, ⟨k, hport, ha⟩, rfl⟩ | ⟨a, b, ⟨j, hleft, ha⟩, ⟨k, hright, hb⟩, hv⟩)
    · exact .read hfed hrole reads
    · exact .not hfed hrole hport ha
    · exact .combine hfed hrole hleft hright ha hb hv

theorem gives_not_iff {i : Instance} {a v : Scalar} (ha : ∀ w, i.Takes src p world "a" w ↔ w = a) :
    i.Gives src p world .not v ↔ v = .ofBool !a.toBool := by
  constructor
  · rintro (reads | ⟨-, w, hw, rfl⟩ | ⟨_, _, -, -, hnone⟩)
    · cases reads
    · rw [(ha w).mp hw]
    · cases hnone
  · rintro rfl
    exact .inr (.inl ⟨rfl, a, (ha a).mpr rfl, rfl⟩)

theorem gives_combine_iff {i : Instance} {op : Operator} {a b u v : Scalar} (h : op.combine? a b = some u)
    (ha : ∀ w, i.Takes src p world "a" w ↔ w = a) (hb : ∀ w, i.Takes src p world "b" w ↔ w = b) :
    i.Gives src p world op v ↔ v = u := by
  constructor
  · rintro (reads | ⟨rfl, -⟩ | ⟨a', b', ha', hb', hv⟩)
    · cases reads <;> cases h
    · cases h
    · rw [(ha a').mp ha', (hb b').mp hb', h] at hv
      exact (Option.some.inj hv).symm
  · rintro rfl
    exact .inr (.inr ⟨a, b, (ha a).mpr rfl, (hb b).mpr rfl, h⟩)

theorem gives_read_iff {i : Instance} {op : Operator} {u v : Scalar} (h : ∀ w, Reads src p world op w ↔ w = u) :
    i.Gives src p world op v ↔ v = u := by
  have hreads := (h u).mpr rfl
  constructor
  · rintro (reads | ⟨rfl, -⟩ | ⟨a, b, -, -, hv⟩)
    · exact (h v).mp reads
    · cases hreads
    · cases hreads <;> cases hv
  · rintro rfl
    exact .inl hreads

end

end BehaviorTree
