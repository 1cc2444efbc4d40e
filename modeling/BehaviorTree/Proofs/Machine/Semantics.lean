import Mathlib.Logic.Relation
import BehaviorTree.Machine.Step
import BehaviorTree.Proofs.Refusal

/-! What a behavior tree means, told by recursion on its nodes: every node succeeds or fails, and leaves memory as it
is then. A stack of frames stands for what is left to be done of such an evaluation. -/

namespace BehaviorTree

open Refusal

namespace Surroundings

/-- Stores one field of a component. -/
def writeField (component : UInt16) (s : Surroundings) (field : FieldWrite) : Except Fault Surroundings := do
  let bytes ← s.evaluate field.value field.length.toNat
  match s.components[component.toNat]? with
  | none => throw .outOfRange
  | some store =>
    let data ← store.data.overwrite field.offset.toNat bytes
    return { s with components := s.components.setIfInBounds component.toNat { store with data := data } }

def writeVar (s : Surroundings) (slot : VarSlot) (value : ValueRef) : Except Fault Surroundings := do
  let bytes ← s.evaluate value slot.length
  return { s with blackboard := ← s.blackboard.overwrite slot.offset.toNat bytes }

/-- The child of the first branch whose guard holds. -/
def choose (s : Surroundings) : List Branch → Except Fault (Option NodeId)
  | [] => return none
  | branch :: rest => do
    if ← s.evaluateBool branch.guard then return some branch.child else s.choose rest

end Surroundings

/-- Whether a node succeeds, and the memory that it leaves. -/
abbrev Ending := Bool × Surroundings

/-- How children are evaluated; there is no ending where a value cannot be read or written. -/
abbrev Evaluator := NodeId → Surroundings → Option Ending

namespace Node

/-- Runs children from left to right, up to the first that fails. -/
def runAll (run : Evaluator) : List NodeId → Surroundings → Option Ending
  | [], s => some (true, s)
  | child :: rest, s => do
    let (ok, s) ← run child s
    if ok then runAll run rest s else some (false, s)

/-- A node by its children. Waits for a time do nothing; what waits for anything else, and what runs beside
something, has no ending of its own. -/
def evaluate (run : Evaluator) (s : Surroundings) : Node → Option Ending
  | nop | wait (.duration _) => some (true, s)
  | fail => some (false, s)
  | root child | threadRoot child _ => run child s
  | sequence children => runAll run children.toList s
  | selector branches => do
    match ← (s.choose branches).toOption with
    | some child => run child s
    | none => some (false, s)
  | optional guard child => do
    if ← (s.evaluateBool guard).toOption then run child s else some (true, s)
  | .catch child => do
    let (_, s) ← run child s
    some (true, s)
  | writeField component fields => (fields.foldlM (Surroundings.writeField component) s).toOption.map (true, ·)
  | writeVar slot value => (s.writeVar slot value).toOption.map (true, ·)
  | wait (.condition _) | query _ _ | parallel _ _ => none

/-- What is left of a node that has got so far. -/
def resume (run : Evaluator) (childIndex : UInt16) (s : Surroundings) : Node → Option Ending
  | sequence children => runAll run (children.toList.drop childIndex.toNat) s
  | node@(root _) | node@(threadRoot _ _) | node@(.catch _) | node@(selector _) | node@(optional _ _) =>
    if childIndex = 0 then node.evaluate run s else some (true, s)
  | node => node.evaluate run s

end Node

namespace Program

/-- Evaluates a node, at most so deep. -/
def evaluate (p : Program) : (depth : Nat) → Evaluator
  | 0, _, _ => none
  | depth + 1, id, s => do (← p.node? id).evaluate (p.evaluate depth) s

def HasChild (p : Program) (id child : NodeId) : Prop :=
  ∃ node, p.node? id = some node ∧ child ∈ node.children

/-- From the root. -/
def Reachable (p : Program) (id : NodeId) : Prop :=
  Relation.ReflTransGen p.HasChild .root id

/-- No node that is reachable leads back to itself. -/
def Acyclic (p : Program) : Prop :=
  ∀ id, p.Reachable id → ¬ Relation.TransGen p.HasChild id id

end Program

/-! ### Depth -/

variable {run run' : Evaluator} {s s' : Surroundings} {r : Ending} {p : Program} {id : NodeId} {depth depth' : Nat}

theorem Surroundings.choose_mem {branches : List Branch} {child : NodeId} (h : s.choose branches = .ok (some child)) :
    ∃ branch ∈ branches, branch.child = child := by
  induction branches with
  | nil => cases h
  | cons branch rest ih =>
    obtain ⟨holds, -, hrest⟩ := bind_eq_ok_iff.mp h
    cases holds with
    | true => exact ⟨branch, List.mem_cons_self, Option.some.inj (Except.ok.inj hrest)⟩
    | false =>
      obtain ⟨other, hmem, hchild⟩ := ih hrest
      exact ⟨other, List.mem_cons_of_mem _ hmem, hchild⟩

theorem toOption_eq_some_iff {α : Type} {x : Except Fault α} {a : α} : x.toOption = some a ↔ x = .ok a := by
  cases x <;> simp [Except.toOption]

theorem Node.runAll_mono {children : List NodeId}
    (h : ∀ child ∈ children, ∀ s r, run child s = some r → run' child s = some r)
    (hrun : Node.runAll run children s = some r) : Node.runAll run' children s = some r := by
  induction children generalizing s with
  | nil => exact hrun
  | cons child rest ih =>
    obtain ⟨⟨ok, s'⟩, hchild, hrest⟩ := Option.bind_eq_some_iff.mp hrun
    refine Option.bind_eq_some_iff.mpr ⟨(ok, s'), h child List.mem_cons_self s _ hchild, ?_⟩
    cases ok with
    | false => exact hrest
    | true => exact ih (fun child hmem => h child (List.mem_cons_of_mem _ hmem)) hrest

/-- Only what is said of the children of a node matters. -/
theorem Node.evaluate_mono {node : Node}
    (h : ∀ child ∈ node.children, ∀ s r, run child s = some r → run' child s = some r)
    (hrun : node.evaluate run s = some r) : node.evaluate run' s = some r := by
  cases node with
  | nop | fail | writeField _ _ | writeVar _ _ | query _ _ | parallel _ _ => exact hrun
  | wait goal =>
    cases goal <;> exact hrun
  | root child | threadRoot child _ => exact h child (by simp [children]) s r hrun
  | sequence children => exact runAll_mono h hrun
  | selector branches =>
    obtain ⟨choice, hchoice, hrest⟩ := Option.bind_eq_some_iff.mp hrun
    refine Option.bind_eq_some_iff.mpr ⟨choice, hchoice, ?_⟩
    cases choice with
    | none => exact hrest
    | some child =>
      obtain ⟨branch, hmem, hbranch⟩ := Surroundings.choose_mem (toOption_eq_some_iff.mp hchoice)
      exact h child (List.mem_map.mpr ⟨branch, hmem, hbranch⟩) s r hrest
  | optional guard child =>
    obtain ⟨holds, hguard, hrest⟩ := Option.bind_eq_some_iff.mp hrun
    refine Option.bind_eq_some_iff.mpr ⟨holds, hguard, ?_⟩
    cases holds with
    | false => exact hrest
    | true => exact h child (by simp [children]) s r hrest
  | «catch» child =>
    obtain ⟨r', hchild, hrest⟩ := Option.bind_eq_some_iff.mp hrun
    exact Option.bind_eq_some_iff.mpr ⟨r', h child (by simp [children]) s r' hchild, hrest⟩

theorem Node.resume_mono {node : Node} {childIndex : UInt16}
    (h : ∀ child ∈ node.children, ∀ s r, run child s = some r → run' child s = some r)
    (hrun : node.resume run childIndex s = some r) : node.resume run' childIndex s = some r := by
  have hstart (hrun : (if childIndex = 0 then node.evaluate run s else some (true, s)) = some r) :
      (if childIndex = 0 then node.evaluate run' s else some (true, s)) = some r := by
    split_ifs at hrun ⊢
    · exact evaluate_mono h hrun
    · exact hrun
  cases node with
  | sequence children => exact runAll_mono (fun child hmem => h child (List.mem_of_mem_drop hmem)) hrun
  | root _ | threadRoot _ _ | «catch» _ | selector _ | optional _ _ => exact hstart hrun
  | nop | fail | writeField _ _ | writeVar _ _ | query _ _ | parallel _ _ | wait _ =>
    exact evaluate_mono (s := s) h hrun

@[simp] theorem Node.resume_zero (run : Evaluator) (s : Surroundings) (node : Node) :
    node.resume run 0 s = node.evaluate run s := by
  cases node <;> simp [resume, evaluate]

theorem Program.evaluate_mono (h : depth ≤ depth') (hrun : p.evaluate depth id s = some r) :
    p.evaluate depth' id s = some r := by
  induction depth generalizing depth' id s r with
  | zero => cases hrun
  | succ depth ih =>
    obtain ⟨depth', rfl⟩ : ∃ n, depth' = n + 1 := ⟨depth' - 1, by omega⟩
    obtain ⟨node, hnode, hrun⟩ := Option.bind_eq_some_iff.mp hrun
    exact Option.bind_eq_some_iff.mpr ⟨node, hnode,
      Node.evaluate_mono (fun child _ s r => ih (Nat.le_of_succ_le_succ h)) hrun⟩

theorem Program.lt_of_node? {node : Node} (h : p.node? id = some node) : id.toNat < p.size := by
  obtain ⟨entry, hentry, -⟩ := Option.map_eq_some_iff.mp h
  exact (Array.getElem?_eq_some_iff.mp hentry).1

theorem Program.length_le_size {ids : List NodeId} (nodup : ids.Nodup) (h : ∀ id ∈ ids, id.toNat < p.size) :
    ids.length ≤ p.size := by
  have hinj : Function.Injective NodeId.toNat := fun a b hab => congrArg NodeId.mk (UInt16.toNat_inj.mp hab)
  have hsub : ids.map NodeId.toNat ⊆ List.range p.size := by
    intro n hn
    obtain ⟨id, hid, rfl⟩ := List.mem_map.mp hn
    exact List.mem_range.mpr (h id hid)
  have hle := ((nodup.map hinj).subperm hsub).length_le
  rwa [List.length_map, List.length_range] at hle

/-- Without a cycle, what is said of nodes up to some depth comes down to their children as often as there are nodes. -/
theorem Program.Acyclic.induction {motive : Nat → NodeId → Prop} (acyclic : p.Acyclic)
    (unknown : ∀ depth id, p.node? id = none → motive depth id)
    (known : ∀ depth id node, p.node? id = some node → (∀ child ∈ node.children, motive depth child) →
      motive (depth + 1) id) (hid : p.Reachable id) : motive p.size id := by
  -- The nodes on the way to the one that it is said of are different from each other.
  have hpath (left : Nat) (path : List NodeId) (hleft : p.size - path.length = left) (id : NodeId)
      (hid : p.Reachable id) (nodup : (id :: path).Nodup) (hup : ∀ above ∈ path, Relation.TransGen p.HasChild above id)
      (hknown : ∀ above ∈ path, above.toNat < p.size) : motive left id := by
    induction left generalizing path id with
    | zero =>
      refine unknown 0 id (Option.eq_none_iff_forall_ne_some.mpr fun node hnode => ?_)
      have hlength : path.length + 1 ≤ p.size := length_le_size nodup (by simpa using ⟨lt_of_node? hnode, hknown⟩)
      omega
    | succ left ih =>
      cases hnode : p.node? id with
      | none => exact unknown _ id hnode
      | some node =>
        refine known left id node hnode fun child hchild => ?_
        have hstep : p.HasChild id child := ⟨node, hnode, hchild⟩
        have hup : ∀ above ∈ id :: path, Relation.TransGen p.HasChild above child := by
          rintro above (_ | ⟨_, hmem⟩)
          · exact .single hstep
          · exact (hup above hmem).tail hstep
        have hreach := hid.tail hstep
        have hnew : child ∉ id :: path := fun hmem => acyclic child hreach (hup child hmem)
        exact ih (id :: path) (by rw [List.length_cons]; omega) child hreach (List.nodup_cons.mpr ⟨hnew, nodup⟩) hup
          (by simpa using ⟨lt_of_node? hnode, hknown⟩)
  exact hpath p.size [] rfl id hid (List.nodup_singleton id) (by simp) (by simp)

/-- Without a cycle, evaluation does not get deeper than there are nodes. -/
theorem Program.evaluate_of_acyclic (acyclic : p.Acyclic) (hid : p.Reachable id) (hrun : p.evaluate depth id s = some r) :
    p.evaluate p.size id s = some r := by
  refine acyclic.induction (motive := fun enough id => ∀ depth s r, p.evaluate depth id s = some r →
    p.evaluate enough id s = some r) (fun _ id hnone depth s r hrun => ?_) (fun enough id node hnode ih depth s r hrun => ?_)
    hid depth s r hrun
  · cases depth with
    | zero => cases hrun
    | succ depth =>
      obtain ⟨node, hnode, -⟩ := Option.bind_eq_some_iff.mp hrun
      cases hnone.symm.trans hnode
  · cases depth with
    | zero => cases hrun
    | succ depth =>
      obtain ⟨node', hnode', hrun⟩ := Option.bind_eq_some_iff.mp hrun
      obtain rfl := Option.some.inj (hnode.symm.trans hnode')
      exact Option.bind_eq_some_iff.mpr ⟨node, hnode,
        Node.evaluate_mono (fun child hchild s r => ih child hchild depth s r) hrun⟩

/-! ### What a node does next -/

namespace Node

/-- The child of a root, and whether a root at the bottom of a lane calls it only once. -/
def rootChild? : Node → Option (NodeId × Bool)
  | .root child => some (child, false)
  | .threadRoot child looping => some (child, !looping)
  | _ => none

/-- With this progress the node calls a child, and makes that progress with it. -/
def Calls (childIndex progress : UInt16) (child : NodeId) : Node → Prop
  | .root only | .threadRoot only _ | .catch only | .optional _ only =>
    childIndex = 0 ∧ progress = 1 ∧ child = only
  | .sequence children => childIndex.toNat + 1 < 0x10000 ∧ progress = childIndex + 1 ∧
      children[childIndex.toNat]? = some child
  | .selector branches => childIndex = 0 ∧
      ∃ place branch, branches[place]? = some branch ∧ progress.toNat = place + 1 ∧ child = branch.child
  | _ => False

/-- With this progress the node may be done. -/
def Finishes (childIndex : UInt16) : Node → Prop
  | .nop | .writeField _ _ | .writeVar _ _ | .optional _ _ => True
  | .root _ | .threadRoot _ _ | .catch _ | .selector _ | .wait _ => childIndex ≠ 0
  | .sequence children => children[childIndex.toNat]? = none
  | .fail | .query _ _ | .parallel _ _ => False

/-- With this progress the node may fail. -/
def Fails (childIndex : UInt16) : Node → Prop
  | .fail => True
  | .selector _ => childIndex = 0
  | _ => False

theorem exists_of_kind_catch {node : Node} (h : node.kind = .catch) : ∃ child, node = .catch child := by
  cases node <;> simp [kind] at h ⊢

theorem exists_of_kind_parallel {node : Node} (h : node.kind = .parallel) :
    ∃ main thread, node = .parallel main thread := by
  cases node <;> simp [kind] at h ⊢

/-! Parallel nodes and queries do none of this. -/

variable {node : Node}

theorem kind_ne_of_rootChild {child : NodeId} {once : Bool} (h : node.rootChild? = some (child, once)) :
    node.kind ≠ .parallel ∧ node.kind ≠ .query := by
  cases node <;> simp [rootChild?, kind] at h ⊢

theorem Calls.kind_ne {childIndex progress : UInt16} {child : NodeId} (h : node.Calls childIndex progress child) :
    node.kind ≠ .parallel ∧ node.kind ≠ .query := by
  cases node <;> simp [Calls, kind] at h ⊢

theorem Finishes.kind_ne {childIndex : UInt16} (h : node.Finishes childIndex) :
    node.kind ≠ .parallel ∧ node.kind ≠ .query := by
  cases node <;> simp [Finishes, kind] at h ⊢

theorem Fails.kind_ne {childIndex : UInt16} (h : node.Fails childIndex) :
    node.kind ≠ .parallel ∧ node.kind ≠ .query := by
  cases node <;> simp [Fails, kind] at h ⊢

end Node

/-- What the node on top of a stack does. -/
inductive Deed where
  | call (child : NodeId)
  | finish (s : Surroundings)
  | fail

namespace Node

/-- By how far the node got and by what it reads. A wait for a time may be kept waiting before that. -/
def deed (childIndex : UInt16) (s : Surroundings) : Node → Except Fault Deed
  | nop | wait (.duration _) => return .finish s
  | fail => return .fail
  | root child | threadRoot child _ | .catch child => return if childIndex = 0 then .call child else .finish s
  | sequence children =>
    match children[childIndex.toNat]? with
    | some child => return .call child
    | none => return .finish s
  | selector branches => do
    if childIndex ≠ 0 then return .finish s
    match ← s.choose branches with
    | some child => return .call child
    | none => return .fail
  | optional guard child => do
    if childIndex ≠ 0 then return .finish s
    if ← s.evaluateBool guard then return .call child else return .finish s
  | writeField component fields => return .finish (← fields.foldlM (Surroundings.writeField component) s)
  | writeVar slot value => return .finish (← s.writeVar slot value)
  | wait (.condition _) | query _ _ | parallel _ _ => throw .outOfRange

variable {node : Node} {childIndex progress : UInt16} {child : NodeId}

/-- A selector and an optional node decide only once. -/
theorem deed_of_decided (h : childIndex ≠ 0) (hnode : node.kind = .selector ∨ node.kind = .optional) :
    node.deed childIndex s = .ok (.finish s) := by
  cases node <;> simp [kind] at hnode
  all_goals
    simp only [deed, if_pos h]
    rfl

theorem deed_of_choose {branches : List Branch} {choice : Option NodeId} (h : s.choose branches = .ok choice) :
    (selector branches).deed 0 s = .ok (choice.elim .fail .call) := by
  simp only [deed]
  refine bind_eq_ok_iff.mpr ⟨choice, h, ?_⟩
  cases choice <;> rfl

theorem deed_of_guard {guard : ValueRef} {holds : Bool} (h : s.evaluateBool guard = .ok holds) :
    (optional guard child).deed 0 s = .ok (if holds then .call child else .finish s) := by
  simp only [deed]
  refine bind_eq_ok_iff.mpr ⟨holds, h, ?_⟩
  cases holds <;> rfl

theorem resume_of_finish (h : node.deed childIndex s = .ok (.finish s')) :
    node.resume run childIndex s = some (true, s') := by
  cases node with
  | nop => cases h; rfl
  | fail => cases h
  | query _ _ | parallel _ _ => cases h
  | wait goal =>
    cases goal with
    | duration _ => cases h; rfl
    | condition _ => cases h
  | root c | threadRoot c _ | «catch» c =>
    simp only [deed, pure, Except.pure] at h
    split_ifs at h with hfirst
    · cases h
    · cases h
      exact if_neg hfirst
  | sequence children =>
    simp only [deed] at h
    split at h
    · cases h
    next hnone =>
      cases h
      have hle : children.size ≤ childIndex.toNat := Array.getElem?_eq_none_iff.mp hnone
      rw [resume, List.drop_eq_nil_of_le (by simpa using hle)]
      rfl
  | selector branches =>
    simp only [deed] at h
    split_ifs at h with hfirst
    · cases h
      exact if_neg hfirst
    · obtain ⟨choice, -, h⟩ := bind_eq_ok_iff.mp h
      cases choice <;> cases h
  | optional guard c =>
    simp only [deed] at h
    split_ifs at h with hfirst
    · cases h
      exact if_neg hfirst
    · obtain ⟨holds, hguard, h⟩ := bind_eq_ok_iff.mp h
      cases holds
      · cases h
        rw [resume, if_pos (by simpa using hfirst), evaluate, hguard]
        rfl
      · cases h
  | writeField component fields =>
    obtain ⟨stored, hstored, h⟩ := bind_eq_ok_iff.mp h
    cases h
    show (fields.foldlM (Surroundings.writeField component) s).toOption.map _ = _
    rw [hstored]
    rfl
  | writeVar slot value =>
    obtain ⟨stored, hstored, h⟩ := bind_eq_ok_iff.mp h
    cases h
    show (s.writeVar slot value).toOption.map _ = _
    rw [hstored]
    rfl

theorem resume_of_fail (h : node.deed childIndex s = .ok .fail) : node.resume run childIndex s = some (false, s) := by
  cases node with
  | fail => rfl
  | nop | query _ _ | parallel _ _ => cases h
  | wait goal => cases goal <;> cases h
  | root c | threadRoot c _ | «catch» c =>
    simp only [deed, pure, Except.pure] at h
    split_ifs at h
    · cases h
    · cases h
  | sequence children =>
    simp only [deed] at h
    split at h <;> cases h
  | selector branches =>
    simp only [deed] at h
    split_ifs at h with hfirst
    · cases h
    · obtain ⟨choice, hchoice, h⟩ := bind_eq_ok_iff.mp h
      cases choice with
      | some _ => cases h
      | none =>
        rw [resume, if_pos (by simpa using hfirst), evaluate, hchoice]
        rfl
  | optional guard c =>
    simp only [deed] at h
    split_ifs at h
    · cases h
    · obtain ⟨holds, -, h⟩ := bind_eq_ok_iff.mp h
      cases holds <;> cases h
  | writeField component fields =>
    obtain ⟨stored, -, h⟩ := bind_eq_ok_iff.mp h
    cases h
  | writeVar slot value =>
    obtain ⟨stored, -, h⟩ := bind_eq_ok_iff.mp h
    cases h

/-- A node that calls a child goes on where it got if the child succeeds. If not, a catch is done and all other nodes
fail. -/
theorem resume_of_call (h : node.deed childIndex s = .ok (.call child)) (hcall : node.Calls childIndex progress child) :
    node.resume run childIndex s = (do
      let (ok, s) ← run child s
      if ok then node.resume run progress s else some (node.kind = .catch, s)) := by
  have hone : (1 : UInt16) ≠ 0 := by decide
  have hpass (x : Option Ending) : x = (do let (ok, s) ← x; if ok then some (true, s) else some (false, s)) := by
    cases x with
    | none => rfl
    | some r => obtain ⟨ok, s⟩ := r; cases ok <;> rfl
  cases node with
  | nop | fail | wait _ | query _ _ | parallel _ _ | writeField _ _ | writeVar _ _ => exact hcall.elim
  | root c | threadRoot c _ =>
    obtain ⟨rfl, rfl, rfl⟩ := hcall
    simp only [resume, if_true, hone, if_false, evaluate, kind]
    exact hpass _
  | «catch» c =>
    obtain ⟨rfl, rfl, rfl⟩ := hcall
    simp only [resume, if_true, hone, if_false, evaluate, kind]
    cases run child s with
    | none => rfl
    | some r => obtain ⟨ok, s⟩ := r; cases ok <;> rfl
  | sequence children =>
    obtain ⟨hfits, rfl, hchild⟩ := hcall
    obtain ⟨hlt, rfl⟩ := Array.getElem?_eq_some_iff.mp hchild
    have hprogress : (childIndex + 1).toNat = childIndex.toNat + 1 := by
      rw [UInt16.toNat_add]
      exact Nat.mod_eq_of_lt hfits
    have hdrop := List.drop_eq_getElem_cons (l := children.toList) (i := childIndex.toNat) (by simpa using hlt)
    simp only [resume, hprogress, hdrop, runAll, kind]
    rfl
  | selector branches =>
    obtain ⟨rfl, place, branch, hbranch, hplace, -⟩ := hcall
    have hlater : progress ≠ 0 := by
      rintro rfl
      cases hplace
    simp only [deed] at h
    obtain ⟨choice, hchoice, h⟩ := bind_eq_ok_iff.mp (show (_ >>= _) = _ from h)
    cases choice with
    | none => cases h
    | some c =>
      cases h
      simp only [resume, if_true, hlater, if_false, evaluate, kind, hchoice]
      exact hpass _
  | optional guard c =>
    obtain ⟨rfl, rfl, rfl⟩ := hcall
    obtain ⟨holds, hguard, h⟩ := bind_eq_ok_iff.mp (show (_ >>= _) = _ from h)
    cases holds with
    | false => cases h
    | true =>
      simp only [resume, if_true, hone, if_false, evaluate, kind, hguard]
      exact hpass _

theorem mem_children_of_calls (h : node.Calls childIndex progress child) : child ∈ node.children := by
  cases node with
  | nop | fail | wait _ | query _ _ | parallel _ _ | writeField _ _ | writeVar _ _ => exact h.elim
  | root _ | threadRoot _ _ | «catch» _ | optional _ _ =>
    obtain ⟨-, -, rfl⟩ := h
    exact List.mem_singleton_self _
  | sequence children => exact Array.mem_toList_iff.mpr (Array.mem_of_getElem? h.2.2)
  | selector branches =>
    obtain ⟨-, place, branch, hbranch, -, rfl⟩ := h
    exact List.mem_map_of_mem (List.mem_of_getElem? hbranch)

end Node

/-! ### Stacks of frames -/

namespace Program

/-- What is left of the node of a frame comes to an ending. -/
def Resumes (p : Program) (frame : Frame) (s : Surroundings) (r : Ending) : Prop :=
  ∃ depth node, p.node? frame.node = some node ∧ node.resume (p.evaluate depth) frame.childIndex s = some r

/-- What is left of a stack, the top frame first, comes to an ending. The flag says whether the callee of the top frame
has succeeded; what is at the bottom waits for an ending of those above it. -/
inductive Returns (p : Program) : Bool → List Frame → Surroundings → Ending → Prop
  | bottom (ok : Bool) (frame : Frame) (s : Surroundings) : Returns p ok [frame] s (ok, s)
  | resume {frame : Frame} {below : List Frame} {s : Surroundings} {r r' : Ending} (resumes : p.Resumes frame s r)
    (rest : Returns p r.1 below r.2 r') : Returns p true (frame :: below) s r'
  | caught {frame : Frame} {below : List Frame} {child : NodeId} {s : Surroundings} {r : Ending}
    (hnode : p.node? frame.node = some (.catch child)) (hlater : frame.childIndex ≠ 0)
    (rest : Returns p true below s r) : Returns p false (frame :: below) s r
  | raise {frame : Frame} {below : List Frame} {node : Node} {s : Surroundings} {r : Ending}
    (hnode : p.node? frame.node = some node) (hpass : node.kind = .catch → frame.childIndex = 0)
    (rest : Returns p false below s r) : Returns p false (frame :: below) s r

namespace Returns

variable {frame : Frame} {below : List Frame} {node : Node} {progress : UInt16} {child : NodeId}

theorem of_finish (hnode : p.node? frame.node = some node) (h : node.deed frame.childIndex s = .ok (.finish s'))
    (returns : p.Returns true below s' r) : p.Returns true (frame :: below) s r :=
  .resume ⟨0, node, hnode, Node.resume_of_finish h⟩ returns

theorem of_fail (hnode : p.node? frame.node = some node) (h : node.deed frame.childIndex s = .ok .fail)
    (returns : p.Returns false below s r) : p.Returns true (frame :: below) s r :=
  .resume ⟨0, node, hnode, Node.resume_of_fail h⟩ returns

/-- A frame with which the stack does not begin, and the callee on top of it. -/
theorem of_call (hnode : p.node? frame.node = some node) (h : node.deed frame.childIndex s = .ok (.call child))
    (hcall : node.Calls frame.childIndex progress child) (habove : below ≠ [])
    (returns : p.Returns true (.start child :: { frame with childIndex := progress } :: below) s r) :
    p.Returns true (frame :: below) s r := by
  cases returns with
  | @resume _ _ _ ending _ resumes rest =>
    obtain ⟨depth, callee, hcallee, hchild⟩ := resumes
    obtain ⟨ok, s'⟩ := ending
    have hchild : p.evaluate (depth + 1) child s = some (ok, s') :=
      Option.bind_eq_some_iff.mpr ⟨callee, hcallee, (Node.resume_zero _ s callee).symm.trans hchild⟩
    -- The node at the depth that its callee needs, and at any greater one.
    have hframe {left : Ending} (depth' : Nat) (hleft : (if ok then node.resume (p.evaluate depth') progress s'
        else some (node.kind = .catch, s')) = some left) : p.Resumes frame s left := by
      refine ⟨max (depth + 1) depth', node, hnode, ?_⟩
      rw [Node.resume_of_call h hcall, evaluate_mono (Nat.le_max_left _ _) hchild]
      cases ok with
      | false => exact hleft
      | true => exact Node.resume_mono (fun _ _ _ _ => evaluate_mono (Nat.le_max_right _ _)) hleft
    cases rest with
    | bottom _ _ _ => exact absurd rfl habove
    | resume resumes rest =>
      obtain ⟨depth', node', hnode', hleft⟩ := resumes
      obtain rfl := Option.some.inj (hnode.symm.trans hnode')
      exact .resume (hframe depth' hleft) rest
    | caught hnode' _ rest =>
      obtain rfl := Option.some.inj (hnode.symm.trans hnode')
      exact .resume (r := (true, s')) (hframe 0 rfl) rest
    | raise hnode' hpass rest =>
      obtain rfl := Option.some.inj (hnode.symm.trans hnode')
      have hkind : node.kind ≠ .catch := by
        intro hkind
        obtain ⟨only, rfl⟩ := Node.exists_of_kind_catch hkind
        cases hcall.2.1.symm.trans (hpass hkind)
      exact .resume (r := (false, s')) (hframe 0 (by simp [hkind])) rest

/-- A wait that is kept waiting. -/
theorem of_wait {goal : WaitGoal} (hnode : p.node? frame.node = some (.wait goal))
    (returns : p.Returns true ({ frame with childIndex := progress } :: below) s r) :
    p.Returns true (frame :: below) s r := by
  cases returns with
  | bottom _ _ _ => exact .bottom true frame s
  | resume resumes rest =>
    obtain ⟨depth, node, hnode', hleft⟩ := resumes
    obtain rfl := Option.some.inj (hnode.symm.trans hnode')
    exact .resume ⟨depth, _, hnode, hleft⟩ rest

end Returns

end Program

end BehaviorTree
