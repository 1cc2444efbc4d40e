import BehaviorTree.Proofs.Compile.Flow

/-! What feeds a value port, said without the walk along the wires: an inline value, an operator, or, across the
boundary of a called graph, what feeds the port of the same name on the other side. -/

namespace BehaviorTree

/-- What feeds an incoming value port. Without a link the inline value counts. A link from an input node goes on at the
argument of the call that led to its graph, one from a call at the result of the called graph; a result that is not
wired is zero. -/
inductive FedBy (library : Library) : Spot → ValueSource → Prop
  | inline {spot : Spot} (hlinks : (spot.graph library).linksTo spot.ref = []) {value : Constant}
    (hinline : (spot.portOf library).inline = some value) : FedBy library spot (.constant value)
  | operator {spot : Spot} {link : Link} (hlink : link ∈ (spot.graph library).linksTo spot.ref) {op : Operator}
    (hrole : ((spot.graph library).node link.source.node).role = .operator op) :
    FedBy library spot (.operator ⟨spot.path, link.source.node⟩)
  | argument {spot : Spot} {link : Link} (hlink : link ∈ (spot.graph library).linksTo spot.ref)
    (hrole : ((spot.graph library).node link.source.node).role = .input) {outer : CallPath} {via port : Nat}
    (hleave : spot.path.leave? = some (outer, via))
    (hport : ((library.graph outer.graph).node via).port?
      (((spot.graph library).node link.source.node).port link.source.port).name = some port)
    {source : ValueSource} (next : FedBy library ⟨outer, via, port⟩ source) : FedBy library spot source
  | result {spot : Spot} {link : Link} (hlink : link ∈ (spot.graph library).linksTo spot.ref) {callee : GraphId}
    (hrole : ((spot.graph library).node link.source.node).role = .call callee) {output port : Nat} {node : GraphNode}
    (hnode : (library.graph callee).nodes[output]? = some node) (houtput : node.role = .output)
    (hport : node.port? (((spot.graph library).node link.source.node).port link.source.port).name = some port)
    {source : ValueSource} (next : FedBy library ⟨spot.path.enter link.source.node callee, output, port⟩ source) :
    FedBy library spot source
  | unwired {spot : Spot} {link : Link} (hlink : link ∈ (spot.graph library).linksTo spot.ref) {callee : GraphId}
    (hrole : ((spot.graph library).node link.source.node).role = .call callee) {output port : Nat} {node : GraphNode}
    (hnode : (library.graph callee).nodes[output]? = some node) (houtput : node.role = .output)
    (hport : node.port? (((spot.graph library).node link.source.node).port link.source.port).name = some port)
    (hlinks : (library.graph callee).linksTo ⟨output, port⟩ = []) (hinline : (node.port port).inline = none)
    {type : ValueType} (hkind : (node.port port).kind = .value type) : FedBy library spot (.constant (.zero type))

variable {library : Library} {entry : GraphId} {type : ValueType}

namespace GraphNode

/-- Values do not come out of actions or of output nodes. -/
theorem Formed.outgoing_value {node : GraphNode} (formed : node.Formed library) {k : Nat} (hlt : k < node.ports.size)
    (houtgoing : (node.port k).direction = .outgoing) (hkind : (node.port k).kind = .value type) :
    (∀ {a : Action}, node.role ≠ .action a) ∧ node.role ≠ .output := by
  obtain ⟨spec, known, built⟩ := formed
  obtain ⟨port, hmem, -, hdirection, hsame⟩ := built.exists_port hlt
  rw [houtgoing] at hdirection
  rw [hkind] at hsame
  rw [built.role]
  cases spec <;> simp [NodeSpec.role] <;>
    simp [NodeSpec.ports, Port.flowIn, Port.flowOut, Port.valueIn] at hmem <;> aesop

end GraphNode

namespace Spot

variable {spot : Spot} {link : Link} {source : GraphNode}

/-- Without a link only the inline value feeds a port. -/
theorem fedBy_inline_iff (hlinks : (spot.graph library).linksTo spot.ref = []) {other : ValueSource} :
    FedBy library spot other ↔ ∃ value, (spot.portOf library).inline = some value ∧ other = .constant value := by
  constructor
  · intro h
    cases h with
    | inline _ hinline => exact ⟨_, hinline, rfl⟩
    | operator h | argument h | result h | unwired h => simp [hlinks] at h
  · rintro ⟨value, hinline, rfl⟩
    exact .inline hlinks hinline

/-- What feeds the end of the only link of a port. -/
theorem fedBy_iff (hlinks : (spot.graph library).linksTo spot.ref = [link])
    (hsource : (spot.graph library).node link.source.node = source) {other : ValueSource} :
    FedBy library spot other ↔
      (∃ op, source.role = .operator op ∧ other = .operator ⟨spot.path, link.source.node⟩) ∨
      (∃ outer via port, source.role = .input ∧ spot.path.leave? = some (outer, via) ∧
        ((library.graph outer.graph).node via).port? (source.port link.source.port).name = some port ∧
        FedBy library ⟨outer, via, port⟩ other) ∨
      ∃ callee output port node, source.role = .call callee ∧ (library.graph callee).nodes[output]? = some node ∧
        node.role = .output ∧ node.port? (source.port link.source.port).name = some port ∧
        (FedBy library ⟨spot.path.enter link.source.node callee, output, port⟩ other ∨
          (library.graph callee).linksTo ⟨output, port⟩ = [] ∧ (node.port port).inline = none ∧
            ∃ type, (node.port port).kind = .value type ∧ other = .constant (.zero type)) := by
  subst hsource
  have honly {link' : Link} (h : link' ∈ (spot.graph library).linksTo spot.ref) : link' = link := by
    simpa [hlinks] using h
  have hlink : link ∈ (spot.graph library).linksTo spot.ref := by simp [hlinks]
  constructor
  · intro h
    cases h with
    | inline h => cases h.symm.trans hlinks
    | operator h hrole =>
      obtain rfl := honly h
      exact .inl ⟨_, hrole, rfl⟩
    | argument h hrole hleave hport next =>
      obtain rfl := honly h
      exact .inr (.inl ⟨_, _, _, hrole, hleave, hport, next⟩)
    | result h hrole hnode houtput hport next =>
      obtain rfl := honly h
      exact .inr (.inr ⟨_, _, _, _, hrole, hnode, houtput, hport, .inl next⟩)
    | unwired h hrole hnode houtput hport hnone hinline hkind =>
      obtain rfl := honly h
      exact .inr (.inr ⟨_, _, _, _, hrole, hnode, houtput, hport, .inr ⟨hnone, hinline, _, hkind, rfl⟩⟩)
  · rintro (⟨op, hrole, rfl⟩ | ⟨outer, via, port, hrole, hleave, hport, next⟩ |
      ⟨callee, output, port, node, hrole, hnode, houtput, hport, next | ⟨hnone, hinline, type, hkind, rfl⟩⟩)
    · exact .operator hlink hrole
    · exact .argument hlink hrole hleave hport next
    · exact .result hlink hrole hnode houtput hport next
    · exact .unwired hlink hrole hnode houtput hport hnone hinline hkind

/-- What is linked to or has an inline value is the first port of a name. -/
theorem first_of_fedBy (formed : library.Formed) {fed : ValueSource} (h : FedBy library spot fed) :
    ((spot.graph library).node spot.node).port? (spot.portOf library).name = some spot.port := by
  have hfirst {link : Link} (hlink : link ∈ (spot.graph library).linksTo spot.ref) :
      ((spot.graph library).node spot.node).port? (spot.portOf library).name = some spot.port := by
    obtain ⟨hmem, htarget⟩ : link ∈ (spot.graph library).links ∧ link.target = spot.ref := by
      simpa [Graph.linksTo] using hlink
    obtain ⟨source, target, joins⟩ := ((formed.graph spot.path.graph).links link hmem).joins
    have hport := joins.targetPort
    rw [← Graph.node_of_getElem? joins.targetNode, htarget] at hport
    exact hport
  cases h with
  | inline _ hinline => exact (formed.graph spot.path.graph).first hinline
  | operator hlink | argument hlink | result hlink | unwired hlink => exact hfirst hlink

/-- What a hop says about what feeds a port. -/
def Settles (library : Library) (spot : Spot) : Hop (Option ValueSource) → Prop
  | .stop source => ∃ s, source = some s ∧ ∀ other, FedBy library spot other ↔ other = s
  | .onward next => ∀ other, FedBy library spot other ↔ FedBy library next other

/-- A link to a value port comes out of a value port of its type. -/
theorem Carries.joins (formed : library.Formed) (carries : spot.Carries library entry type)
    (h : link ∈ (spot.graph library).linksTo spot.ref) :
    ∃ source target, (spot.graph library).Joins link source target ∧
      (source.port link.source.port).kind = .value type := by
  obtain ⟨hmem, htarget⟩ : link ∈ (spot.graph library).links ∧ link.target = spot.ref := by
    simpa [Graph.linksTo] using h
  obtain ⟨source, target, joins⟩ := ((formed.graph spot.path.graph).links link hmem).joins
  refine ⟨source, target, joins, ?_⟩
  rw [joins.kind, ← carries.kind, portOf, ← Graph.node_of_getElem? joins.targetNode, htarget]
  rfl

/-- A value that comes out of a call is the result of the called graph. -/
theorem enterValue_settles (formed : library.Formed) (bounded : library.Bounded entry)
    (valid : spot.path.Valid library entry) (hlinks : (spot.graph library).linksTo spot.ref = [link])
    {target : GraphNode} (joins : (spot.graph library).Joins link source target)
    (hkind : (source.port link.source.port).kind = .value type) {callee : GraphId} (hrole : source.role = .call callee)
    {hop : Hop (Option ValueSource)} {seen : Trail}
    (h : enterValue library spot.path link.source.node callee (source.port link.source.port).name type = (hop, seen)) :
    spot.Settles library hop := by
  have hsource : (spot.graph library).node link.source.node = source := Graph.node_of_getElem? joins.sourceNode
  have sourceFormed := (formed.graph spot.path.graph).nodes source (Array.mem_of_getElem? joins.sourceNode)
  obtain ⟨output, port, hport, hsame, ⟨hincoming, -⟩ | ⟨-, houtput⟩⟩ :=
    sourceFormed.port?_call_cases hrole joins.sourcePort
  case inl => cases hincoming.symm.trans joins.outgoing
  obtain ⟨node, hnode, hnodeRole⟩ := Graph.of_findIdx?_role houtput
  have hnext : (spot.path.enter link.source.node callee).Valid library entry :=
    .enter valid ((congrArg GraphNode.role hsource).trans hrole)
  have hnamed : (library.graph callee).node output = node := Graph.node_of_getElem? hnode
  rw [hnamed] at hport hsame
  have hresult (other : ValueSource) : FedBy library spot other ↔
      FedBy library ⟨spot.path.enter link.source.node callee, output, port⟩ other ∨
        (library.graph callee).linksTo ⟨output, port⟩ = [] ∧ (node.port port).inline = none ∧
          other = .constant (.zero type) := by
    rw [fedBy_iff hlinks hsource]
    constructor
    · rintro (⟨op, hother, -⟩ | ⟨outer, via, port', hother, -⟩ |
        ⟨callee', output', port', node', hother, hnode', houtput', hport', next⟩)
      · cases hother.symm.trans hrole
      · cases hother.symm.trans hrole
      · obtain rfl := Role.call.inj (hother.symm.trans hrole)
        obtain rfl : output' = output := (bounded _ hnext).2 output' output node' node hnode' hnode houtput' hnodeRole
        obtain rfl := Option.some.inj (hnode'.symm.trans hnode)
        obtain rfl := Option.some.inj (hport'.symm.trans hport)
        rcases next with next | ⟨hnone, hinline, type', hkind', rfl⟩
        · exact .inl next
        · obtain rfl := PortKind.value.inj (hkind'.symm.trans (hsame.symm.trans hkind))
          exact .inr ⟨hnone, hinline, rfl⟩
    · rintro (next | ⟨hnone, hinline, rfl⟩)
      · exact .inr (.inr ⟨callee, output, port, node, hrole, hnode, hnodeRole, hport, .inl next⟩)
      · exact .inr (.inr ⟨callee, output, port, node, hrole, hnode, hnodeRole, hport,
          .inr ⟨hnone, hinline, type, hsame.symm.trans hkind, rfl⟩⟩)
  simp only [enterValue, houtput, hnamed, hport] at h
  split_ifs at h with hopen
  · obtain ⟨rfl, -⟩ := Prod.mk.inj h
    obtain ⟨hinline, hnone⟩ : (node.port port).inline = none ∧ (library.graph callee).linksTo ⟨output, port⟩ = [] := by
      simpa using hopen
    refine ⟨_, rfl, fun other => (hresult other).trans ⟨?_, fun hother => .inr ⟨hnone, hinline, hother⟩⟩⟩
    rintro (next | ⟨-, -, hother⟩)
    · obtain ⟨value, hvalue, -⟩ := (fedBy_inline_iff (by exact hnone)).mp next
      have hvalue : (((library.graph callee).node output).port port).inline = some value := hvalue
      rw [hnamed, hinline] at hvalue
      cases hvalue
    · exact hother
  · obtain ⟨rfl, -⟩ := Prod.mk.inj h
    refine fun other => (hresult other).trans (or_iff_left ?_)
    rintro ⟨hnone, hinline, -⟩
    simp [hnone, hinline] at hopen

/-- A value of an input node is the argument of the call. -/
theorem leaveThrough_settles (hlinks : (spot.graph library).linksTo spot.ref = [link])
    (hsource : (spot.graph library).node link.source.node = source) (hrole : source.role = .input)
    {hop : Hop (Option ValueSource)} {seen : Trail}
    (h : leaveThrough library spot.path link.source.node (source.port link.source.port).name = (hop, seen))
    (hclean : seen.errors = []) : spot.Settles library hop := by
  unfold leaveThrough at h
  cases hout : outward? library spot.path (source.port link.source.port).name with
  | none =>
    rw [hout] at h
    obtain ⟨-, rfl⟩ := Prod.mk.inj h
    cases hclean
  | some next =>
    rw [hout] at h
    obtain ⟨rfl, -⟩ := Prod.mk.inj h
    obtain ⟨⟨outer, via⟩, hleave, hout⟩ := Option.bind_eq_some_iff.mp hout
    obtain ⟨port, hport, hnext⟩ := Option.bind_eq_some_iff.mp hout
    obtain rfl := Option.some.inj hnext
    intro other
    rw [fedBy_iff hlinks hsource]
    constructor
    · rintro (⟨op, hother, -⟩ | ⟨outer', via', port', -, hleave', hport', next⟩ | ⟨callee, _, _, _, hother, -⟩)
      · cases hother.symm.trans hrole
      · obtain ⟨rfl, rfl⟩ := Prod.mk.inj (Option.some.inj (hleave'.symm.trans hleave))
        obtain rfl := Option.some.inj (hport'.symm.trans hport)
        exact next
      · cases hother.symm.trans hrole
    · intro next
      exact .inr (.inl ⟨outer, via, port, hrole, hleave, hport, next⟩)

/-- A hop without errors keeps what feeds a port. -/
theorem valueHop_settles (formed : library.Formed) (bounded : library.Bounded entry)
    (carries : spot.Carries library entry type) {hop : Hop (Option ValueSource)} {seen : Trail}
    (h : valueHop library spot = .ok (hop, seen)) (hclean : seen.errors = []) : spot.Settles library hop := by
  simp only [valueHop, carries.kind] at h
  split at h
  next hlinks =>
    split at h
    next value hinline =>
      obtain ⟨rfl, -⟩ := Prod.mk.inj (Except.ok.inj h)
      refine ⟨_, rfl, fun other => ?_⟩
      rw [fedBy_inline_iff hlinks, hinline]
      simp
    next =>
      obtain ⟨-, rfl⟩ := Prod.mk.inj (Except.ok.inj h)
      cases hclean
  next link others hlinks =>
    obtain ⟨source, target, joins, hkind⟩ := carries.joins formed (show link ∈ _ by simp [hlinks])
    have hsource : (spot.graph library).node link.source.node = source := Graph.node_of_getElem? joins.sourceNode
    rw [hsource] at h
    have sourceFormed := (formed.graph spot.path.graph).nodes source (Array.mem_of_getElem? joins.sourceNode)
    obtain ⟨hnoAction, hnoOutput⟩ :=
      sourceFormed.outgoing_value (GraphNode.port?_eq_some joins.sourcePort).1 joins.outgoing hkind
    obtain ⟨rfl, rfl⟩ := Prod.mk.inj (Except.ok.inj h)
    obtain ⟨hothers, hclean⟩ := List.append_eq_nil_iff.mp hclean
    obtain rfl := eq_nil_of_ambiguity hothers
    cases hrole : source.role with
    | operator op =>
      refine ⟨_, rfl, fun other => ?_⟩
      rw [fedBy_iff hlinks hsource]
      simp [hrole]
    | call callee =>
      exact enterValue_settles formed bounded carries.path hlinks joins hkind hrole rfl
    | input =>
      simp only [hrole] at hclean ⊢
      exact leaveThrough_settles hlinks hsource hrole rfl hclean
    | action a => exact absurd hrole hnoAction
    | output => exact absurd hrole hnoOutput

end Spot

/-- What the compiler finds at the end of a wire is the only thing that feeds the port. -/
theorem Library.valueSource_iff (formed : library.Formed) (bounded : library.Bounded entry) {bound : Nat} {spot : Spot}
    (carries : spot.Carries library entry type) {source : Option ValueSource} {trail : Trail}
    (h : library.valueSource bound spot = .ok (source, trail)) (hclean : trail.errors = []) :
    ∃ s, source = some s ∧ ∀ other, FedBy library spot other ↔ other = s := by
  have hstop : ∀ next source seen, (next.Carries library entry type ∧
      ∀ other, FedBy library spot other ↔ FedBy library next other) →
      next.valueHop library = .ok (.stop source, seen) → seen.errors = [] →
      ∃ s, source = some s ∧ ∀ other, FedBy library spot other ↔ other = s := by
    rintro next source seen ⟨carries, hsame⟩ hhop hclean
    obtain ⟨s, rfl, hs⟩ := Spot.valueHop_settles formed bounded carries hhop hclean
    exact ⟨s, rfl, fun other => (hsame other).trans (hs other)⟩
  have honward : ∀ next further seen, (next.Carries library entry type ∧
      ∀ other, FedBy library spot other ↔ FedBy library next other) →
      next.valueHop library = .ok (.onward further, seen) → seen.errors = [] →
      further.Carries library entry type ∧ ∀ other, FedBy library spot other ↔ FedBy library further other := by
    rintro next further seen ⟨carries, hsame⟩ hhop hclean
    have hfurther := Spot.valueHop_settles formed bounded carries hhop hclean
    exact ⟨Spot.valueHop_typed formed bounded carries hhop, fun other => (hsame other).trans (hfurther other)⟩
  exact Spot.follow_spec hstop honward ⟨carries, fun _ => Iff.rfl⟩ h hclean

end BehaviorTree
