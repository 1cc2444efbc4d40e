import BehaviorTree.Proofs.Script.Lines

/-! Every graph of a script that is accepted is built from nodes that call earlier graphs, from links and from inline
values. All other names of a node are declared by the line of the node, and stay declared as they are: nothing is
declared twice. -/

namespace BehaviorTree

/-! ### Declarations -/

theorem Catalog.get?_define {catalog : Catalog} {defined name : String} {layout : ComponentLayout}
    (hnew : catalog.get? defined = none) (fields : List (String × ValueType)) (h : catalog.get? name = some layout) :
    (catalog.define defined fields).get? name = some layout := by
  have hne : defined ≠ name := by
    rintro rfl
    cases hnew.symm.trans h
  change (catalog.types.insert defined _)[name]? = some layout
  rw [Std.TreeMap.getElem?_insert, if_neg (by simpa using hne)]
  exact h

theorem BlackboardLayout.get?_declare {layout : BlackboardLayout} {declared name : String} {slot : VarSlot}
    (hnew : layout.get? declared = none) (type : ValueType) (h : layout.get? name = some slot) :
    (layout.declare declared type).1.get? name = some slot := by
  have hne : declared ≠ name := by
    rintro rfl
    cases hnew.symm.trans h
  rw [declare, hnew]
  change (layout.vars.insert declared _)[name]? = some slot
  rw [Std.TreeMap.getElem?_insert, if_neg (by simpa using hne)]
  exact h

/-- What is declared may be added to. -/
theorem NodeSpec.Declared.mono {catalog catalog' : Catalog} {blackboard blackboard' : BlackboardLayout}
    (hcatalog : ∀ name layout, catalog.get? name = some layout → catalog'.get? name = some layout)
    (hblackboard : ∀ name slot, blackboard.get? name = some slot → blackboard'.get? name = some slot) {spec : NodeSpec}
    (h : spec.Declared catalog blackboard) : spec.Declared catalog' blackboard' := by
  have hfield {component field : String} {type : ValueType}
      (h : (catalog.field? component field).map (·.type) = some type) :
      (catalog'.field? component field).map (·.type) = some type := by
    obtain ⟨found, hfound, rfl⟩ := Option.map_eq_some_iff.mp h
    obtain ⟨layout, hlayout, hfound⟩ := Option.bind_eq_some_iff.mp hfound
    rw [Catalog.field?, hcatalog _ _ hlayout, Option.bind_some, hfound]
    rfl
  have hvar {var : String} {type : ValueType} (h : (blackboard.get? var).map (·.type) = some type) :
      (blackboard'.get? var).map (·.type) = some type := by
    obtain ⟨slot, hslot, rfl⟩ := Option.map_eq_some_iff.mp h
    rw [hblackboard _ _ hslot]
    rfl
  cases spec with
  | writeField component fields => exact fun field hmem => hfield (h field hmem)
  | readField | lookupField => exact hfield h
  | writeVar | readVar => exact hvar h
  | query id var =>
    obtain ⟨slot, hslot⟩ := Option.isSome_iff_exists.mp h
    exact Option.isSome_iff_exists.mpr ⟨slot, hblackboard _ _ hslot⟩
  | _ => trivial

namespace Script

namespace Draft

/-! ### Drafts -/

variable {d d' : Draft}

/-- The complete graphs are built one after the other, and the open one is built upon them. -/
structure Sound (d : Draft) : Prop where
  graphs : d.graphs.Built
  openGraph : ∀ graph, d.openGraph = some graph → graph.Built d.graphs

theorem sound_empty : empty.Sound :=
  ⟨.empty, fun _ h => nomatch h⟩

theorem Sound.reopened (sound : d.Sound) {graph : Graph} (h : graph.Built d.graphs) :
    Sound { d with openGraph := some graph } :=
  ⟨sound.graphs, fun _ hother => Option.some.inj hother ▸ h⟩

theorem Sound.step (sound : d.Sound) (step : d.Step d') : d'.Sound := by
  cases step with
  | blank => exact sound
  | component | declare => exact ⟨sound.graphs, sound.openGraph⟩
  | beginGraph => exact sound.reopened (.empty _)
  | endGraph hopen => exact ⟨.push sound.graphs (sound.openGraph _ hopen), fun _ h => nomatch h⟩
  | node hopen known => exact sound.reopened (.setLabel (.add (sound.openGraph _ hopen) known) _ _)
  | link hopen h => exact sound.reopened (.connect (sound.openGraph _ hopen) h)
  | setValue hopen h => exact sound.reopened (.setInline (sound.openGraph _ hopen) h)

/-- All that the nodes of the graphs name is declared. -/
structure Declared (d : Draft) : Prop where
  graphs : ∀ graph ∈ d.graphs, graph.Consists (NodeSpec.Declared d.catalog d.blackboard)
  openGraph : ∀ graph, d.openGraph = some graph → graph.Consists (NodeSpec.Declared d.catalog d.blackboard)

theorem declared_empty : empty.Declared :=
  ⟨fun _ h => absurd h (Array.not_mem_empty _), fun _ h => nomatch h⟩

theorem Declared.reopened (declared : d.Declared) {graph : Graph}
    (h : graph.Consists (NodeSpec.Declared d.catalog d.blackboard)) : Declared { d with openGraph := some graph } :=
  ⟨declared.graphs, fun _ hother => Option.some.inj hother ▸ h⟩

/-- New declarations change nothing of the old ones. -/
theorem Declared.grow (declared : d.Declared) {catalog : Catalog} {blackboard : BlackboardLayout}
    (hcatalog : ∀ name layout, d.catalog.get? name = some layout → catalog.get? name = some layout)
    (hblackboard : ∀ name slot, d.blackboard.get? name = some slot → blackboard.get? name = some slot) :
    Declared { d with catalog := catalog, blackboard := blackboard } :=
  ⟨fun graph hgraph => (declared.graphs graph hgraph).mono fun _ => .mono hcatalog hblackboard,
    fun graph hopen => (declared.openGraph graph hopen).mono fun _ => .mono hcatalog hblackboard⟩

theorem Declared.step (declared : d.Declared) (step : d.Step d') : d'.Declared := by
  cases step with
  | blank => exact declared
  | component fields hnew => exact declared.grow (fun _ _ => Catalog.get?_define hnew fields) fun _ _ h => h
  | declare type hnew => exact declared.grow (fun _ _ h => h) fun _ _ => BlackboardLayout.get?_declare hnew type
  | beginGraph => exact declared.reopened (Graph.consists_empty _ _)
  | endGraph hopen =>
    refine ⟨fun graph hgraph => ?_, fun _ h => nomatch h⟩
    obtain hold | rfl := Array.mem_push.mp hgraph
    · exact declared.graphs graph hold
    · exact declared.openGraph graph hopen
  | node hopen known hspec => exact declared.reopened (((declared.openGraph _ hopen).add hspec).setLabel _ _)
  | link hopen h => exact declared.reopened ((declared.openGraph _ hopen).connect h)
  | setValue hopen h => exact declared.reopened ((declared.openGraph _ hopen).setInline h)

end Draft

/-- The graphs of a script are built one after the other. -/
theorem built_of_parse {source : String} {script : Script} (h : parse source = .ok script) : script.graphs.Built :=
  (parse_invariant Draft.Sound Draft.sound_empty (fun _ _ => Draft.Sound.step) h).graphs

/-- Everything that a node of a script names is declared in the script. -/
theorem declared_of_parse {source : String} {script : Script} (h : parse source = .ok script) :
    ∀ graph ∈ script.graphs, graph.Consists (NodeSpec.Declared script.catalog script.blackboard) :=
  (parse_invariant Draft.Declared Draft.declared_empty (fun _ _ => Draft.Declared.step) h).graphs

end Script

end BehaviorTree
