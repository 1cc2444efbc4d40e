import Mathlib
import BehaviorTree.Proofs.Compile.Extent
import BehaviorTree.Proofs.Graph.Editing
import BehaviorTree.Proofs.Script.Built

/-! Graphs are well-formed by construction. Whatever edits lead to a graph, it is well-formed; and in a script no two
graphs have one name, no two nodes of a graph have one label, and calls lead to earlier graphs, so that no graph calls
itself, not even through others. -/

namespace BehaviorTree

open Relation

namespace Graph

variable {graph graph' : Graph}

def labels (graph : Graph) : List String :=
  graph.nodes.toList.map (·.label)

theorem find?_eq_none_iff {label : String} : graph.find? label = none ↔ label ∉ graph.labels := by
  rw [find?, Array.findIdx?_eq_none_iff]
  simp [labels]

theorem getElem?_labels (graph : Graph) (index : Nat) : graph.labels[index]? = graph.nodes[index]?.map (·.label) := by
  rw [labels, List.getElem?_map, Array.getElem?_toList]

/-- A change of one node that keeps its label. -/
theorem labels_modify {index : Nat} {f : GraphNode → GraphNode} (h : ∀ node, (f node).label = node.label) :
    labels { graph with nodes := graph.nodes.modify index f } = graph.labels := by
  apply List.ext_getElem?
  intro k
  rw [getElem?_labels, getElem?_labels, Array.getElem?_modify]
  split_ifs
  · cases graph.nodes[k]? with
    | none => rfl
    | some node => exact congrArg some (h node)
  · rfl

theorem labels_setLabel (graph : Graph) (index : Nat) (label : String) :
    (graph.setLabel index label).labels = graph.labels.modify index fun _ => label := by
  apply List.ext_getElem?
  intro k
  rw [List.getElem?_modify, getElem?_labels, getElem?_labels, setLabel, Array.getElem?_modify]
  split_ifs <;> cases graph.nodes[k]? <;> rfl

/-- A node that is added and labelled brings one label. -/
theorem labels_add_setLabel (graph : Graph) (spec : NodeSpec) (label : String) :
    ((graph.add spec).1.setLabel (graph.add spec).2 label).labels = graph.labels ++ [label] := by
  have hadd : (graph.add spec).1.labels = graph.labels ++ [s!"{spec.role.name}{graph.nodes.size}"] := by
    simp [labels, add]
  rw [labels_setLabel, hadd, List.modify_eq_take_drop]
  simp [add, labels]

theorem labels_connect {source target : Nat × String} (h : graph.connect source target = .ok graph') :
    graph'.labels = graph.labels ∧ graph'.name = graph.name := by
  obtain ⟨link, rfl, -⟩ := connect_eq_ok h
  exact ⟨rfl, rfl⟩

theorem labels_setInline {index : Nat} {name : String} {value : Constant}
    (h : graph.setInline index name value = .ok graph') : graph'.labels = graph.labels ∧ graph'.name = graph.name := by
  obtain ⟨ref, -, rfl⟩ := eq_of_setInline h
  exact ⟨labels_modify fun _ => rfl, rfl⟩

end Graph

namespace Library

variable {library : Library}

def names (library : Library) : List String :=
  library.toList.map (·.name)

theorem find?_eq_none_iff {name : String} : library.find? name = none ↔ name ∉ library.names := by
  rw [find?, Array.findIdx?_eq_none_iff]
  simp [names]

/-- The first graph has a node that calls the second. -/
def Invokes (library : Library) (caller callee : GraphId) : Prop :=
  ∃ via, ((library.graph caller).node via).role = .call callee

/-- Calls lead to earlier graphs, however many follow each other. -/
theorem Built.lt_of_transGen (built : library.Built) {caller callee : GraphId}
    (h : TransGen library.Invokes caller callee) : callee < caller := by
  induction h with
  | single h =>
    obtain ⟨via, hrole⟩ := h
    exact built.call_lt hrole
  | tail _ h ih =>
    obtain ⟨via, hrole⟩ := h
    exact (built.call_lt hrole).trans ih

/-- No graph calls itself, not even through others. -/
theorem Built.acyclic (built : library.Built) (id : GraphId) : ¬TransGen library.Invokes id id :=
  fun h => lt_irrefl id (built.lt_of_transGen h)

end Library

namespace Script

/-- What every script has that is accepted. -/
structure WellFormed (script : Script) : Prop where
  graphs : ∀ graph ∈ script.graphs, graph.WellFormed script.graphs
  names : script.graphs.names.Nodup
  labels : ∀ graph ∈ script.graphs, graph.labels.Nodup
  calls : ∀ caller callee, script.graphs.Invokes caller callee → callee < caller
  acyclic : ∀ id, ¬TransGen script.graphs.Invokes id id

namespace Draft

variable {d d' : Draft}

/-- No name and no label has been given twice. -/
structure Distinct (d : Draft) : Prop where
  names : d.graphs.names.Nodup
  labels : ∀ graph ∈ d.graphs, graph.labels.Nodup
  openName : ∀ graph, d.openGraph = some graph → graph.name ∉ d.graphs.names
  openLabels : ∀ graph, d.openGraph = some graph → graph.labels.Nodup

theorem distinct_empty : empty.Distinct :=
  ⟨List.nodup_nil, fun _ h => absurd h (Array.not_mem_empty _), fun _ => nofun, fun _ => nofun⟩

theorem Distinct.reopened (distinct : d.Distinct) {graph : Graph} (hname : graph.name ∉ d.graphs.names)
    (hlabels : graph.labels.Nodup) : Distinct { d with openGraph := some graph } :=
  ⟨distinct.names, distinct.labels, fun _ h => Option.some.inj h ▸ hname, fun _ h => Option.some.inj h ▸ hlabels⟩

theorem Distinct.step (distinct : d.Distinct) (step : d.Step d') : d'.Distinct := by
  cases step with
  | blank => exact distinct
  | component | declare => exact ⟨distinct.names, distinct.labels, distinct.openName, distinct.openLabels⟩
  | beginGraph hclosed hnew => exact distinct.reopened (Library.find?_eq_none_iff.mp hnew) List.nodup_nil
  | @endGraph graph hopen =>
    refine ⟨?_, fun other hother => ?_, fun _ => nofun, fun _ => nofun⟩
    · have hnames : Library.names (d.graphs.push graph) = d.graphs.names ++ [graph.name] := by simp [Library.names]
      rw [hnames, ← List.concat_eq_append]
      exact distinct.names.concat (distinct.openName graph hopen)
    · obtain hold | rfl := Array.mem_push.mp hother
      · exact distinct.labels other hold
      · exact distinct.openLabels other hopen
  | @node graph hopen spec known declared label hnew =>
    refine distinct.reopened (distinct.openName graph hopen) ?_
    rw [Graph.labels_add_setLabel, ← List.concat_eq_append]
    exact (distinct.openLabels graph hopen).concat (Graph.find?_eq_none_iff.mp hnew)
  | @link graph graph' hopen source target h =>
    obtain ⟨hlabels, hname⟩ := Graph.labels_connect h
    exact distinct.reopened (hname ▸ distinct.openName graph hopen) (hlabels ▸ distinct.openLabels graph hopen)
  | @setValue graph graph' hopen index name value h =>
    obtain ⟨hlabels, hname⟩ := Graph.labels_setInline h
    exact distinct.reopened (hname ▸ distinct.openName graph hopen) (hlabels ▸ distinct.openLabels graph hopen)

end Draft

theorem wellFormed_of_parse {source : String} {script : Script} (h : parse source = .ok script) :
    script.WellFormed := by
  have built := built_of_parse h
  have distinct := parse_invariant Draft.Distinct Draft.distinct_empty (fun _ _ => Draft.Distinct.step) h
  exact ⟨built.wellFormed, distinct.names, distinct.labels, fun _ _ ⟨_, hrole⟩ => built.call_lt hrole, built.acyclic⟩

/-- Graphs are well-formed by construction. Whatever edits a graph comes from, it is well-formed, and edits that are
refused leave it as it was and have no part in it. A script that is accepted has well-formed graphs with names and
labels of their own, and they call earlier graphs only. -/
theorem wellFormed_by_construction :
    (∀ (library : Library) (name : String) (edits : List Graph.Edit), (∀ edit ∈ edits, edit.Known library) →
      ((Graph.empty name).edited edits).WellFormed library) ∧
    (∀ (name : String) (before after : List Graph.Edit) (edit : Graph.Edit) (e : GraphError),
      (edit.change.run ((Graph.empty name).edited before)).1 = .error e →
        (edit.change.run ((Graph.empty name).edited before)).2 = (Graph.empty name).edited before ∧
          (Graph.empty name).edited (before ++ edit :: after) = (Graph.empty name).edited (before ++ after)) ∧
    ∀ (source : String) (script : Script), parse source = .ok script → script.WellFormed :=
  ⟨fun _ name _ known => Graph.wellFormed_edited known name,
    fun _ _ after _ _ h => ⟨Graph.Edit.run_of_refused (Prod.ext h rfl), Graph.edited_of_refused h after⟩,
    fun _ _ h => wellFormed_of_parse h⟩

/-- Stores what it is called with. -/
def keeper : Graph :=
  .assemble "keep" [.input [("go", .flow), ("n", .value .int)], .writeVar "v" .int]
    [((0, "go"), (1, "in")), ((0, "n"), (1, "value"))] []

/-- Calls the keeper with a number, after a link the wrong way round was refused. -/
def keeping : List Graph.Edit :=
  [.add .root, .add (.call 0 keeper), .connect (1, "go") (0, "child"), .connect (0, "child") (1, "go"),
    .setInline 1 "n" (.int 3)]

/-- The same graphs as a script. -/
def keepingText : String :=
  "var v int\ngraph keep\nnode i input go:flow n:int\nnode w write-var v\nlink i.go w\nlink i.n w.value\nend\n" ++
    "graph main\nnode r root\nnode c call keep\nlink r.child c.go\nset c.n 3\nend"

theorem lines_keepingText : lines keepingText = ["var v int", "graph keep", "node i input go:flow n:int",
    "node w write-var v", "link i.go w", "link i.n w.value", "end", "graph main", "node r root", "node c call keep",
    "link r.child c.go", "set c.n 3", "end"] := by
  have hchars : keepingText.toList = _ :=
    String.toList_append.trans (congrArg₂ (· ++ ·) String.toList_ofList String.toList_ofList)
  rw [lines_eq, hchars]
  decide +kernel

theorem names_keepingText : (parse keepingText).map (·.graphs.names) = .ok ["keep", "main"] := by
  rw [parse, lines_keepingText]
  decide +kernel

theorem wellFormed_by_construction_keeper :
    ((Graph.empty "main").edited keeping).WellFormed #[keeper] ∧
      (Graph.empty "main").edited keeping = (Graph.empty "main").edited (keeping.eraseIdx 2) ∧
      ∃ script, parse keepingText = .ok script ∧ script.graphs.names = ["keep", "main"] ∧ script.WellFormed := by
  obtain ⟨wellFormed, refused, scripts⟩ := wellFormed_by_construction
  obtain ⟨script, hparse, hnames⟩ := Refusal.map_eq_ok_iff.mp names_keepingText
  have hwrong : ((Graph.Edit.connect (1, "go") (0, "child")).change.run
      ((Graph.empty "main").edited (keeping.take 2))).1 = .error (.wrongDirection "call1" "go") := by
    cbv
  refine ⟨wellFormed #[keeper] "main" keeping ?_, (refused "main" _ (keeping.drop 3) _ _ hwrong).2, script, hparse,
    hnames, scripts _ script hparse⟩
  intro edit hedit
  simp only [keeping, List.mem_cons, List.not_mem_nil, or_false] at hedit
  obtain rfl | rfl | rfl | rfl | rfl := hedit
  · trivial
  · rfl
  · trivial
  · trivial
  · trivial

end Script

end BehaviorTree
