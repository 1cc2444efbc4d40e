import BehaviorTree.Proofs.Graph.Formed
import BehaviorTree.Script.Parse
import Mathlib.Data.String.Basic

/-! What one line does to a draft. A line adds a component, a variable or a graph of a new name, completes the open
graph, or changes it by one node, one link or one inline value. The names that a node uses are looked up when its line
is read, so that everything it names is declared by then. -/

namespace BehaviorTree

/-- Everything that the spec of a node names is there, with the types of the ports that stand for it. A component
whose fields are not named may be missing. -/
def NodeSpec.Declared (catalog : Catalog) (blackboard : BlackboardLayout) : NodeSpec → Prop
  | .writeField component fields => ∀ field ∈ fields, (catalog.field? component field.1).map (·.type) = some field.2
  | .readField component field type | .lookupField _ component field type =>
    (catalog.field? component field).map (·.type) = some type
  | .writeVar var type | .readVar var type => (blackboard.get? var).map (·.type) = some type
  | .query _ var => (blackboard.get? var).isSome
  | _ => True

namespace Script

open Refusal

/-! ### The lines of a text -/

section

open String

/-- The parts of `r` come after all parts before; the first of them continues `m`. -/
theorem splitOnAux_lineFeed (l m r : List Char) (parts : List String) :
    (ofList (l ++ m ++ r)).splitOnAux "\n" ⟨utf8Len l⟩ ⟨utf8Len l + utf8Len m⟩ 0 parts =
      parts.reverse ++ (List.splitOnPPrepend (· = '\n') r m.reverse).map ofList := by
  induction r generalizing l m parts with
  | nil =>
    have hend := (atEnd_of_valid (l ++ m) []).mpr rfl
    have hpart := extract_of_valid l m []
    rw [utf8Len_append] at hend
    rw [splitOnAux.eq_1, if_pos hend, hpart]
    simp
  | cons c r ih =>
    have hend := (atEnd_of_valid (l ++ m) (c :: r)).not.mpr (by simp)
    have hget := get_of_valid (l ++ m) (c :: r)
    have hnext := next_of_valid (l ++ m) c r
    rw [utf8Len_append] at hend hget hnext
    have hfeed : Pos.Raw.get "\n" 0 = '\n' := by decide
    rw [splitOnAux.eq_1, if_neg hend, hget, hfeed, List.headD_cons, List.splitOnPPrepend_cons_eq_if]
    -- a line feed ends the part that was begun, any other character belongs to it
    by_cases hc : c = '\n'
    · subst hc
      have hpart := extract_of_valid l m ('\n' :: r)
      have hrest := ih (l ++ m ++ ['\n']) [] (ofList m :: parts)
      have hnextFeed : Pos.Raw.next "\n" 0 = ⟨1⟩ := by decide
      have hback : (Pos.Raw.mk (utf8Len l + utf8Len m + '\n'.utf8Size)).unoffsetBy ⟨1⟩ = ⟨utf8Len l + utf8Len m⟩ := rfl
      rw [if_pos (by decide), if_pos (by decide), hnext, hnextFeed, if_pos (by decide), hback, hpart]
      simpa [-ofList_append, Nat.add_assoc] using hrest
    · have hrest := ih l (m ++ [c]) parts
      have hback : (Pos.Raw.mk (utf8Len l + utf8Len m)).unoffsetBy 0 = ⟨utf8Len l + utf8Len m⟩ := rfl
      rw [if_neg (by simpa using hc), if_neg (by simpa using hc), hback, hnext]
      simpa [-ofList_append, Nat.add_assoc] using hrest

/-- The lines are what stands between line feeds. -/
theorem lines_eq (source : String) : lines source =
    let parts := (List.splitOnP (· = '\n') source.toList).map ofList
    if parts.getLast? = some "" then parts.dropLast else parts := by
  have hparts := splitOnAux_lineFeed [] [] source.toList []
  have hsplit : source.splitOn "\n" = (List.splitOnP (· = '\n') source.toList).map ofList := by
    rw [splitOn, if_neg (by decide)]
    simpa using hparts
  rw [lines, hsplit]

end

/-! ### Tokens -/

namespace Parser

variable {α β : Type}

/-- What holds of everything that the parser gives. -/
def Gives (m : Parser α) (post : α → Prop) : Prop :=
  ∀ tokens a tokens', m tokens = .ok (a, tokens') → post a

theorem Gives.pure {a : α} {post : α → Prop} (h : post a) : Gives (Pure.pure a) post := by
  intro tokens b tokens' hrun
  obtain ⟨rfl, -⟩ := Prod.mk.inj (Except.ok.inj hrun)
  exact h

theorem Gives.throw {cause : Cause} {post : α → Prop} : Gives (MonadExcept.throw cause) post := by
  intro tokens a tokens' hrun
  cases hrun

theorem Gives.refused {cause : Cause} {next : α → Parser β} {post : β → Prop} :
    Gives (MonadExcept.throw cause >>= next) post := by
  intro tokens b tokens' hrun
  cases hrun

theorem Gives.bind {m : Parser α} {next : α → Parser β} {post : α → Prop} {last : β → Prop} (h : Gives m post)
    (hnext : ∀ a, post a → Gives (next a) last) : Gives (m >>= next) last := by
  intro tokens b tokens' hrun
  obtain ⟨⟨a, rest⟩, hfirst, hrest⟩ := bind_eq_ok_iff.mp (show (m tokens >>= fun r => next r.1 r.2) = _ from hrun)
  exact hnext a (h _ _ _ hfirst) _ _ _ hrest

theorem gives_any (m : Parser α) : Gives m fun _ => True :=
  fun _ _ _ _ => trivial

/-- What comes before does not matter. -/
theorem Gives.after {m : Parser α} {next : α → Parser β} {last : β → Prop} (hnext : ∀ a, Gives (next a) last) :
    Gives (m >>= next) last :=
  (gives_any m).bind fun a _ => hnext a

theorem Gives.mapM {items : List α} {f : α → Parser β} {post : β → Prop} (h : ∀ a ∈ items, Gives (f a) post) :
    Gives (items.mapM f) fun results => ∀ b ∈ results, post b := by
  induction items with
  | nil =>
    rw [List.mapM_nil]
    exact .pure (by simp)
  | cons a items ih =>
    rw [List.mapM_cons]
    refine (h a (by simp)).bind fun b hb => (ih fun a ha => h a (by simp [ha])).bind fun bs hbs => .pure ?_
    exact List.forall_mem_cons.mpr ⟨hb, hbs⟩

/-- A computation that does not read tokens. -/
theorem gives_lift {result : Except Cause α} {post : α → Prop} (h : ∀ a, result = .ok a → post a) :
    Gives (liftM result) post := by
  intro tokens a tokens' hrun
  obtain ⟨b, hb, hpair⟩ := bind_eq_ok_iff.mp (show (result >>= fun a => Pure.pure (a, tokens)) = _ from hrun)
  obtain ⟨rfl, -⟩ := Prod.mk.inj (Except.ok.inj hpair)
  exact h b hb

end Parser

open BehaviorTree.Script.Parser

namespace Draft

variable {d d' : Draft}

/-- What a graph refuses, a script refuses. -/
theorem gives_ofGraph {α : Type} {result : Except GraphError α} {post : α → Prop} (h : ∀ a, result = .ok a → post a) :
    Gives (liftM (ofGraph result)) post := by
  refine gives_lift fun a ha => ?_
  cases result with
  | error e => cases ha
  | ok b => exact h a (congrArg Except.ok (Except.ok.inj ha))

/-- What a line that is accepted does to a draft. -/
inductive Step (d : Draft) : Draft → Prop
  | blank : Step d d
  | component {name : String} (fields : List (String × ValueType)) (hnew : d.catalog.get? name = none) :
    Step d { d with catalog := d.catalog.define name fields }
  | declare {name : String} (type : ValueType) (hnew : d.blackboard.get? name = none) :
    Step d { d with blackboard := (d.blackboard.declare name type).1 }
  | beginGraph {name : String} (hclosed : d.openGraph = none) (hnew : d.graphs.find? name = none) :
    Step d { d with openGraph := some (.empty name) }
  | endGraph {graph : Graph} (hopen : d.openGraph = some graph) :
    Step d { d with graphs := d.graphs.push graph, openGraph := none }
  | node {graph : Graph} (hopen : d.openGraph = some graph) {spec : NodeSpec} (known : spec.Known d.graphs)
    (declared : spec.Declared d.catalog d.blackboard) {label : String} (hnew : graph.find? label = none) :
    Step d { d with openGraph := some ((graph.add spec).1.setLabel (graph.add spec).2 label) }
  | link {graph graph' : Graph} (hopen : d.openGraph = some graph) {source target : Nat × String}
    (h : graph.connect source target = .ok graph') : Step d { d with openGraph := some graph' }
  | setValue {graph graph' : Graph} (hopen : d.openGraph = some graph) {index : Nat} {name : String} {value : Constant}
    (h : graph.setInline index name value = .ok graph') : Step d { d with openGraph := some graph' }

/-! ### Nodes -/

theorem known_graph {library : Library} {name : String} {id : GraphId} (h : library.find? name = some id) :
    (NodeSpec.call id (library.graph id)).Known library := by
  obtain ⟨hlt, -, -⟩ := Array.findIdx?_eq_some_iff_getElem.mp h
  rw [NodeSpec.Known, Library.graph, Array.getD_eq_getD_getElem?, Array.getElem?_eq_getElem hlt]
  rfl

theorem fieldType_eq_ok {component field : String} {type : ValueType} (h : d.fieldType component field = .ok type) :
    (d.catalog.field? component field).map (·.type) = some type := by
  unfold fieldType at h
  split at h
  next => cases h
  next layout hlayout =>
    split at h
    next found hfound =>
      rw [Catalog.field?, hlayout, Option.bind_some, hfound, ← Except.ok.inj h]
      rfl
    next => cases h

theorem varType_eq_ok {var : String} {type : ValueType} (h : d.varType var = .ok type) :
    (d.blackboard.get? var).map (·.type) = some type := by
  unfold varType at h
  split at h
  next slot hslot =>
    rw [hslot, ← Except.ok.inj h]
    rfl
  next => cases h

/-- What the parser looks up for a node is there: a call names a complete graph, and all other names are declared. -/
def Resolved (d : Draft) (spec : NodeSpec) : Prop :=
  spec.Known d.graphs ∧ spec.Declared d.catalog d.blackboard

theorem nodeSpec_resolved (d : Draft) (kind : String) : Gives (d.nodeSpec kind) d.Resolved := by
  have htype {component field : String} : Gives (liftM (d.fieldType component field)) fun type =>
      (d.catalog.field? component field).map (·.type) = some type := gives_lift fun _ => fieldType_eq_ok
  have hvar {var : String} : Gives (liftM (d.varType var)) fun type =>
      (d.blackboard.get? var).map (·.type) = some type := gives_lift fun _ => varType_eq_ok
  unfold nodeSpec
  split
  -- the kinds that name something
  case h_4 =>
    refine .after fun component => .after fun tokens => .bind (.mapM fun field _ => ?_) fun fields declared =>
      .pure ⟨trivial, declared⟩
    exact htype.bind fun type h => .pure h
  case h_10 => exact .after fun var => hvar.bind fun type h => .pure ⟨trivial, h⟩
  case h_11 =>
    refine .after fun id => .after fun var => hvar.bind fun type h => .pure ⟨trivial, ?_⟩
    obtain ⟨slot, hslot, -⟩ := Option.map_eq_some_iff.mp h
    exact Option.isSome_iff_exists.mpr ⟨slot, hslot⟩
  case h_14 =>
    refine .after fun name => ?_
    split
    next id h => exact .pure ⟨known_graph h, trivial⟩
    next => exact .throw
  case h_17 => exact .after fun component => .after fun field => htype.bind fun type h => .pure ⟨trivial, h⟩
  case h_18 =>
    exact .after fun lookup => .after fun component => .after fun field => htype.bind fun type h => .pure ⟨trivial, h⟩
  case h_19 => exact .after fun var => hvar.bind fun type h => .pure ⟨trivial, h⟩
  -- those that may be refused for another reason
  case h_13 =>
    refine .after fun token => ?_
    split
    · exact .pure ⟨trivial, trivial⟩
    · exact .pure ⟨trivial, trivial⟩
    · exact .throw
  case h_23 =>
    split
    · exact .after fun _ => .after fun _ => .pure ⟨trivial, trivial⟩
    · exact .after fun _ => .after fun _ => .pure ⟨trivial, trivial⟩
    · exact .throw
  all_goals
    first
    | exact .pure ⟨trivial, trivial⟩
    | exact .after fun _ => .pure ⟨trivial, trivial⟩
    | exact .after fun _ => .after fun _ => .pure ⟨trivial, trivial⟩

/-! ### Directives -/

theorem component_step (d : Draft) : Gives d.component d.Step := by
  unfold component
  refine .after fun name => .after fun tokens => .after fun fields => ?_
  split_ifs with hsome
  · exact .refused
  · exact .pure (.component fields (Option.not_isSome_iff_eq_none.mp hsome))

theorem declare_step (d : Draft) : Gives d.declare d.Step := by
  unfold declare
  refine .after fun name => .after fun token => .after fun type => ?_
  split_ifs with hsome
  · exact .refused
  · exact .pure (.declare type (Option.not_isSome_iff_eq_none.mp hsome))

theorem beginGraph_step (d : Draft) : Gives d.beginGraph d.Step := by
  unfold beginGraph
  refine .after fun name => ?_
  dsimp only
  split
  next => exact .refused
  next hopen =>
    split
    next => exact .refused
    next hnew =>
      exact .pure (.beginGraph (Option.eq_none_iff_forall_not_mem.mpr hopen) (Option.not_isSome_iff_eq_none.mp hnew))

theorem endGraph_step (d : Draft) : Gives d.endGraph d.Step := by
  unfold endGraph
  split
  next graph hopen => exact .pure (.endGraph hopen)
  next => exact .throw

theorem place_step {graph : Graph} (hopen : d.openGraph = some graph) {label : String}
    (hnew : graph.find? label = none) (kind : String) :
    Gives (do
      let spec ← d.nodeSpec kind
      let (graph, index) ← ofFault (graph.place spec)
      return { d with openGraph := some (graph.setLabel index label) }) d.Step := by
  refine .bind (d.nodeSpec_resolved kind) fun spec resolved => ?_
  have hadd : Gives (liftM (ofFault (graph.place spec))) fun placed => placed = graph.add spec := by
    refine gives_lift fun placed hplaced => ?_
    unfold Graph.place at hplaced
    split_ifs at hplaced
    · exact (Except.ok.inj hplaced).symm
    · cases hplaced
  refine .bind hadd ?_
  rintro ⟨graph', index⟩ h
  obtain ⟨rfl, rfl⟩ := Prod.mk.inj h
  exact .pure (.node hopen resolved.1 resolved.2 hnew)

theorem node_step (d : Draft) : Gives d.node d.Step := by
  unfold node
  refine .after fun label => .after fun kind => ?_
  split
  next => exact .throw
  next graph hopen =>
    split_ifs with hsome
    · exact .refused
    · exact place_step hopen (Option.not_isSome_iff_eq_none.mp hsome) kind

theorem graph_of_label {graph : Graph} {label port : String} {found : Graph × Nat × String}
    (h : (match graph.find? label with
      | some index => Pure.pure (graph, index, port)
      | none => throw (.unknownNode label) : Except Cause (Graph × Nat × String)) = .ok found) : found.1 = graph := by
  split at h
  · exact congrArg Prod.fst (Except.ok.inj h).symm
  · cases h

/-- An end of a link is in the open graph. -/
theorem openGraph_of_endpoint {token : String} {port? : Option String} {found : Graph × Nat × String}
    (h : d.endpoint token port? = .ok found) : d.openGraph = some found.1 := by
  obtain ⟨graph, hopen, h⟩ := bind_eq_ok_iff.mp h
  have hgraph : d.openGraph = some graph := by
    cases hd : d.openGraph with
    | none =>
      rw [hd] at hopen
      cases hopen
    | some other =>
      rw [hd] at hopen
      exact congrArg some (Except.ok.inj hopen)
  dsimp only at h
  split at h
  · exact graph_of_label h ▸ hgraph
  · exact graph_of_label h ▸ hgraph
  · cases h

theorem link_step (d : Draft) : Gives d.link d.Step := by
  unfold link
  refine .after fun first => .after fun second => .after fun source => ?_
  refine .bind (gives_lift fun found hfound => openGraph_of_endpoint hfound) ?_
  rintro ⟨graph, target⟩ hopen
  exact .bind (gives_ofGraph fun graph' h => h) fun graph' h => .pure (.link hopen h)

theorem setValue_step (d : Draft) : Gives d.setValue d.Step := by
  unfold setValue
  refine .after fun target => .after fun token => ?_
  refine .bind (gives_lift fun found hfound => openGraph_of_endpoint hfound) ?_
  rintro ⟨graph, index, port⟩ hopen
  exact .after fun value => .bind (gives_ofGraph fun graph' h => h) fun graph' h => .pure (.setValue hopen h)

theorem directive_step (d : Draft) (token : String) : Gives (d.directive token) d.Step := by
  unfold directive
  split
  · exact d.component_step
  · exact d.declare_step
  · exact d.beginGraph_step
  · exact d.endGraph_step
  · exact d.node_step
  · exact d.link_step
  · exact d.setValue_step
  · exact .throw

theorem line_step {text : String} (h : d.line text = .ok d') : d.Step d' := by
  unfold Draft.line at h
  split at h
  next => exact Except.ok.inj h ▸ .blank
  next token operands _ =>
    obtain ⟨⟨next, rest⟩, hdirective, h⟩ := bind_eq_ok_iff.mp h
    have hnext := d.directive_step token operands next rest hdirective
    cases rest with
    | nil => exact Except.ok.inj h ▸ hnext
    | cons => cases h

end Draft

/-! ### All lines -/

/-- What every line keeps, all lines keep. -/
theorem lines_invariant (inv : Draft → Prop) (hstep : ∀ d d', inv d → d.Step d' → inv d') {texts : List (String × Nat)}
    {d d' : Draft} (hinv : inv d)
    (h : texts.foldlM (fun d (text, index) => atLine (index + 1) (d.line text)) d = .ok d') : inv d' := by
  induction texts generalizing d with
  | nil => exact Except.ok.inj h ▸ hinv
  | cons numbered texts ih =>
    obtain ⟨text, index⟩ := numbered
    rw [List.foldlM_cons] at h
    obtain ⟨next, hline, h⟩ := bind_eq_ok_iff.mp h
    refine ih ?_ h
    dsimp only at hline
    cases hnext : d.line text with
    | error cause =>
      rw [hnext] at hline
      cases hline
    | ok found =>
      rw [hnext] at hline
      obtain rfl := Except.ok.inj hline
      exact hstep d found hinv (Draft.line_step hnext)

/-- A script has what every line keeps, from an empty draft on. -/
theorem parse_invariant (inv : Draft → Prop) (hempty : inv .empty) (hstep : ∀ d d', inv d → d.Step d' → inv d')
    {source : String} {script : Script} (h : parse source = .ok script) :
    inv ⟨script.catalog, script.blackboard, script.graphs, none⟩ := by
  obtain ⟨⟨catalog, blackboard, graphs, openGraph⟩, hlines, h⟩ := bind_eq_ok_iff.mp h
  have hinv := lines_invariant inv hstep hempty hlines
  cases openGraph with
  | some graph => cases h
  | none =>
    unfold Draft.finish at h
    dsimp only at h
    split_ifs at h
    · cases h
    · obtain rfl := Except.ok.inj h
      exact hinv

end Script

end BehaviorTree
