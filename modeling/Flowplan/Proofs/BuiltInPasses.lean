import Flowplan.Pass.Registry
import Flowplan.Proofs.FaithfulPasses
import Flowplan.Proofs.PassTurns

/-!
# Runs of the built-in passes

Each of the built-in passes comes down to a change of single elements: the default parallelism goes
to the vertices that hold none (`Vertex.sized`), and shuffles read raw bytes (`Edge.decoded`). One
pass reaches the vertices by the order of the graph, the other one reaches the edges as incoming
edges of vertices; in a sound graph both come to all elements.

The two changes are of different elements, and repeating one changes nothing. So what a pipeline of
these passes makes of a graph depends on which of them are in it, and not on how often or in what
order. It fails only if an edge lacks a pattern that the decoding pass asks for.
-/

namespace Flowplan

/-! ## Values stored on selected elements -/

namespace Bag

/-- The bag with a value put in its place. -/
def storing (bag : Bag) (value : Value) : Bag :=
  { bag with values := put value bag.values }

/-- A stored value is read under its own kind, and under any other kind what was there before. -/
theorem get?_storing (bag : Bag) (value : Value) (kind : Kind) :
    (bag.storing value).get? kind = if value.kind = kind then some value else bag.get? kind :=
  find?_put value bag.values kind

/-- Storing a value once more changes nothing. -/
theorem storing_storing (bag : Bag) (value : Value) :
    (bag.storing value).storing value = bag.storing value := by
  simp only [storing, put_put]

/-- A value that the bag does not object to is stored. -/
theorem set_of_accepted {bag : Bag} {value : Value} (accepted : bag.objection (some value) = none) :
    bag.set (some value) = .ok (bag.storing value) :=
  (set_ok_iff bag _ value).mpr ⟨accepted, rfl⟩

/-- A bag for vertices accepts every positive parallelism. -/
theorem accepts_parallelism {bag : Bag} (target : bag.target = .vertex) {instances : Int}
    (positive : 1 ≤ instances) : bag.objection (some (.parallelism instances)) = none := by
  have notLess : ¬ instances < 1 := by omega
  have declared : (Value.parallelism instances).kind.declared = true := by rfl
  have annotates : (Value.parallelism instances).kind.target = .vertex := by rfl
  simp [objection, target, declared, annotates, Value.objection, notLess]

/-- A bag for edges accepts the decoder of raw bytes. -/
theorem accepts_bytesDecoder {bag : Bag} (target : bag.target = .edge) :
    bag.objection (some Value.bytesDecoder) = none := by
  have accepted : (Bag.empty .edge).objection (some Value.bytesDecoder) = none := by decide
  rw [objection_congr bag (.empty .edge) target, accepted]

end Bag

namespace Element

/-- Whether an element is a vertex without a parallelism. -/
def lacksParallelism : Element → Bool
  | .vertex v => !v.bag.has .parallelism
  | .edge _ => false

/-- The element with another bag. -/
def withBag : Element → Bag → Element
  | .vertex v, bag => .vertex { v with bag := bag }
  | .edge e, bag => .edge { e with bag := bag }

/-- The element with a value put in its bag, if it is selected. -/
def storing (selects : Element → Bool) (value : Value) (element : Element) : Element :=
  if selects element then element.withBag (element.bag.storing value) else element

/-- Storing a value twice is storing it once, selected again or not. -/
theorem storing_storing (selects : Element → Bool) (value : Value) (element : Element) :
    (element.storing selects value).storing selects value = element.storing selects value := by
  by_cases selected : selects element = true
  · have again : (element.withBag (element.bag.storing value)).withBag
        ((element.withBag (element.bag.storing value)).bag.storing value) =
          element.withBag (element.bag.storing value) := by
      cases element <;> simp only [withBag, bag, Bag.storing_storing]
    simp only [storing, selected, ↓reduceIte, again, ite_self]
  · simp only [storing, selected, Bool.false_eq_true, ↓reduceIte]

/-- Storing a value does not change which elements a bag is for. -/
theorem target_storing (selects : Element → Bool) (value : Value) (element : Element) :
    (element.storing selects value).bag.target = element.bag.target := by
  unfold storing
  split
  · cases element <;> rfl
  · rfl

end Element

namespace JobGraph

/-- Replacing one bag changes the element at its place, and no other. -/
theorem element?_setBag (graph : JobGraph) (place asked : Place) (bag : Bag) :
    (graph.setBag place bag).element? asked =
      if asked = place then (graph.element? asked).map (·.withBag bag)
      else graph.element? asked := by
  cases place with
  | vertex position =>
      cases asked with
      | vertex other =>
          by_cases here : position = other
          · subst here
            cases stands : graph.vertices[position]? <;>
              simp [setBag, element?, Dag.reviseVertex, stands, Element.withBag]
          · simp [setBag, element?, Dag.reviseVertex, here, Ne.symm here]
      | edge other => simp [setBag, element?, Dag.reviseVertex]
  | edge position =>
      cases asked with
      | vertex other => simp [setBag, element?, Dag.reviseEdge]
      | edge other =>
          by_cases here : position = other
          · subst here
            cases stands : graph.edges[position]? <;>
              simp [setBag, element?, Dag.reviseEdge, stands, Element.withBag]
          · simp [setBag, element?, Dag.reviseEdge, here, Ne.symm here]

/-- Graphs with the same index, order and elements are the same. -/
theorem eq_of_elements {graph other : JobGraph} (ids : other.ids = graph.ids)
    (links : other.links = graph.links) (order : other.order = graph.order)
    (same : ∀ place, other.element? place = graph.element? place) : other = graph := by
  have vertices : other.vertices = graph.vertices := by
    apply List.ext_getElem?
    intro position
    exact Option.map_injective (fun _ _ equal => Element.vertex.inj equal) (same (.vertex position))
  have edges : other.edges = graph.edges := by
    apply List.ext_getElem?
    intro position
    exact Option.map_injective (fun _ _ equal => Element.edge.inj equal) (same (.edge position))
  cases graph
  cases other
  simp_all

/-- No selected element refuses a value. -/
def Accepts (graph : JobGraph) (selects : Element → Bool) (value : Value) : Prop :=
  ∀ place element, graph.element? place = some element → selects element = true →
    element.bag.objection (some value) = none

/-- Reaching a place stores the value there, if the element is selected. -/
theorem Accepts.setWhere_cons {graph : JobGraph} {selects : Element → Bool} {value : Value}
    (accepts : graph.Accepts selects value) (place : Place) (rest : List Place) :
    ∃ changed : JobGraph,
      graph.setWhere selects (some value) (place :: rest) =
        changed.setWhere selects (some value) rest ∧
      ∀ asked, changed.element? asked = (graph.element? asked).map fun element =>
        if asked = place then element.storing selects value else element := by
  rw [setWhere]
  by_cases chosen : (graph.element? place).any selects = true
  · obtain ⟨element, found, selected⟩ := (Option.any_eq_true _ _).mp chosen
    have stored : graph.setAt place (some value) =
        .ok (graph.setBag place (element.bag.storing value)) := by
      rw [setAt, found]
      simp only [Bag.set_of_accepted (accepts place element found selected), Except.map]
    refine ⟨_, by rw [if_pos chosen, stored], ?_⟩
    intro asked
    rw [element?_setBag]
    by_cases here : asked = place
    · subst here
      simp [found, Element.storing, selected]
    · simp [here]
  · refine ⟨graph, if_neg chosen, ?_⟩
    intro asked
    cases found : graph.element? asked with
    | none => rfl
    | some element =>
        by_cases here : asked = place
        · subst here
          have refused : selects element = false := by simpa [found] using chosen
          simp [Element.storing, refused]
        · simp [here]

/-- If no selected element refuses a value, it is stored on all those that are reached, and nothing
else changes. A place may be reached more than once. -/
theorem Accepts.setWhere_stores {graph : JobGraph} {selects : Element → Bool} {value : Value}
    (accepts : graph.Accepts selects value) (places : List Place) :
    ∃ after, graph.setWhere selects (some value) places = (none, after) ∧
      ∀ asked, after.element? asked = (graph.element? asked).map fun element =>
        if asked ∈ places then element.storing selects value else element := by
  induction places generalizing graph with
  | nil => exact ⟨graph, rfl, fun asked => by simp⟩
  | cons place rest inductionHypothesis =>
      obtain ⟨changed, goesOn, now⟩ := accepts.setWhere_cons place rest
      have still : changed.Accepts selects value := by
        intro asked element found selected
        rw [now] at found
        obtain ⟨former, wasThere, rfl⟩ := Option.map_eq_some_iff.mp found
        by_cases chosen : selects former = true
        · rw [Bag.objection_congr _ former.bag]
          · exact accepts asked former wasThere chosen
          · split
            · exact former.target_storing selects value
            · rfl
        · have same : former.storing selects value = former := if_neg chosen
          simp only [same, ite_self] at selected
          exact absurd selected chosen
      obtain ⟨after, stored, elements⟩ := inductionHypothesis still
      refine ⟨after, goesOn.trans stored, ?_⟩
      intro asked
      rw [elements, now, Option.map_map]
      congr 1
      funext element
      by_cases here : asked = place <;> by_cases later : asked ∈ rest <;>
        simp [here, later, Element.storing_storing]

/-- If all selected elements are reached, the value is stored on all of them. -/
theorem Accepts.setWhere_all {graph expected : JobGraph} {selects : Element → Bool} {value : Value}
    (accepts : graph.Accepts selects value) (places : List Place)
    (reached : ∀ place element, graph.element? place = some element → selects element = true →
      place ∈ places)
    (ids : expected.ids = graph.ids) (links : expected.links = graph.links)
    (order : expected.order = graph.order)
    (elements : ∀ place, expected.element? place =
      (graph.element? place).map (Element.storing selects value)) :
    graph.setWhere selects (some value) places = (none, expected) := by
  obtain ⟨after, stored, now⟩ := accepts.setWhere_stores places
  have alike := setWhere_alike stored
  have same : after = expected := by
    refine eq_of_elements (alike.ids.trans ids.symm) (alike.links.trans links.symm)
      (alike.order.trans order.symm) ?_
    intro place
    rw [now, elements]
    cases found : graph.element? place with
    | none => rfl
    | some element =>
        by_cases selected : selects element = true
        · simp [reached place element found selected]
        · have same : element.storing selects value = element := if_neg selected
          simp [same]
  rw [stored, same]

end JobGraph

/-! ## What the passes make of a graph -/

/-- The vertex with a given parallelism, unless it holds one. -/
def Vertex.sized (instances : Int) (vertex : Vertex) : Vertex :=
  if vertex.bag.has .parallelism then vertex
  else { vertex with bag := vertex.bag.storing (.parallelism instances) }

/-- The edge with the decoder of raw bytes, if it shuffles. -/
def Edge.decoded (edge : Edge) : Edge :=
  if edge.isShuffle then { edge with bag := edge.bag.storing .bytesDecoder } else edge

namespace Vertex

variable (instances : Int) (vertex : Vertex)

/-- A vertex keeps its id when it gets a parallelism. -/
theorem id_sized : (vertex.sized instances).id = vertex.id := by
  unfold sized
  split <;> rfl

/-- A vertex keeps its transform when it gets a parallelism. -/
theorem transform_sized : (vertex.sized instances).transform = vertex.transform := by
  unfold sized
  split <;> rfl

/-- The given parallelism is read from a vertex that held none, and everything else is read as
before. -/
theorem get?_sized (kind : Kind) :
    (vertex.sized instances).bag.get? kind =
      if kind = .parallelism ∧ vertex.bag.get? .parallelism = none then
        some (.parallelism instances)
      else vertex.bag.get? kind := by
  cases held : vertex.bag.get? .parallelism with
  | some value => simp [sized, Bag.has, held]
  | none =>
      simp only [sized, Bag.has, held, Option.isSome_none, Bool.false_eq_true, ↓reduceIte,
        Bag.get?_storing, Value.kind, eq_comm, and_true]

/-- A vertex that got a parallelism holds one, whether it did before or not. -/
theorem has_sized : (vertex.sized instances).bag.has .parallelism = true := by
  unfold Bag.has
  rw [get?_sized]
  cases vertex.bag.get? .parallelism <;> rfl

/-- A second time changes nothing. -/
theorem sized_comp_sized :
    Vertex.sized instances ∘ Vertex.sized instances = Vertex.sized instances :=
  funext fun vertex => if_pos (vertex.has_sized instances)

end Vertex

namespace Edge

variable (edge : Edge)

/-- An edge keeps its id and its ends when it gets a decoder. -/
theorem link_decoded : edge.decoded.link = edge.link := by
  unfold decoded
  split <;> rfl

/-- An edge keeps its source when it gets a decoder. -/
theorem source_decoded : edge.decoded.source = edge.source :=
  congrArg Link.source edge.link_decoded

/-- An edge keeps its destination when it gets a decoder. -/
theorem destination_decoded : edge.decoded.destination = edge.destination :=
  congrArg Link.destination edge.link_decoded

/-- The decoder of raw bytes is read from a shuffle, and everything else is read as before. -/
theorem get?_decoded (kind : Kind) :
    edge.decoded.bag.get? kind =
      if kind = .decoder ∧ edge.isShuffle = true then some .bytesDecoder
      else edge.bag.get? kind := by
  cases shuffles : edge.isShuffle with
  | false => simp [decoded, shuffles]
  | true =>
      simp only [decoded, shuffles, ↓reduceIte, Bag.get?_storing, Value.bytesDecoder, Value.kind,
        eq_comm, and_true]

/-- A decoded edge reads as before under every kind but that of decoders. -/
theorem get?_decoded_of_ne {kind : Kind} (other : kind ≠ .decoder) :
    edge.decoded.bag.get? kind = edge.bag.get? kind := by
  rw [get?_decoded, if_neg fun both => other both.1]

/-- A decoded edge has the pattern it had. -/
theorem pattern?_decoded : edge.decoded.pattern? = edge.pattern? := by
  unfold pattern? Bag.pattern?
  rw [get?_decoded_of_ne edge (by decide)]

/-- A decoded edge holds a value for its pattern exactly if it did before. -/
theorem has_pattern_decoded :
    edge.decoded.bag.has .communicationPattern = edge.bag.has .communicationPattern := by
  unfold Bag.has
  rw [get?_decoded_of_ne edge (by decide)]

/-- A decoded edge shuffles exactly if it did before. -/
theorem isShuffle_decoded : edge.decoded.isShuffle = edge.isShuffle := by
  rw [isShuffle, pattern?_decoded, isShuffle]

/-- Decoding an edge once more changes nothing. -/
theorem decoded_comp_decoded : Edge.decoded ∘ Edge.decoded = Edge.decoded := by
  funext edge
  rw [Function.comp_apply]
  cases shuffles : edge.isShuffle with
  | false => simp [decoded, shuffles]
  | true =>
      have again : edge.decoded.isShuffle = true := edge.isShuffle_decoded.trans shuffles
      have now : edge.decoded = { edge with bag := edge.bag.storing .bytesDecoder } :=
        if_pos shuffles
      rw [decoded, if_pos again, now, Bag.storing_storing]

end Edge

namespace JobGraph

/-- The graph with a given parallelism on all vertices that hold none. -/
def sized (instances : Int) (graph : JobGraph) : JobGraph :=
  { graph with vertices := graph.vertices.map (Vertex.sized instances) }

/-- The graph whose shuffles read raw bytes. -/
def decoded (graph : JobGraph) : JobGraph :=
  { graph with edges := graph.edges.map Edge.decoded }

/-- Storing the default parallelism in topological order gives it to every vertex that lacks one. -/
theorem Sound.setWhere_sized {graph : JobGraph} (sound : graph.Sound) {instances : Int}
    (positive : 1 ≤ instances) :
    graph.setWhere Element.lacksParallelism (some (.parallelism instances))
      (graph.order.map .vertex) = (none, graph.sized instances) := by
  have isVertex : ∀ place element, graph.element? place = some element →
      element.lacksParallelism = true → ∃ position vertex, place = .vertex position ∧
        graph.vertices[position]? = some vertex ∧ element = .vertex vertex := by
    rintro (position | position) element found lacks
    · obtain ⟨vertex, stands, rfl⟩ := Option.map_eq_some_iff.mp found
      exact ⟨position, vertex, rfl, stands, rfl⟩
    · obtain ⟨edge, _, rfl⟩ := Option.map_eq_some_iff.mp found
      cases lacks
  refine Accepts.setWhere_all ?_ _ ?_ rfl rfl rfl ?_
  · intro place element found lacks
    obtain ⟨position, vertex, rfl, stands, rfl⟩ := isVertex place element found lacks
    have target := (sound.vertices vertex (List.mem_of_getElem? stands)).target_eq
    exact Bag.accepts_parallelism target positive
  · intro place element found lacks
    obtain ⟨position, vertex, rfl, stands, rfl⟩ := isVertex place element found lacks
    obtain ⟨inside, _⟩ := List.getElem?_eq_some_iff.mp stands
    exact List.mem_map_of_mem (sound.intact.whole position inside)
  · rintro (position | position)
    · simp only [sized, element?, List.getElem?_map, Option.map_map]
      congr 1
      funext vertex
      cases held : vertex.bag.has .parallelism <;>
        simp [Vertex.sized, Element.storing, Element.lacksParallelism, Element.withBag,
          Element.bag, held]
    · simp only [sized, element?, Option.map_map]
      rfl

/-- Every shuffle is among the incoming edges of some vertex, so all of them read raw bytes. -/
theorem Sound.setWhere_decoded {graph : JobGraph} (sound : graph.Sound) :
    graph.setWhere Element.isShuffle (some Value.bytesDecoder)
      (graph.vertices.flatMap fun vertex => graph.incomingPlaces vertex.id) =
        (none, graph.decoded) := by
  have isEdge : ∀ place element, graph.element? place = some element →
      element.isShuffle = true → ∃ position edge, place = .edge position ∧
        graph.edges[position]? = some edge ∧ element = .edge edge := by
    rintro (position | position) element found shuffles
    · obtain ⟨vertex, _, rfl⟩ := Option.map_eq_some_iff.mp found
      cases shuffles
    · obtain ⟨edge, stands, rfl⟩ := Option.map_eq_some_iff.mp found
      exact ⟨position, edge, rfl, stands, rfl⟩
  refine Accepts.setWhere_all ?_ _ ?_ rfl rfl rfl ?_
  · intro place element found shuffles
    obtain ⟨position, edge, rfl, stands, rfl⟩ := isEdge place element found shuffles
    exact Bag.accepts_bytesDecoder (sound.edges edge (List.mem_of_getElem? stands)).target_eq
  · intro place element found shuffles
    obtain ⟨position, edge, rfl, stands, rfl⟩ := isEdge place element found shuffles
    -- the index knows the edge by its ends, and its destination is one of the vertices
    have linked : graph.links[position]? = some edge.link := by
      rw [sound.intact.linked, List.getElem?_map, stands, Option.map_some]
      rfl
    have known := (sound.ends_known edge (List.mem_of_getElem? stands)).2
    rw [sound.ids_eq] at known
    obtain ⟨vertex, member, named⟩ := List.mem_map.mp known
    refine List.mem_flatMap.mpr ⟨vertex, member, List.mem_map.mpr ⟨(edge.link, position), ?_, rfl⟩⟩
    refine List.mem_filter.mpr ⟨List.mem_zipIdx_iff_getElem?.mpr linked, ?_⟩
    exact decide_eq_true named.symm
  · rintro (position | position)
    · simp only [decoded, element?, Option.map_map]
      rfl
    · simp only [decoded, element?, List.getElem?_map, Option.map_map]
      congr 1
      funext edge
      cases shuffles : edge.isShuffle <;>
        simp [Edge.decoded, Element.storing, Element.isShuffle, Element.withBag, Element.bag,
          shuffles]

/-- A made graph is still made when its vertices have got a parallelism. -/
theorem Made.sized {graph : JobGraph} (made : graph.Made) {instances : Int}
    (positive : 1 ≤ instances) : (graph.sized instances).Made :=
  made.setWhere (made.sound.setWhere_sized positive)

/-- A made graph is still made when its shuffles have got a decoder. -/
theorem Made.decoded {graph : JobGraph} (made : graph.Made) : graph.decoded.Made :=
  made.setWhere made.sound.setWhere_decoded

end JobGraph

namespace Pass

variable {graph : JobGraph} {instances : Int}

/-- The pass for the default parallelism works on the graph given, and hands it back. -/
theorem defaultParallelism_apply (sound : graph.Sound) (positive : 1 ≤ instances) :
    (defaultParallelism instances).apply graph = ⟨graph.sized instances, .same, false⟩ := by
  have atLeast : max instances 1 = instances := max_eq_left positive
  have stored := sound.setWhere_sized positive
  simp only [defaultParallelism, atLeast]
  split
  · rename_i failed
    cases stored.symm.trans failed
  · rename_i done
    rw [(Prod.mk.inj (done.symm.trans stored)).2]

/-- The pass for decoders works on the graph given, and hands it back. -/
theorem shuffleEdgeDecoder_apply (sound : graph.Sound) :
    shuffleEdgeDecoder.apply graph = ⟨graph.decoded, .same, false⟩ := by
  simp only [shuffleEdgeDecoder, sound.setWhere_decoded]

/-- The pass for the default parallelism has no prerequisites. -/
theorem defaultParallelism_prepared (instances : Int) (graph : JobGraph) :
    (defaultParallelism instances).Prepared graph := by
  intro kind needed
  cases needed

/-- The default parallelism is there afterwards, on every vertex. -/
theorem defaultParallelism_delivered (sound : graph.Sound) (instances : Int) :
    (defaultParallelism instances).Delivered (graph.sized instances) := by
  intro element member annotates _
  rcases List.mem_append.mp member with listed | listed
  · obtain ⟨vertex, inOrder, rfl⟩ := List.mem_map.mp listed
    obtain ⟨position, _, stands⟩ := List.mem_filterMap.mp inOrder
    obtain ⟨former, _, rfl⟩ := List.mem_map.mp (List.mem_of_getElem? stands)
    exact former.has_sized instances
  · obtain ⟨edge, inGraph, rfl⟩ := List.mem_map.mp listed
    have target : edge.bag.target = .edge := (sound.edges edge inGraph).target_eq
    have other : Target.edge = Kind.parallelism.target := target.symm.trans annotates
    exact absurd other (by decide)

/-- Shuffles have a decoder afterwards. -/
theorem shuffleEdgeDecoder_delivered (graph : JobGraph) :
    shuffleEdgeDecoder.Delivered graph.decoded := by
  intro element member _ promised
  have shuffles : element.isShuffle = true := promised Element.isShuffle rfl
  rcases List.mem_append.mp member with listed | listed
  · obtain ⟨vertex, _, rfl⟩ := List.mem_map.mp listed
    cases shuffles
  · obtain ⟨edge, inGraph, rfl⟩ := List.mem_map.mp listed
    obtain ⟨former, _, rfl⟩ := List.mem_map.mp inGraph
    have wasShuffle : former.isShuffle = true := former.isShuffle_decoded ▸ shuffles
    change (former.decoded.bag.get? .decoder).isSome = true
    rw [former.get?_decoded, if_pos ⟨rfl, wasShuffle⟩, Option.isSome_some]

/-- The decoding pass complains about the edges that lack a pattern. -/
theorem shuffleEdgeDecoder_unmet (sound : graph.Sound) :
    shuffleEdgeDecoder.unmetPrerequisites graph =
      (graph.edges.filter fun edge => !edge.bag.has .communicationPattern).map fun edge =>
        .precondition shuffleEdgeDecoderName Kind.communicationPattern.name edge.label := by
  have noVertex : ((graph.topological.map Element.vertex).filter fun element =>
      shuffleEdgeDecoder.needsOn .communicationPattern element &&
        !element.bag.has .communicationPattern) = [] := by
    rw [List.filter_eq_nil_iff]
    intro element listed needed
    obtain ⟨vertex, inOrder, rfl⟩ := List.mem_map.mp listed
    have target : vertex.bag.target = .vertex :=
      (sound.vertices vertex (sound.intact.topological_perm.mem_iff.mp inOrder)).target_eq
    have annotates := ((needsOn_iff _ _ _).mp (Bool.and_eq_true_iff.mp needed).1).1
    exact absurd (target.symm.trans annotates) (by decide)
  have edges : ((graph.edges.map Element.edge).filter fun element =>
      shuffleEdgeDecoder.needsOn .communicationPattern element &&
        !element.bag.has .communicationPattern) =
      (graph.edges.filter fun edge => !edge.bag.has .communicationPattern).map .edge := by
    rw [List.filter_map]
    congr 1
    apply List.filter_congr
    intro edge member
    have target : edge.bag.target = .edge := (sound.edges edge member).target_eq
    have needed : shuffleEdgeDecoder.needsOn .communicationPattern (.edge edge) = true :=
      (needsOn_iff _ _ _).mpr ⟨target, fun _ narrowed => nomatch narrowed⟩
    rw [Function.comp_apply, needed, Bool.true_and]
    rfl
  have only : shuffleEdgeDecoder.prerequisites = [.communicationPattern] := rfl
  rw [unmetPrerequisites, only, List.flatMap_singleton, JobGraph.elements, List.filter_append,
    noVertex, edges, List.nil_append, List.map_map]
  rfl

/-- The decoding pass is prepared for a graph if every edge has a value for its pattern. -/
theorem shuffleEdgeDecoder_prepared_iff (sound : graph.Sound) :
    shuffleEdgeDecoder.Prepared graph ↔
      ∀ edge ∈ graph.edges, edge.bag.has .communicationPattern = true := by
  rw [← checkPrerequisites_ok_iff, checkPrerequisites, Fault.ofList_ok_iff,
    shuffleEdgeDecoder_unmet sound, List.map_eq_nil_iff, List.filter_eq_nil_iff]
  simp only [Bool.not_eq_true', Bool.not_eq_false]

end Pass

end Flowplan
