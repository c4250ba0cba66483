import Flowplan.Proofs.BuilderCalls

/-!
# What built graphs answer

A builder refuses a call exactly for what it has accepted before, and a refused call leaves no
trace. So a graph is known by the accepted calls alone. Every question about it is answered by the
list of its vertices and the list of its edges, whatever the index is that finds the answer
(`Shows`): neighbours are the ends of edges, edge by edge, and roots are the vertices at which no
edge ends.
-/

namespace Flowplan

variable {V E : Type} [Node V] [Arc E]

/-! ## Calls that are refused -/

namespace Builder

omit [Arc E] in
/-- A vertex is refused exactly if its id is taken. -/
theorem addVertex_refused_iff (builder : Builder V E) (vertex : V) :
    (∃ fault, builder.addVertex vertex = .error fault) ↔ Node.id vertex ∈ builder.ids := by
  unfold addVertex
  split
  · rename_i known
    simp [known]
  · rename_i new
    simp [new]

/-- An edge is refused exactly if its id is taken, it is a loop, or one of its ends is unknown. -/
theorem connect_refused_iff (builder : Builder V E) (edge : E) :
    (∃ fault, builder.connect edge = .error fault) ↔
      (Arc.link edge).id ∈ builder.links.map Link.id ∨
        (Arc.link edge).source = (Arc.link edge).destination ∨
        (Arc.link edge).source ∉ builder.ids ∨ (Arc.link edge).destination ∉ builder.ids := by
  have sound := linkDefect_none_iff builder (Arc.link edge)
  unfold connect
  cases defect : builder.linkDefect (Arc.link edge) with
  | none =>
      obtain ⟨new, different, source, destination⟩ := sound.mp defect
      simp [new, different, source, destination]
  | some found =>
      have unsound := mt sound.mpr (by simp [defect])
      refine iff_of_true ⟨_, rfl⟩ ?_
      by_contra none
      simp only [not_or, not_not] at none
      exact unsound none

/-- Calls made again without the refused ones lead to the same builder. -/
theorem afterCalls_accepted (builder : Builder V E) (calls : List (Call V E)) :
    builder.afterCalls (builder.accepted calls) = builder.afterCalls calls := by
  induction calls generalizing builder with
  | nil => rfl
  | cons call rest inductionHypothesis =>
      cases answered : builder.answer call with
      | ok after => simp only [afterCalls, accepted, answered, inductionHypothesis]
      | error fault => simp only [afterCalls, accepted, answered, inductionHypothesis]

/-- Calls in two parts are calls one after another. -/
theorem afterCalls_append (builder : Builder V E) (calls further : List (Call V E)) :
    builder.afterCalls (calls ++ further) = (builder.afterCalls calls).afterCalls further := by
  induction calls generalizing builder with
  | nil => rfl
  | cons call rest inductionHypothesis =>
      cases answered : builder.answer call with
      | ok after =>
          simp only [List.cons_append, afterCalls, answered, inductionHypothesis]
      | error fault =>
          simp only [List.cons_append, afterCalls, answered, inductionHypothesis]

end Builder

/-! ## Questions about a graph -/

namespace Dag

/-- A graph answers by the given vertices and edges. -/
structure Shows (graph : Dag V E) (vertices : List V) (edges : List E) : Prop where
  vertices_eq : graph.vertices = vertices
  edges_eq : graph.edges = edges
  vertex?_iff : ∀ id vertex,
    graph.vertex? id = some vertex ↔ vertex ∈ vertices ∧ Node.id vertex = id
  edge?_iff : ∀ id edge, graph.edge? id = some edge ↔ edge ∈ edges ∧ (Arc.link edge).id = id
  incoming_eq : ∀ id, graph.incoming id = edges.filter fun edge => (Arc.link edge).destination = id
  outgoing_eq : ∀ id, graph.outgoing id = edges.filter fun edge => (Arc.link edge).source = id
  /-- The sources of the incoming edges, in their order. -/
  parents_eq : ∀ id, (graph.parents id).map some =
    (graph.incoming id).map fun edge => graph.vertex? (Arc.link edge).source
  /-- The destinations of the outgoing edges, in their order. -/
  children_eq : ∀ id, (graph.children id).map some =
    (graph.outgoing id).map fun edge => graph.vertex? (Arc.link edge).destination
  /-- A vertex is a child of another as often as that one is its parent. -/
  count_eq : ∀ parent child, ((graph.children parent).map Node.id).count child =
    ((graph.parents child).map Node.id).count parent
  roots_eq : graph.roots = vertices.filter fun vertex =>
    ∀ edge ∈ edges, (Arc.link edge).destination ≠ Node.id vertex
  valid : graph.validate = .ok ()

variable {graph : Dag V E}

/-- A known id is looked up at the position of its vertex. -/
theorem Grounded.getElem?_position (grounded : graph.Grounded) {id : String}
    (known : id ∈ graph.ids) : graph.vertices[graph.position id]? = graph.vertex? id := by
  have found := (grounded.filed.position?_iff id _).mpr (grounded.filed.stands known)
  rw [vertex?, found, Option.bind_some]

/-- A vertex is found under every indexed id. -/
theorem Grounded.vertex?_isSome (grounded : graph.Grounded) {id : String} (known : id ∈ graph.ids) :
    (graph.vertex? id).isSome := by
  rw [grounded.indexed] at known
  obtain ⟨vertex, member, named⟩ := List.mem_map.mp known
  rw [(grounded.vertex?_iff id vertex).mpr ⟨member, named⟩, Option.isSome_some]

/-- Looking up chosen ends of edges finds the vertices there, one for each edge. -/
theorem Grounded.ends_found (grounded : graph.Grounded) (edges : List E) (chosen : E → String)
    (known : ∀ edge ∈ edges, chosen edge ∈ graph.ids) :
    (edges.filterMap fun edge => graph.vertices[graph.position (chosen edge)]?).map some =
        edges.map fun edge => graph.vertex? (chosen edge) := by
  have looked : ∀ edge ∈ edges, graph.vertices[graph.position (chosen edge)]? =
      graph.vertex? (chosen edge) :=
    fun edge member => grounded.getElem?_position (known edge member)
  rw [List.filterMap_congr looked]
  exact map_some_filterMap fun edge member => grounded.vertex?_isSome (known edge member)

/-- The vertices found have the chosen ids. -/
theorem Grounded.ends_named (grounded : graph.Grounded) (edges : List E) (chosen : E → String)
    (known : ∀ edge ∈ edges, chosen edge ∈ graph.ids) :
    (edges.filterMap fun edge => graph.vertices[graph.position (chosen edge)]?).map Node.id =
      edges.map chosen := by
  have named : ∀ edge ∈ edges,
      (graph.vertices[graph.position (chosen edge)]?).map Node.id = some (chosen edge) := by
    intro edge member
    rw [← List.getElem?_map, ← grounded.indexed]
    exact grounded.filed.stands (known edge member)
  rw [List.map_filterMap, List.filterMap_congr named, List.filterMap_eq_map']

/-- The edges into a vertex come from known vertices. -/
theorem Grounded.incoming_known (grounded : graph.Grounded) (id : String) (edge : E)
    (member : edge ∈ graph.incoming id) : (Arc.link edge).source ∈ graph.ids := by
  rw [grounded.incoming_eq] at member
  exact (grounded.ends edge (List.mem_of_mem_filter member)).1

/-- The edges out of a vertex lead to known vertices. -/
theorem Grounded.outgoing_known (grounded : graph.Grounded) (id : String) (edge : E)
    (member : edge ∈ graph.outgoing id) : (Arc.link edge).destination ∈ graph.ids := by
  rw [grounded.outgoing_eq] at member
  exact (grounded.ends edge (List.mem_of_mem_filter member)).2.1

/-- Parents and children both count the edges from the one to the other. -/
theorem Grounded.count_children (grounded : graph.Grounded) (parent child : String) :
    ((graph.children parent).map Node.id).count child =
      ((graph.parents child).map Node.id).count parent := by
  rw [children, parents, grounded.ends_named _ _ (grounded.outgoing_known parent),
    grounded.ends_named _ _ (grounded.incoming_known child), grounded.outgoing_eq,
    grounded.incoming_eq]
  simp only [List.count, List.countP_map, List.countP_filter]
  apply List.countP_congr
  intro edge _
  simp [and_comm]

/-- The roots are the vertices at which no edge ends, in the order of insertion. -/
theorem Grounded.roots_eq (grounded : graph.Grounded) :
    graph.roots = graph.vertices.filter fun vertex =>
      ∀ edge ∈ graph.edges, (Arc.link edge).destination ≠ Node.id vertex := by
  apply List.filter_congr
  intro vertex _
  rw [grounded.incoming_eq, Bool.eq_iff_iff, List.isEmpty_iff, List.filter_eq_nil_iff]
  simp

/-- A graph as builders hand it out answers by its own vertices and edges. -/
theorem Intact.shows (intact : graph.Intact) : graph.Shows graph.vertices graph.edges where
  vertices_eq := rfl
  edges_eq := rfl
  vertex?_iff := intact.vertex?_iff
  edge?_iff := intact.edge?_iff
  incoming_eq := intact.incoming_eq
  outgoing_eq := intact.outgoing_eq
  parents_eq id := intact.ends_found _ _ (intact.incoming_known id)
  children_eq id := intact.ends_found _ _ (intact.outgoing_known id)
  count_eq := intact.count_children
  roots_eq := intact.roots_eq
  valid := intact.valid

end Dag

/-- After any calls to a fresh builder, a vertex is refused exactly if its id was accepted before,
and an edge exactly if its id was accepted before, if it is a self loop, or if one of its ends was
not accepted before. A refused call leaves the builder as it was. So the accepted calls alone lead
to the same builder and the same graph, and a graph that is handed out answers every question by
the accepted vertices and edges. -/
theorem built_by_accepted_calls (calls : List (Builder.Call V E)) :
    (∀ vertex, (∃ fault, (Builder.empty.afterCalls calls).addVertex vertex = .error fault) ↔
      Node.id vertex ∈ (Builder.Call.vertices (Builder.empty.accepted calls)).map Node.id) ∧
    (∀ edge, (∃ fault, (Builder.empty.afterCalls calls).connect edge = .error fault) ↔
      (Arc.link edge).id ∈ (Builder.Call.edges (Builder.empty.accepted calls)).map
          (fun known => (Arc.link known).id) ∨
        (Arc.link edge).source = (Arc.link edge).destination ∨
        (Arc.link edge).source ∉
          (Builder.Call.vertices (Builder.empty.accepted calls)).map Node.id ∨
        (Arc.link edge).destination ∉
          (Builder.Call.vertices (Builder.empty.accepted calls)).map Node.id) ∧
    (∀ call fault, (Builder.empty.afterCalls calls).answer call = .error fault →
      Builder.empty.afterCalls (calls ++ [call]) = Builder.empty.afterCalls calls) ∧
    Builder.empty.afterCalls (Builder.empty.accepted calls) = Builder.empty.afterCalls calls ∧
    ∀ graph, (Builder.empty.afterCalls calls).build = .ok graph →
      graph.Shows (Builder.Call.vertices (Builder.empty.accepted calls))
        (Builder.Call.edges (Builder.empty.accepted calls)) := by
  obtain ⟨vertices, edges⟩ := Builder.empty_afterCalls calls
  rw [← vertices, ← edges]
  refine ⟨?_, ?_, ?_, Builder.afterCalls_accepted _ calls, ?_⟩
  · exact Builder.addVertex_refused_iff _
  · intro edge
    rw [Builder.connect_refused_iff, Builder.links, List.map_map]
    exact Iff.rfl
  · intro call fault refused
    rw [Builder.afterCalls_append, Builder.afterCalls, refused]
    rfl
  · intro graph built
    have proper := (Builder.Reached.empty.afterCalls calls).proper
    obtain ⟨intact, sameVertices, sameEdges⟩ := proper.build_intact graph built
    rw [← sameVertices, ← sameEdges]
    exact intact.shows

/-- The refused calls of `parallelCalls` leave no trace, and both edges from `a` to `b` count. -/
theorem parallelCalls_shown :
    (∃ fault, (Builder.empty.afterCalls parallelCalls).connect (.bare "ab" "b" "a") =
        .error fault) ∧
      ∃ graph, (Builder.empty.afterCalls parallelCalls).build = .ok graph ∧
        graph.Shows [.bare "b" none, .bare "a" none] [.bare "ab" "a" "b", .bare "ab2" "a" "b"] ∧
        (graph.children "a").map Node.id = ["b", "b"] ∧
        (graph.parents "b").map Node.id = ["a", "a"] := by
  obtain ⟨_, refusedEdges, _, _, shows⟩ := built_by_accepted_calls parallelCalls
  have built : (Builder.empty.afterCalls parallelCalls).build = .ok
      { vertices := [.bare "b" none, .bare "a" none]
        edges := [.bare "ab" "a" "b", .bare "ab2" "a" "b"]
        ids := ["b", "a"]
        links := [⟨"ab", "a", "b"⟩, ⟨"ab2", "a", "b"⟩]
        order := [1, 0] } := rfl
  refine ⟨(refusedEdges _).mpr (Or.inl (by decide)), _, built, shows _ built, rfl, rfl⟩

end Flowplan
