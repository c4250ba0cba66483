import Flowplan.Proofs.BuilderCalls

/-!
# Graphs changed in place

Vertices and edges can be changed after their graph was built, while the index keeps the ids and
the ends of build time. Whatever is changed, there are as many elements as the index knows of
(`Becomes`). That is enough for a sort to take every position at most once and then to end, and for
every position looked up to be the position of a vertex.

Validation follows edges from where they started when the graph was built to where they end now
(`Redirects`). So it vouches for a graph whose edges have kept their sources. A source that was
changed it does not notice: an edge turned into a self loop may pass, and so may edges turned into
a cycle.
-/

namespace Flowplan

variable {V E : Type}

/-- A change of one element, made in place. -/
inductive Change (V E : Type) where
  | vertex (position : Nat) (revise : V → V)
  | edge (position : Nat) (revise : E → E)

namespace Dag

/-- The graph after a change. The index is not touched. -/
def change (graph : Dag V E) : Change V E → Dag V E
  | .vertex position revise => graph.reviseVertex position revise
  | .edge position revise => graph.reviseEdge position revise

/-- The graph after changes one after another. -/
def afterChanges (graph : Dag V E) (changes : List (Change V E)) : Dag V E :=
  changes.foldl change graph

/-- What changes in place leave alone: the index, and how many elements there are. -/
structure Becomes (graph later : Dag V E) : Prop where
  ids : later.ids = graph.ids
  links : later.links = graph.links
  vertices : later.vertices.length = graph.vertices.length
  edges : later.edges.length = graph.edges.length

/-- A change in place leaves the index alone, and the number of elements. -/
theorem change_becomes (graph : Dag V E) (change : Change V E) :
    graph.Becomes (graph.change change) := by
  cases change with
  | vertex position revise => exact ⟨rfl, rfl, List.length_modify .., rfl⟩
  | edge position revise => exact ⟨rfl, rfl, rfl, List.length_modify ..⟩

/-- Changes behind changes leave alone what both do. -/
theorem Becomes.trans {graph later last : Dag V E} (first : graph.Becomes later)
    (second : later.Becomes last) : graph.Becomes last where
  ids := second.ids.trans first.ids
  links := second.links.trans first.links
  vertices := second.vertices.trans first.vertices
  edges := second.edges.trans first.edges

/-- However many changes are made in place, they leave the index alone, and the number of
elements. -/
theorem afterChanges_becomes (graph : Dag V E) (changes : List (Change V E)) :
    graph.Becomes (graph.afterChanges changes) := by
  induction changes generalizing graph with
  | nil => exact ⟨rfl, rfl, rfl, rfl⟩
  | cons change rest inductionHypothesis =>
      exact (change_becomes graph change).trans (inductionHypothesis (graph.change change))

end Dag

/-- One vertex leads to two others. -/
def forkCalls : List (Builder.Call Vertex Edge) :=
  [.addVertex (.bare "a" none), .addVertex (.bare "b" none), .addVertex (.bare "c" none),
    .connect (.bare "ab" "a" "b"), .connect (.bare "ac" "a" "c")]

/-- The graph built by `forkCalls`. -/
def fork : Dag Vertex Edge where
  vertices := [.bare "a" none, .bare "b" none, .bare "c" none]
  edges := [.bare "ab" "a" "b", .bare "ac" "a" "c"]
  ids := ["a", "b", "c"]
  links := [⟨"ab", "a", "b"⟩, ⟨"ac", "a", "c"⟩]
  order := [0, 1, 2]

/-- A builder hands this graph out. -/
theorem fork_built : (Builder.empty.afterCalls forkCalls).build = .ok fork := rfl

/-- The vertex under another id. -/
def Vertex.rename (id : String) (vertex : Vertex) : Vertex := { vertex with id := id }

/-- The edge from another source. -/
def Edge.startAt (source : String) (edge : Edge) : Edge := { edge with source := source }

/-- The edge to another destination. -/
def Edge.endAt (destination : String) (edge : Edge) : Edge :=
  { edge with destination := destination }

namespace Dag

/-! ## Positions looked up -/

/-- The edges found by their indexed links are edges of the graph. -/
theorem edgesWhere_subset (graph : Dag V E) (wanted : Link → Bool) :
    graph.edgesWhere wanted ⊆ graph.edges := by
  intro edge member
  obtain ⟨pair, kept, rfl⟩ := List.mem_map.mp member
  exact (List.of_mem_zip (List.mem_of_mem_filter kept)).1

variable [Node V] [Arc E] {graph later : Dag V E}

/-- After changes in place there are still as many indexed ids as vertices. -/
theorem Becomes.length_ids (becomes : graph.Becomes later) (intact : graph.Intact) :
    later.ids.length = later.size := by
  rw [becomes.ids, ← intact.filed.size_eq, size, size, becomes.vertices]

/-- As long as there is an edge, every id is looked up at the position of a vertex. -/
theorem Becomes.position_inside (becomes : graph.Becomes later) (intact : graph.Intact) {edge : E}
    (member : edge ∈ later.edges) (id : String) : later.position id < later.size := by
  rw [← becomes.length_ids intact, position, position?]
  cases found : later.ids.idxOf? id with
  | some position =>
      obtain ⟨inside, _⟩ := List.idxOf?_eq_some_iff.mp found
      exact inside
  | none =>
      -- an edge was there when the graph was built, and so was the vertex at its source
      have nonempty : graph.edges ≠ [] := by
        rw [← List.length_pos_iff, ← becomes.edges]
        exact List.length_pos_of_mem member
      obtain ⟨built, builtIn⟩ := List.exists_mem_of_ne_nil _ nonempty
      rw [becomes.ids]
      exact List.length_pos_of_mem (intact.ends built builtIn).1

/-- After changes in place, arrows still lead to positions of vertices. -/
theorem Becomes.targets_inside (becomes : graph.Becomes later) (intact : graph.Intact)
    (position target : Nat) (arrow : target ∈ later.targets position) : target < later.size := by
  obtain ⟨edge, outgoing, rfl⟩ := List.mem_map.mp arrow
  have member : edge ∈ later.edges := by
    unfold outgoingAt at outgoing
    cases stands : later.vertices[position]? with
    | none =>
        rw [stands] at outgoing
        cases outgoing
    | some vertex =>
        rw [stands, Option.elim_some] at outgoing
        exact later.edgesWhere_subset _ outgoing
  exact becomes.position_inside intact member _

/-- Looking up the vertices at chosen ends of edges finds one for each edge. -/
theorem Becomes.ends_found (becomes : graph.Becomes later) (intact : graph.Intact)
    (wanted : Link → Bool) (chosen : E → String) :
    ((later.edgesWhere wanted).filterMap fun edge =>
        later.vertices[later.position (chosen edge)]?).map some =
      (later.edgesWhere wanted).map fun edge =>
        later.vertices[((graph.vertices.map Node.id).idxOf? (chosen edge)).getD 0]? := by
  rw [← intact.indexed, ← becomes.ids]
  apply map_some_filterMap
  intro edge member
  have inside := becomes.position_inside intact (later.edgesWhere_subset wanted member)
    (chosen edge)
  rw [List.getElem?_eq_getElem inside, Option.isSome_some]

/-- However the elements of a built graph are changed, its sort takes every position at most once
and ends when nothing is ready. The positions it never takes are those whose counter is positive at
the end. Their vertices are reported, and the sort fails exactly if there are any.

Every position looked up is the position of a vertex: those taken and those whose counters are
lowered (`Loops`), those at which edges end, and those of parents and children. Validation looks up
no position but in its sort. An id which the graph did not have when it was built is looked up at
position 0. -/
theorem sort_after_changes (calls : List (Builder.Call V E)) (graph : Dag V E)
    (built : (Builder.empty.afterCalls calls).build = .ok graph) (changes : List (Change V E))
    (later : Dag V E) (changed : graph.afterChanges changes = later) :
    later.Loops later.sortStart later.sortEnd.taken later.sortEnd ∧
      later.sortEnd.taken.Nodup ∧ later.sortEnd.counters.length = later.size ∧
      (∀ position < later.size, position ∉ later.sortEnd.taken ↔
        ∃ counter, later.sortEnd.counters[position]? = some counter ∧ 0 < counter) ∧
      (later.sort = if later.stuck later.sortEnd = [] then .ok later.sortEnd.taken
        else .error (.structural (.cycle (later.stuck later.sortEnd)))) ∧
      (∀ edge ∈ later.edges, later.endPosition edge < later.size) ∧
      (∀ id, (later.parents id).map some = (later.incoming id).map fun edge =>
        later.vertices[((graph.vertices.map Node.id).idxOf? (Arc.link edge).source).getD 0]?) ∧
      ∀ id, (later.children id).map some = (later.outgoing id).map fun edge =>
        later.vertices[((graph.vertices.map Node.id).idxOf?
          (Arc.link edge).destination).getD 0]? := by
  have intact := (Builder.Reached.empty.afterCalls calls).proper.build_intact graph built |>.1
  have becomes : graph.Becomes later := changed ▸ graph.afterChanges_becomes changes
  obtain ⟨underWay, finished⟩ := sortEnd_finished later
  obtain ⟨taken, same, loops⟩ := loops_of_turns (becomes.targets_inside intact) later.size
    (sortStart_underWay later) finished
  refine ⟨?_, underWay.taken_distinct, underWay.length_counters, sortEnd_left_iff later,
    sort_by_report later, ?_, ?_, ?_⟩
  · obtain rfl : later.sortEnd.taken = taken := same
    exact loops
  · intro edge member
    exact becomes.position_inside intact member _
  · intro id
    exact becomes.ends_found intact _ _
  · intro id
    exact becomes.ends_found intact _ _

end Dag

/-- The vertex at which both edges start has got another id, so that they are not followed any more,
and the second one ends at an unknown id, which is looked up at position 0. -/
def severedFork : Dag Vertex Edge :=
  fork.afterChanges [.vertex 0 (.rename "z"), .edge 1 (.endAt "q")]

/-- Only the last vertex is taken. The two others are reported under the ids they have now, and the
lookup of children stays in range. -/
theorem severedFork_sorted :
    severedFork.sort = .error (.structural (.cycle ["z", "b"])) ∧
      severedFork.Loops severedFork.sortStart [2] severedFork.sortEnd ∧
      (severedFork.children "a").map some = [some (.bare "b" none), some (.bare "z" none)] := by
  obtain ⟨loops, _, _, _, _, _, _, children⟩ :=
    Dag.sort_after_changes forkCalls fork fork_built _ severedFork rfl
  exact ⟨rfl, loops, (children "a").trans rfl⟩

namespace Dag

variable [Node V] [Arc E] {graph later : Dag V E}

/-! ## Validation -/

/-- An edge that started at one vertex when the graph was built ends at another in the graph as it
is later. -/
def Redirects (graph later : Dag V E) (source destination : String) : Prop :=
  ∃ pair ∈ later.edges.zip graph.edges, (Arc.link pair.2).source = source ∧
    (Arc.link pair.1).destination = destination

omit [Node V] [Arc E] in
/-- Every edge of a changed graph was an edge when the graph was built. -/
theorem Becomes.zip_of_mem (becomes : graph.Becomes later) {edge : E}
    (member : edge ∈ later.edges) : ∃ former, (edge, former) ∈ later.edges.zip graph.edges := by
  obtain ⟨position, stands⟩ := List.mem_iff_getElem?.mp member
  obtain ⟨inside, _⟩ := List.getElem?_eq_some_iff.mp stands
  have former := List.getElem?_eq_getElem (becomes.edges ▸ inside)
  exact ⟨_, List.mem_iff_getElem?.mpr ⟨position, List.getElem?_zip_eq_some.mpr ⟨stands, former⟩⟩⟩

/-- The edges that sorting follows start where they did when the graph was built, and end where they
do now. -/
theorem Becomes.follows_eq (becomes : graph.Becomes later)
    (intact : graph.Intact) : later.Follows = graph.Redirects later := by
  funext source destination
  simp [Follows, Redirects, becomes.links, intact.linked, List.zip_map_right]

/-- A changed graph in which vertices have their ids of build time is filed. -/
theorem Becomes.filed (becomes : graph.Becomes later)
    (intact : graph.Intact) (indexed : later.ids = later.vertices.map Node.id)
    (known : ∀ edge ∈ later.edges, (Arc.link edge).destination ∈ later.ids) : later.Filed where
  indexed := indexed
  distinct := becomes.ids ▸ intact.distinct
  paired := by rw [becomes.links, becomes.edges, intact.filed.paired]
  starts := by
    rw [becomes.links, becomes.ids]
    exact intact.filed.starts
  ends := known

omit [Node V] in
/-- Edges that have kept their sources are followed as they stand. -/
theorem Becomes.redirects_eq (becomes : graph.Becomes later)
    (kept : ∀ pair ∈ later.edges.zip graph.edges,
      (Arc.link pair.1).source = (Arc.link pair.2).source) :
    graph.Redirects later = later.Leads := by
  funext source destination
  apply propext
  constructor
  · rintro ⟨pair, member, rfl, rfl⟩
    exact ⟨pair.1, (List.of_mem_zip member).1, kept pair member, rfl⟩
  · rintro ⟨edge, member, rfl, rfl⟩
    obtain ⟨former, paired⟩ := becomes.zip_of_mem member
    exact ⟨(edge, former), paired, (kept _ paired).symm, rfl⟩

/-- Validation of a changed graph succeeds if the vertices have the ids they were built with, the
present ends of all edges are vertices, and the edges as they are followed have no cycle. -/
theorem Becomes.validate_iff (becomes : graph.Becomes later)
    (intact : graph.Intact) :
    later.validate = .ok () ↔
      later.vertices.map Node.id = graph.vertices.map Node.id ∧
        (∀ edge ∈ later.edges, (Arc.link edge).source ∈ later.vertices.map Node.id ∧
          (Arc.link edge).destination ∈ later.vertices.map Node.id) ∧
        ∀ id, ¬ Relation.TransGen (graph.Redirects later) id id := by
  have distinct : later.ids.Nodup := becomes.ids ▸ intact.distinct
  rw [validate_ok_iff later distinct (becomes.length_ids intact), ← intact.indexed,
    ← becomes.ids, ← becomes.follows_eq intact, eq_comm]
  refine and_congr_right fun indexed => ?_
  rw [indexed]
  refine and_congr_right fun known => ?_
  exact (becomes.filed intact indexed.symm fun edge member => (known edge member).2).sorts_iff

/-- However the elements of a built graph are changed, validation succeeds exactly if the vertices
have the ids they were built with, the present ends of all edges are vertices, and no path leads
back to its start that goes from where edges started at build time to where they end now.

Then ids are distinct and edges end at vertices. If in addition no edge has got another source, then
the graph as it stands has neither a self loop nor a cycle. -/
theorem validate_after_changes (calls : List (Builder.Call V E)) (graph : Dag V E)
    (built : (Builder.empty.afterCalls calls).build = .ok graph) (changes : List (Change V E))
    (later : Dag V E) (changed : graph.afterChanges changes = later) :
    (later.validate = .ok () ↔
      later.vertices.map Node.id = graph.vertices.map Node.id ∧
        (∀ edge ∈ later.edges, (Arc.link edge).source ∈ later.vertices.map Node.id ∧
          (Arc.link edge).destination ∈ later.vertices.map Node.id) ∧
        ∀ id, ¬ Relation.TransGen (graph.Redirects later) id id) ∧
    (later.validate = .ok () →
      (later.vertices.map Node.id).Nodup ∧
        (∀ edge ∈ later.edges, (Arc.link edge).source ∈ later.vertices.map Node.id ∧
          (Arc.link edge).destination ∈ later.vertices.map Node.id) ∧
        ((∀ pair ∈ later.edges.zip graph.edges,
            (Arc.link pair.1).source = (Arc.link pair.2).source) →
          (∀ edge ∈ later.edges, (Arc.link edge).source ≠ (Arc.link edge).destination) ∧
            later.Acyclic)) := by
  have intact := (Builder.Reached.empty.afterCalls calls).proper.build_intact graph built |>.1
  have becomes : graph.Becomes later := changed ▸ graph.afterChanges_becomes changes
  refine ⟨becomes.validate_iff intact, ?_⟩
  intro valid
  obtain ⟨indexed, known, acyclic⟩ := (becomes.validate_iff intact).mp valid
  refine ⟨?_, known, ?_⟩
  · rw [indexed, ← intact.indexed]
    exact intact.distinct
  · intro kept
    rw [becomes.redirects_eq kept] at acyclic
    refine ⟨?_, acyclic⟩
    intro edge member same
    exact acyclic _ (.single ⟨edge, member, same, rfl⟩)

end Dag

/-- The vertex at which both edges start was renamed and renamed back, and the second edge ends
where the first one does. -/
def bentFork : Dag Vertex Edge :=
  fork.afterChanges [.vertex 0 (.rename "z"), .edge 1 (.endAt "b"), .vertex 0 (.rename "a")]

/-- The revised graph is valid, and without a cycle. -/
theorem bentFork_valid : bentFork.validate = .ok () ∧ bentFork.Acyclic := by
  obtain ⟨_, sound⟩ := Dag.validate_after_changes forkCalls fork fork_built _ bentFork rfl
  obtain ⟨_, _, acyclic⟩ := sound rfl
  exact ⟨rfl, (acyclic (by decide)).2⟩

/-- The first edge starts where it ends. -/
def loopedFork : Dag Vertex Edge :=
  fork.afterChanges [.edge 0 (.startAt "b")]

/-- Each of the two edges starts where the other one ends. -/
def crossedFork : Dag Vertex Edge :=
  fork.afterChanges [.edge 0 (.startAt "c"), .edge 1 (.startAt "b")]

/-- Validation notices neither the self loop of `loopedFork` nor the cycle of `crossedFork`. -/
theorem changed_sources_unnoticed :
    (Builder.empty.afterCalls forkCalls).build = .ok fork ∧
      (loopedFork.validate = .ok () ∧ ∃ edge ∈ loopedFork.edges, edge.source = edge.destination) ∧
      crossedFork.validate = .ok () ∧ ¬ crossedFork.Acyclic := by
  refine ⟨fork_built, ⟨rfl, .bare "ab" "b" "b", by decide, rfl⟩, rfl, ?_⟩
  intro acyclic
  have forth : crossedFork.Leads "c" "b" := ⟨.bare "ab" "c" "b", by decide, rfl, rfl⟩
  have back : crossedFork.Leads "b" "c" := ⟨.bare "ac" "b" "c", by decide, rfl, rfl⟩
  exact acyclic "c" (.tail (.single forth) back)

end Flowplan
