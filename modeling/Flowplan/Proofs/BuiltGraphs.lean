import Flowplan.Graph.Builder
import Flowplan.Proofs.Arrows
import Flowplan.Proofs.Shapes

/-!
# Graphs that builders hand out

A builder is `Reached` by calls it accepted. What it refuses is exactly what would break the
graph, so a graph it hands out is `Intact`: its index agrees with its elements, ids are distinct,
every edge joins two different vertices, and its order is the result of sorting.

Of an intact graph the order is read by ids: it lists every vertex once, and the source of every
edge stands before its destination. A graph is handed out exactly when no path of edges leads
from a vertex back to itself, and it is valid.
-/

namespace Flowplan

/-! ## Results -/

section Results

variable {ε α β : Type}

/-- A computation of two parts succeeds exactly if the first one does, and the second one with its
value. -/
theorem bind_eq_ok_iff (first : Except ε α) (next : α → Except ε β) (result : β) :
    first.bind next = .ok result ↔ ∃ value, first = .ok value ∧ next value = .ok result := by
  cases first with
  | error fault => simp [Except.bind]
  | ok value => simp [Except.bind]

/-- What is made of a value is there exactly if the value is. -/
theorem map_eq_ok_iff (first : Except ε α) (next : α → β) (result : β) :
    first.map next = .ok result ↔ ∃ value, first = .ok value ∧ next value = result := by
  cases first with
  | error fault => simp [Except.map]
  | ok value => simp [Except.map]

/-- A result that is no fault is a value. -/
theorem exists_ok {result : Except ε α} (isOk : result.isOk = true) :
    ∃ value, result = .ok value := by
  cases result with
  | error fault => cases isOk
  | ok value => exact ⟨value, rfl⟩

/-- Where something is seen of a value, there is a value of which it is seen. -/
theorem ok_of_seen {result : Except ε α} {look : α → β} {seen : β}
    (shown : result.toOption.map look = some seen) :
    ∃ value, result = .ok value ∧ look value = seen := by
  cases result with
  | error fault => cases shown
  | ok value => exact ⟨value, rfl, Option.some.inj shown⟩

end Results

variable {V E : Type} [Node V] [Arc E]

namespace Builder

/-- Builders which a sequence of accepted calls leads to. -/
inductive Reached : Builder V E → Prop
  | empty : Reached .empty
  | addVertex {builder after : Builder V E} (vertex : V) (before : Reached builder)
      (accepted : builder.addVertex vertex = .ok after) : Reached after
  | connect {builder after : Builder V E} (edge : E) (before : Reached builder)
      (accepted : builder.connect edge = .ok after) : Reached after

omit [Arc E] in
/-- A vertex is accepted exactly if its id is new, and then stands behind all others. -/
theorem addVertex_ok_iff (builder after : Builder V E) (vertex : V) :
    builder.addVertex vertex = .ok after ↔
      Node.id vertex ∉ builder.ids ∧
        after = { builder with vertices := builder.vertices ++ [vertex] } := by
  unfold addVertex
  split
  · rename_i present
    simp [present]
  · rename_i absent
    simp [absent, eq_comm]

/-- There is no objection to an edge exactly if its id is new and it leads between two different
vertices which are there. -/
theorem linkDefect_none_iff (builder : Builder V E) (link : Link) :
    builder.linkDefect link = none ↔
      link.id ∉ builder.links.map Link.id ∧ link.source ≠ link.destination ∧
        link.source ∈ builder.ids ∧ link.destination ∈ builder.ids := by
  unfold linkDefect
  split
  · simp_all
  · split
    · simp_all
    · split
      · simp_all
      · split <;> simp_all

/-- An edge is accepted exactly if there is no objection to it, and then stands behind all
others. -/
theorem connect_ok_iff (builder after : Builder V E) (edge : E) :
    builder.connect edge = .ok after ↔
      builder.linkDefect (Arc.link edge) = none ∧
        after = { builder with edges := builder.edges ++ [edge] } := by
  unfold connect
  cases defect : builder.linkDefect (Arc.link edge) with
  | none => simp [eq_comm]
  | some found => simp

/-- Ids stand once, and edges join two different vertices. -/
structure Proper (builder : Builder V E) : Prop where
  distinct : builder.ids.Nodup
  distinctLinks : (builder.links.map Link.id).Nodup
  grounded : ∀ link ∈ builder.links, link.source ∈ builder.ids ∧
    link.destination ∈ builder.ids ∧ link.source ≠ link.destination

/-- A builder that holds nothing is proper. -/
theorem proper_empty : (empty : Builder V E).Proper := by
  refine ⟨List.nodup_nil, List.nodup_nil, ?_⟩
  intro link member
  cases member

/-- A vertex that is accepted leaves the builder proper. -/
theorem Proper.addVertex {builder after : Builder V E} (proper : builder.Proper) (vertex : V)
    (accepted : builder.addVertex vertex = .ok after) : after.Proper := by
  obtain ⟨new, rfl⟩ := (addVertex_ok_iff builder after vertex).mp accepted
  refine ⟨?_, proper.distinctLinks, ?_⟩
  · simpa [ids] using proper.distinct.concat new
  · intro link member
    obtain ⟨source, destination, different⟩ := proper.grounded link member
    refine ⟨?_, ?_, different⟩
    · simpa [ids] using Or.inl (by simpa [ids] using source)
    · simpa [ids] using Or.inl (by simpa [ids] using destination)

/-- An edge that is accepted leaves the builder proper. -/
theorem Proper.connect {builder after : Builder V E} (proper : builder.Proper) (edge : E)
    (accepted : builder.connect edge = .ok after) : after.Proper := by
  obtain ⟨sound, rfl⟩ := (connect_ok_iff builder after edge).mp accepted
  obtain ⟨new, different, source, destination⟩ := (linkDefect_none_iff builder _).mp sound
  refine ⟨proper.distinct, ?_, ?_⟩
  · simpa [links] using proper.distinctLinks.concat new
  · intro link member
    have cases : link ∈ builder.links ∨ link = Arc.link edge := by
      simpa [links] using member
    rcases cases with old | rfl
    · exact proper.grounded link old
    · exact ⟨source, destination, different⟩

/-- Accepted calls lead to proper builders only. -/
theorem Reached.proper {builder : Builder V E} (reached : builder.Reached) : builder.Proper := by
  induction reached with
  | empty => exact proper_empty
  | addVertex vertex _ accepted inductionHypothesis =>
      exact inductionHypothesis.addVertex vertex accepted
  | connect edge _ accepted inductionHypothesis =>
      exact inductionHypothesis.connect edge accepted

end Builder

namespace Dag

/-- The index agrees with the elements, and the elements with one another. -/
structure Grounded (graph : Dag V E) : Prop where
  indexed : graph.ids = graph.vertices.map Node.id
  linked : graph.links = graph.edges.map Arc.link
  distinct : graph.ids.Nodup
  distinctLinks : (graph.links.map Link.id).Nodup
  ends : ∀ edge ∈ graph.edges, (Arc.link edge).source ∈ graph.ids ∧
    (Arc.link edge).destination ∈ graph.ids ∧
    (Arc.link edge).source ≠ (Arc.link edge).destination

/-- A graph as builders hand it out: grounded and sorted. -/
structure Intact (graph : Dag V E) : Prop extends Grounded graph where
  sorted : graph.sort = .ok graph.order

/-- An edge goes from one vertex to another. -/
def Leads (graph : Dag V E) (source destination : String) : Prop :=
  ∃ edge ∈ graph.edges, (Arc.link edge).source = source ∧
    (Arc.link edge).destination = destination

/-- No path of edges leads from a vertex back to itself. -/
def Acyclic (graph : Dag V E) : Prop :=
  ∀ id, ¬ Relation.TransGen graph.Leads id id

/-! ## Looking up ids and edges -/

/-- In a grounded graph the vertices have their indexed ids, and edges lead between them. -/
theorem Grounded.filed {graph : Dag V E} (grounded : graph.Grounded) : graph.Filed where
  indexed := grounded.indexed
  distinct := grounded.distinct
  paired := by rw [grounded.linked, List.length_map]
  starts link member := by
    rw [grounded.linked] at member
    obtain ⟨edge, edgeIn, rfl⟩ := List.mem_map.mp member
    exact (grounded.ends edge edgeIn).1
  ends edge member := (grounded.ends edge member).2.1

/-- A vertex is found under its id, and no other is. -/
theorem Grounded.vertex?_iff {graph : Dag V E} (grounded : graph.Grounded) (id : String)
    (vertex : V) :
    graph.vertex? id = some vertex ↔ vertex ∈ graph.vertices ∧ Node.id vertex = id := by
  rw [vertex?, Option.bind_eq_some_iff, List.mem_iff_getElem?]
  simp only [grounded.filed.position?_iff, grounded.indexed, List.getElem?_map]
  constructor
  · rintro ⟨position, named, stands⟩
    rw [stands] at named
    exact ⟨⟨position, stands⟩, Option.some.inj named⟩
  · rintro ⟨⟨position, stands⟩, named⟩
    exact ⟨position, by rw [stands, Option.map_some, named], stands⟩

/-- An edge is found under its id, and no other is. -/
theorem Grounded.edge?_iff {graph : Dag V E} (grounded : graph.Grounded) (id : String) (edge : E) :
    graph.edge? id = some edge ↔ edge ∈ graph.edges ∧ (Arc.link edge).id = id := by
  have positions : graph.edgePosition? id = (graph.links.map Link.id).idxOf? id := by
    rw [edgePosition?, List.idxOf?, List.findIdx?_map]
    rfl
  have found : ∀ position, graph.edgePosition? id = some position ↔
      (graph.links.map Link.id)[position]? = some id :=
    fun position => positions ▸ idxOf?_eq_some_iff_getElem? _ grounded.distinctLinks id position
  rw [edge?, Option.bind_eq_some_iff, List.mem_iff_getElem?]
  simp only [found, grounded.linked, List.map_map, List.getElem?_map]
  constructor
  · rintro ⟨position, named, stands⟩
    rw [stands] at named
    exact ⟨⟨position, stands⟩, Option.some.inj named⟩
  · rintro ⟨⟨position, stands⟩, named⟩
    exact ⟨position, by rw [stands, Option.map_some, Function.comp_apply, named], stands⟩

/-- The edges found by the index are found by their present links. -/
theorem Grounded.edgesWhere_eq {graph : Dag V E} (grounded : graph.Grounded)
    (wanted : Link → Bool) :
    graph.edgesWhere wanted = graph.edges.filter fun edge => wanted (Arc.link edge) := by
  unfold edgesWhere
  rw [grounded.linked]
  induction graph.edges with
  | nil => rfl
  | cons edge rest inductionHypothesis =>
      by_cases chosen : wanted (Arc.link edge) = true
      · simp [chosen, inductionHypothesis]
      · simp [chosen, inductionHypothesis]

/-- The edges into a vertex are those that end there, in the order of insertion. -/
theorem Grounded.incoming_eq {graph : Dag V E} (grounded : graph.Grounded) (id : String) :
    graph.incoming id = graph.edges.filter fun edge => (Arc.link edge).destination = id :=
  grounded.edgesWhere_eq _

/-- The edges out of a vertex are those that start there, in the order of insertion. -/
theorem Grounded.outgoing_eq {graph : Dag V E} (grounded : graph.Grounded) (id : String) :
    graph.outgoing id = graph.edges.filter fun edge => (Arc.link edge).source = id :=
  grounded.edgesWhere_eq _

/-- The edges of a grounded graph are followed as they stand. -/
theorem Grounded.follows_eq {graph : Dag V E} (grounded : graph.Grounded) :
    graph.Follows = graph.Leads := by
  funext source destination
  simp [Follows, Leads, grounded.linked, ← List.map_prod_left_eq_zip]

/-- In a grounded graph the counters count the arrows which the turns follow. -/
theorem Grounded.balanced {graph : Dag V E} (grounded : graph.Grounded) : graph.Balanced :=
  grounded.filed.balanced

/-- Arrows between positions are edges between the vertices that stand there. -/
theorem Grounded.hasArrow_iff {graph : Dag V E} (grounded : graph.Grounded) (first second : Nat) :
    graph.HasArrow first second ↔ ∃ source destination, graph.ids[first]? = some source ∧
      graph.ids[second]? = some destination ∧ graph.Leads source destination := by
  rw [← grounded.follows_eq]
  exact grounded.filed.hasArrow_iff first second

/-- A grounded graph can be sorted exactly if it has no cycle. -/
theorem Grounded.sorts_iff {graph : Dag V E} (grounded : graph.Grounded) :
    (∃ order, graph.sort = .ok order) ↔ graph.Acyclic := by
  rw [grounded.filed.sorts_iff, grounded.follows_eq]
  exact Iff.rfl

/-! ## Validation -/

omit [Arc E] in
/-- No vertex is out of place if all have their indexed ids. -/
theorem vertexDefects_eq_nil_iff (graph : Dag V E) (distinct : graph.ids.Nodup)
    (length : graph.ids.length = graph.size) :
    graph.vertexDefects = [] ↔ graph.ids = graph.vertices.map Node.id := by
  have found : ∀ id position, graph.position? id = some position ↔
      graph.ids[position]? = some id :=
    idxOf?_eq_some_iff_getElem? graph.ids distinct
  constructor
  · intro nothing
    apply List.ext_getElem (by rw [List.length_map, length, size])
    intro position inside _
    have stands : position < graph.size := length ▸ inside
    have entry := List.flatten_eq_nil_iff.mp nothing _ (List.mem_mapIdx.mpr ⟨position, stands, rfl⟩)
    have placed : graph.position? (Node.id graph.vertices[position]) = some position := by
      by_contra missing
      rw [if_neg missing] at entry
      cases entry
    rw [found, List.getElem?_eq_getElem inside] at placed
    rw [List.getElem_map]
    exact Option.some.inj placed
  · intro indexed
    simp only [vertexDefects, List.flatten_eq_nil_iff, List.mem_mapIdx]
    rintro _ ⟨position, inside, rfl⟩
    refine if_pos ((found _ position).mpr ?_)
    rw [indexed, List.getElem?_map, List.getElem?_eq_getElem inside, Option.map_some]

omit [Node V] [Arc E] in
/-- The ends of a link are in order if both are indexed. -/
theorem endDefects_eq_nil_iff (graph : Dag V E) (link : Link) :
    graph.endDefects link = [] ↔ link.source ∈ graph.ids ∧ link.destination ∈ graph.ids := by
  have known : ∀ id, (graph.position? id).isSome = true ↔ id ∈ graph.ids :=
    fun _ => List.isSome_idxOf?
  simp [endDefects, known]

/-- Validation succeeds if vertices have their indexed ids, the ends of edges are indexed, and the
graph can be sorted. -/
theorem validate_ok_iff (graph : Dag V E) (distinct : graph.ids.Nodup)
    (length : graph.ids.length = graph.size) :
    graph.validate = .ok () ↔ graph.ids = graph.vertices.map Node.id ∧
      (∀ edge ∈ graph.edges, (Arc.link edge).source ∈ graph.ids ∧
        (Arc.link edge).destination ∈ graph.ids) ∧ ∃ order, graph.sort = .ok order := by
  have sound : graph.defects = [] ↔ graph.ids = graph.vertices.map Node.id ∧
      ∀ edge ∈ graph.edges, (Arc.link edge).source ∈ graph.ids ∧
        (Arc.link edge).destination ∈ graph.ids := by
    simp only [defects, List.append_eq_nil_iff, List.flatMap_eq_nil_iff, endDefects_eq_nil_iff,
      vertexDefects_eq_nil_iff graph distinct length]
  rw [← and_assoc, ← sound, validate]
  cases found : graph.defects with
  | cons defect rest => simp
  | nil => cases sorted : graph.sort <;> simp [Except.map]

/-- A graph as builders hand it out is valid. -/
theorem Intact.valid {graph : Dag V E} (intact : graph.Intact) : graph.validate = .ok () := by
  apply (validate_ok_iff graph intact.distinct intact.filed.size_eq.symm).mpr
  refine ⟨intact.indexed, ?_, _, intact.sorted⟩
  intro edge member
  obtain ⟨source, destination, _⟩ := intact.ends edge member
  exact ⟨source, destination⟩

/-! ## Orders by ids -/

/-- Every vertex has its place in the order of an intact graph. -/
theorem Intact.whole {graph : Dag V E} (intact : graph.Intact) : graph.Whole := by
  obtain ⟨positions, _⟩ := sort_ordered graph intact.balanced graph.order intact.sorted
  intro position inside
  exact positions.mem_iff.mpr (List.mem_range.mpr inside)

/-- The order lists the vertices, each once. -/
theorem Intact.topological_perm {graph : Dag V E} (intact : graph.Intact) :
    graph.topological.Perm graph.vertices := by
  obtain ⟨positions, _⟩ := sort_ordered graph intact.balanced graph.order intact.sorted
  have listed := positions.filterMap fun position => graph.vertices[position]?
  rwa [size, range_filterMap_getElem?] at listed

/-- The topological order lists the ids of all vertices. -/
theorem Intact.topological_ids_perm {graph : Dag V E} (intact : graph.Intact) :
    (graph.topological.map Node.id).Perm graph.ids := by
  rw [intact.indexed]
  exact intact.topological_perm.map Node.id

/-- No id stands in the topological order twice. -/
theorem Intact.topological_distinct {graph : Dag V E} (intact : graph.Intact) :
    (graph.topological.map Node.id).Nodup :=
  intact.topological_ids_perm.nodup_iff.mpr intact.distinct

/-- No vertex is listed before one which an edge to it starts from. -/
theorem Intact.topological_ordered {graph : Dag V E} (intact : graph.Intact) :
    (graph.topological.map Node.id).Pairwise fun earlier later => ¬ graph.Leads later earlier := by
  obtain ⟨positions, ordered⟩ := sort_ordered graph intact.balanced graph.order intact.sorted
  have byIds : graph.topological.map Node.id =
      graph.order.filterMap fun position => graph.ids[position]? := by
    simp [topological, intact.indexed, List.map_filterMap, List.getElem?_map]
  rw [byIds, List.pairwise_filterMap]
  refine List.Pairwise.imp_of_mem ?_ ordered
  intro earlier later _ laterIn notBack source atEarlier destination atLater leads
  have inside : later < graph.size := List.mem_range.mp (positions.mem_iff.mp laterIn)
  have arrow : graph.HasArrow later earlier :=
    (intact.hasArrow_iff later earlier).mpr ⟨_, _, atLater, atEarlier, leads⟩
  exact notBack arrow.2

/-- The source of every edge is listed before its destination. -/
theorem Intact.source_before {graph : Dag V E} (intact : graph.Intact)
    (source destination : String) (leads : graph.Leads source destination) :
    Before (graph.topological.map Node.id) source destination := by
  obtain ⟨edge, member, rfl, rfl⟩ := leads
  obtain ⟨sourceKnown, destinationKnown, different⟩ := intact.ends edge member
  refine before_of_pairwise (fun later earlier => graph.Leads earlier later)
    intact.topological_ordered ?_ ?_ different ⟨edge, member, rfl, rfl⟩
  · exact intact.topological_ids_perm.mem_iff.mpr sourceKnown
  · exact intact.topological_ids_perm.mem_iff.mpr destinationKnown

/-- The edges that end at the vertices, one vertex after another, are the edges, each once. -/
theorem Intact.incoming_perm {graph : Dag V E} (intact : graph.Intact) :
    (graph.topological.flatMap fun vertex => graph.incoming (Node.id vertex)).Perm graph.edges := by
  have byIds : (graph.topological.flatMap fun vertex => graph.incoming (Node.id vertex)) =
      (graph.topological.map Node.id).flatMap fun id =>
        graph.edges.filter fun edge => (Arc.link edge).destination = id := by
    rw [List.flatMap_map]
    apply List.flatMap_congr
    intro vertex _
    exact intact.incoming_eq (Node.id vertex)
  rw [byIds]
  apply flatMap_filter_perm (fun edge : E => (Arc.link edge).destination) _
    intact.topological_distinct
  intro edge member
  exact intact.topological_ids_perm.mem_iff.mpr (intact.ends edge member).2.1

/-! ## Changes which keep the shape -/

/-- A graph stays intact when its elements change in nothing but what they carry. -/
theorem Intact.congr {graph other : Dag V E} (intact : graph.Intact) (alike : graph.Alike other) :
    other.Intact where
  indexed := by rw [alike.ids, intact.indexed, alike.vertexIds]
  linked := by rw [alike.links, intact.linked, alike.edgeLinks]
  distinct := alike.ids ▸ intact.distinct
  distinctLinks := alike.links ▸ intact.distinctLinks
  ends edge member := by
    have listed : Arc.link edge ∈ graph.edges.map Arc.link :=
      alike.edgeLinks ▸ List.mem_map_of_mem member
    obtain ⟨former, formerIn, same⟩ := List.mem_map.mp listed
    rw [← same, alike.ids]
    exact intact.ends former formerIn
  sorted := by rw [alike.sort_eq, alike.order, intact.sorted]

end Dag

/-! ## Handing out a graph -/

namespace Builder

/-- The elements of a proper builder form a grounded graph, whatever order they are given. -/
theorem Proper.grounded_unsorted {builder : Builder V E} (proper : builder.Proper)
    (order : List Nat) : { builder.unsorted with order := order }.Grounded := by
  refine ⟨rfl, rfl, proper.distinct, proper.distinctLinks, ?_⟩
  intro edge member
  exact proper.grounded (Arc.link edge) (List.mem_map_of_mem member)

/-- A graph is handed out exactly when the accepted elements can be sorted. -/
theorem build_ok_iff (builder : Builder V E) (graph : Dag V E) :
    builder.build = .ok graph ↔ ∃ order, builder.unsorted.sort = .ok order ∧
      graph = { builder.unsorted with order := order } := by
  unfold build
  cases sorted : builder.unsorted.sort with
  | error fault => simp [bind, Except.bind]
  | ok order => simp [bind, Except.bind, pure, Except.pure, eq_comm]

/-- A graph handed out by a proper builder is intact and has the builder's elements. -/
theorem Proper.build_intact {builder : Builder V E} (proper : builder.Proper) (graph : Dag V E)
    (built : builder.build = .ok graph) :
    graph.Intact ∧ graph.vertices = builder.vertices ∧ graph.edges = builder.edges := by
  obtain ⟨order, sorted, rfl⟩ := (build_ok_iff builder graph).mp built
  have same : { builder.unsorted with order := order }.sort = builder.unsorted.sort :=
    Dag.sort_congr _ _ rfl rfl fun _ => rfl
  exact ⟨{ toGrounded := proper.grounded_unsorted order, sorted := same.trans sorted }, rfl, rfl⟩

/-- A proper builder with a cycle reports the vertices that cannot be sorted. -/
theorem Proper.build_cyclic {builder : Builder V E} (proper : builder.Proper)
    (cyclic : ¬ builder.unsorted.Acyclic) :
    builder.build = .error (.structural (.cycle
      (builder.unsorted.stuck builder.unsorted.sortEnd))) := by
  have answer := Dag.sort_by_report builder.unsorted
  split at answer
  · exact absurd ((proper.grounded_unsorted []).sorts_iff.mp ⟨_, answer⟩) cyclic
  · simp only [build, answer, bind, Except.bind]

/-- Whether a graph is handed out depends on cycles alone, and a cycle is the only fault. -/
theorem Proper.build_cases {builder : Builder V E} (proper : builder.Proper) :
    (builder.unsorted.Acyclic ∧ ∃ graph, builder.build = .ok graph) ∨
      ¬ builder.unsorted.Acyclic ∧
        ∃ vertices, builder.build = .error (.structural (.cycle vertices)) := by
  by_cases acyclic : builder.unsorted.Acyclic
  · obtain ⟨order, sorted⟩ := (proper.grounded_unsorted []).sorts_iff.mpr acyclic
    exact Or.inl ⟨acyclic, _, (build_ok_iff builder _).mpr ⟨order, sorted, rfl⟩⟩
  · exact Or.inr ⟨acyclic, _, proper.build_cyclic acyclic⟩

/-! ## Adding many elements -/

/-- Vertices added one after another stand behind those already there. -/
theorem Reached.addVertices {builder after : Builder V E} (reached : builder.Reached)
    (vertices : List V) (accepted : builder.addVertices vertices = .ok after) :
    after.Reached ∧ after.vertices = builder.vertices ++ vertices ∧
      after.edges = builder.edges := by
  induction vertices generalizing builder with
  | nil =>
      obtain rfl := Except.ok.inj accepted
      exact ⟨reached, by simp, rfl⟩
  | cons vertex rest inductionHypothesis =>
      cases added : builder.addVertex vertex with
      | error fault => simp [Builder.addVertices, added, bind, Except.bind] at accepted
      | ok next =>
          simp only [Builder.addVertices, added, bind, Except.bind] at accepted
          obtain ⟨reachedAfter, allVertices, sameEdges⟩ :=
            inductionHypothesis (reached.addVertex vertex added) accepted
          obtain ⟨_, rfl⟩ := (addVertex_ok_iff builder next vertex).mp added
          exact ⟨reachedAfter, by simpa using allVertices, sameEdges⟩

/-- Edges added one after another stand behind those already there. -/
theorem Reached.connectAll {builder after : Builder V E} (reached : builder.Reached)
    (edges : List E) (accepted : builder.connectAll edges = .ok after) :
    after.Reached ∧ after.vertices = builder.vertices ∧
      after.edges = builder.edges ++ edges := by
  induction edges generalizing builder with
  | nil =>
      obtain rfl := Except.ok.inj accepted
      exact ⟨reached, rfl, by simp⟩
  | cons edge rest inductionHypothesis =>
      cases connected : builder.connect edge with
      | error fault => simp [Builder.connectAll, connected, bind, Except.bind] at accepted
      | ok next =>
          simp only [Builder.connectAll, connected, bind, Except.bind] at accepted
          obtain ⟨reachedAfter, sameVertices, allEdges⟩ :=
            inductionHypothesis (reached.connect edge connected) accepted
          obtain ⟨_, rfl⟩ := (connect_ok_iff builder next edge).mp connected
          exact ⟨reachedAfter, sameVertices, by simpa using allEdges⟩

omit [Arc E] in
/-- Vertices are accepted if no id comes twice. -/
theorem addVertices_accepts (builder : Builder V E) (vertices : List V)
    (distinct : (builder.ids ++ vertices.map Node.id).Nodup) :
    ∃ after, builder.addVertices vertices = .ok after := by
  induction vertices generalizing builder with
  | nil => exact ⟨builder, rfl⟩
  | cons vertex rest inductionHypothesis =>
      have new : Node.id vertex ∉ builder.ids := by
        intro known
        exact (List.nodup_append.mp distinct).2.2 _ known _ (by simp) rfl
      have added := (addVertex_ok_iff builder _ vertex).mpr ⟨new, rfl⟩
      simp only [Builder.addVertices, added, bind, Except.bind]
      exact inductionHypothesis _ (by simpa [ids] using distinct)

/-- Edges are accepted if no id comes twice and each joins two different known vertices. -/
theorem connectAll_accepts (builder : Builder V E) (edges : List E)
    (distinct : (builder.links.map Link.id ++ edges.map fun edge => (Arc.link edge).id).Nodup)
    (grounded : ∀ edge ∈ edges, (Arc.link edge).source ∈ builder.ids ∧
      (Arc.link edge).destination ∈ builder.ids ∧
      (Arc.link edge).source ≠ (Arc.link edge).destination) :
    ∃ after, builder.connectAll edges = .ok after := by
  induction edges generalizing builder with
  | nil => exact ⟨builder, rfl⟩
  | cons edge rest inductionHypothesis =>
      have new : (Arc.link edge).id ∉ builder.links.map Link.id := by
        intro known
        exact (List.nodup_append.mp distinct).2.2 _ known _ (by simp) rfl
      obtain ⟨source, destination, different⟩ := grounded edge List.mem_cons_self
      have sound := (linkDefect_none_iff builder (Arc.link edge)).mpr
        ⟨new, different, source, destination⟩
      have connected := (connect_ok_iff builder _ edge).mpr ⟨sound, rfl⟩
      simp only [Builder.connectAll, connected, bind, Except.bind]
      exact inductionHypothesis _ (by simpa [links] using distinct)
        fun later member => grounded later (List.mem_cons_of_mem edge member)

end Builder

end Flowplan
