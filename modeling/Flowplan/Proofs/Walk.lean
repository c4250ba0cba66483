import Flowplan.Plan.Lowering
import Flowplan.Proofs.JobGraphs

/-!
# The walk of a lowering

The walk notes vertices and edges in the order of arrivals. It comes to its end exactly if every
edge has a communication pattern; otherwise the first edge without one is its fault. Whatever it
has noted, its groups are the classes of the edges noted that do not shuffle (`Tracks`). At the
end they are the components of the graph.
-/

namespace Flowplan.Gathering

/-- The groups follow the edges noted, and every vertex noted is in one. -/
structure Tracks (gathering : Gathering) : Prop where
  groups : gathering.groups.Represents (JobGraph.plainPairs gathering.edges)
  grouped : ∀ vertex ∈ gathering.order, vertex.id ∈ gathering.groups.keys

/-- Before the walk there is nothing to track. -/
theorem empty_tracks : empty.Tracks := by
  refine ⟨DisjointSets.represents_empty, ?_⟩
  intro vertex member
  cases member

/-! ## Noting edges -/

/-- Noting an edge joins its ends, unless it shuffles. -/
theorem noteEdge_tracks {gathering : Gathering} (tracks : gathering.Tracks) (vertex : Vertex)
    (edge : Edge) (pattern : Pattern) (patterned : edge.pattern? = some pattern)
    (ends : edge.destination = vertex.id) : (gathering.noteEdge vertex edge pattern).Tracks := by
  by_cases shuffles : pattern = .shuffle
  · have plain : JobGraph.plainPairs (gathering.edges ++ [edge]) =
        JobGraph.plainPairs gathering.edges := by
      simp [JobGraph.plainPairs, Edge.isShuffle, patterned, shuffles]
    refine ⟨?_, ?_⟩
    · simpa [noteEdge, shuffles, plain] using tracks.groups
    · simpa [noteEdge, shuffles] using tracks.grouped
  · have plain : JobGraph.plainPairs (gathering.edges ++ [edge]) =
        JobGraph.plainPairs gathering.edges ++ [(edge.source, vertex.id)] := by
      simp [JobGraph.plainPairs, Edge.isShuffle, patterned, shuffles, ends]
    refine ⟨?_, ?_⟩
    · simpa [noteEdge, shuffles, plain] using tracks.groups.union edge.source vertex.id
    · intro noted member
      simp only [noteEdge, shuffles, ↓reduceIte] at member ⊢
      rw [DisjointSets.mem_keys_union _ tracks.groups.sound]
      exact Or.inl (tracks.grouped noted member)

/-- Edges with patterns are noted in order, to the last one. -/
theorem noteEdges_tracks {gathering : Gathering} (tracks : gathering.Tracks) (vertex : Vertex)
    (edges : List Edge) (ends : ∀ edge ∈ edges, edge.destination = vertex.id)
    (patterned : ∀ edge ∈ edges, edge.pattern? ≠ none) :
    ∃ after, gathering.noteEdges vertex edges = (.ok (), after) ∧ after.Tracks ∧
      after.order = gathering.order ∧ after.edges = gathering.edges ++ edges := by
  induction edges generalizing gathering with
  | nil => exact ⟨gathering, rfl, tracks, rfl, by simp⟩
  | cons edge rest inductionHypothesis =>
      obtain ⟨pattern, known⟩ := Option.ne_none_iff_exists'.mp (patterned edge List.mem_cons_self)
      obtain ⟨after, noted, tracked, order, gathered⟩ := inductionHypothesis
        (noteEdge_tracks tracks vertex edge pattern known (ends edge List.mem_cons_self))
        (fun later member => ends later (List.mem_cons_of_mem edge member))
        (fun later member => patterned later (List.mem_cons_of_mem edge member))
      refine ⟨after, ?_, tracked, order, ?_⟩
      · simpa [noteEdges, known] using noted
      · simpa [noteEdge] using gathered

/-- Noting edges stops at the first one without a pattern. -/
theorem noteEdges_stops (gathering : Gathering) (vertex : Vertex) (edges : List Edge) (edge : Edge)
    (first : First (fun noted : Edge => noted.pattern? = none) edges edge) :
    ∃ after, gathering.noteEdges vertex edges = (.error (patternMissing edge), after) := by
  induction edges generalizing gathering with
  | nil =>
      obtain ⟨before, after, split, _⟩ := first
      simp at split
  | cons head rest inductionHypothesis =>
      rcases (first_cons_iff _ _ _ _).mp first with ⟨missing, rfl⟩ | ⟨present, later⟩
      · exact ⟨gathering, by simp [noteEdges, missing]⟩
      · obtain ⟨pattern, known⟩ := Option.ne_none_iff_exists'.mp present
        obtain ⟨after, stopped⟩ :=
          inductionHypothesis (gathering.noteEdge vertex head pattern) later
        exact ⟨after, by simpa [noteEdges, known] using stopped⟩

/-! ## Visiting vertices -/

/-- A visit begins with the vertex in a group. -/
theorem visit_begins {gathering : Gathering} (tracks : gathering.Tracks) (vertex : Vertex) :
    ({ gathering with
      groups := gathering.groups.add vertex.id
      order := gathering.order ++ [vertex] } : Gathering).Tracks := by
  refine ⟨tracks.groups.add vertex.id, ?_⟩
  intro noted member
  rw [DisjointSets.mem_keys_add]
  rcases List.mem_append.mp member with old | new
  · exact Or.inl (tracks.grouped noted old)
  · exact Or.inr (congrArg Vertex.id (List.mem_singleton.mp new))

/-- A vertex whose incoming edges have patterns is visited with all of them. -/
theorem visit_tracks {gathering : Gathering} (tracks : gathering.Tracks) (vertex : Vertex)
    (incoming : List Edge) (ends : ∀ edge ∈ incoming, edge.destination = vertex.id)
    (patterned : ∀ edge ∈ incoming, edge.pattern? ≠ none) :
    ∃ after, visit vertex incoming gathering = (.ok (), after) ∧ after.Tracks ∧
      after.order = gathering.order ++ [vertex] ∧ after.edges = gathering.edges ++ incoming :=
  noteEdges_tracks (visit_begins tracks vertex) vertex incoming ends patterned

/-- The edges into a vertex end there. -/
theorem incoming_ends {graph : JobGraph} (grounded : graph.Grounded) (id : String) :
    ∀ edge ∈ graph.incoming id, edge.destination = id := by
  intro edge member
  rw [grounded.incoming_eq] at member
  exact of_decide_eq_true (List.mem_filter.mp member).2

/-- A visit that succeeds is followed by the visits to the other vertices. -/
theorem visitAll_goesOn (strict : Bool) (graph : JobGraph) (vertex : Vertex) (rest : List Vertex)
    {gathering after : Gathering}
    (visited : visit vertex (graph.incoming vertex.id) gathering = (.ok (), after)) :
    (converter strict).visitAll graph (vertex :: rest) gathering =
      (converter strict).visitAll graph rest after := by
  have visiting : (converter strict).visit vertex (graph.incoming (Node.id vertex)) gathering =
    (.ok (), after) := visited
  simp only [Converter.visitAll, visiting]

/-- A visit that fails is the last one. -/
theorem visitAll_fails (strict : Bool) (graph : JobGraph) (vertex : Vertex) (rest : List Vertex)
    {gathering after : Gathering} {fault : Fault}
    (failed : visit vertex (graph.incoming vertex.id) gathering = (.error fault, after)) :
    (converter strict).visitAll graph (vertex :: rest) gathering = (.error fault, after) := by
  have visiting : (converter strict).visit vertex (graph.incoming (Node.id vertex)) gathering =
    (.error fault, after) := failed
  simp only [Converter.visitAll, visiting]

/-- The walk over vertices whose incoming edges all have patterns. -/
theorem visitAll_tracks (strict : Bool) {graph : JobGraph} (grounded : graph.Grounded)
    (vertices : List Vertex) {gathering : Gathering} (tracks : gathering.Tracks)
    (patterned : ∀ edge ∈ vertices.flatMap fun vertex => graph.incoming vertex.id,
      edge.pattern? ≠ none) :
    ∃ after, (converter strict).visitAll graph vertices gathering = (.ok (), after) ∧
      after.Tracks ∧ after.order = gathering.order ++ vertices ∧
      after.edges = gathering.edges ++ vertices.flatMap fun vertex =>
        graph.incoming vertex.id := by
  induction vertices generalizing gathering with
  | nil => exact ⟨gathering, rfl, tracks, by simp, by simp⟩
  | cons vertex rest inductionHypothesis =>
      obtain ⟨visited, isVisited, tracked, order, edges⟩ := visit_tracks tracks vertex
        (graph.incoming vertex.id) (incoming_ends grounded vertex.id) (fun edge member =>
          patterned edge (List.mem_flatMap.mpr ⟨vertex, List.mem_cons_self, member⟩))
      obtain ⟨after, isWalked, trackedAfter, orderAfter, edgesAfter⟩ :=
        inductionHypothesis tracked (fun edge member => by
          obtain ⟨later, laterIn, arrives⟩ := List.mem_flatMap.mp member
          exact patterned edge
            (List.mem_flatMap.mpr ⟨later, List.mem_cons_of_mem vertex laterIn, arrives⟩))
      refine ⟨after, ?_, trackedAfter, ?_, ?_⟩
      · rw [visitAll_goesOn strict graph vertex rest isVisited, isWalked]
      · rw [orderAfter, order, List.append_assoc, List.singleton_append]
      · rw [edgesAfter, edges, List.append_assoc, List.flatMap_cons]

/-- The walk stops at the first edge that arrives without a pattern. -/
theorem visitAll_stops (strict : Bool) {graph : JobGraph} (grounded : graph.Grounded)
    (vertices : List Vertex) {gathering : Gathering} (tracks : gathering.Tracks) (edge : Edge)
    (first : First (fun noted : Edge => noted.pattern? = none)
      (vertices.flatMap fun vertex => graph.incoming vertex.id) edge) :
    ∃ after, (converter strict).visitAll graph vertices gathering =
      (.error (patternMissing edge), after) := by
  induction vertices generalizing gathering with
  | nil =>
      obtain ⟨before, after, split, _⟩ := first
      simp at split
  | cons vertex rest inductionHypothesis =>
      rw [List.flatMap_cons] at first
      rcases (first_append_iff _ _ _ _).mp first with here | ⟨patterned, later⟩
      · obtain ⟨after, stopped⟩ := noteEdges_stops
          { gathering with
            groups := gathering.groups.add vertex.id
            order := gathering.order ++ [vertex] } vertex _ edge here
        exact ⟨after, visitAll_fails strict graph vertex rest stopped⟩
      · obtain ⟨visited, isVisited, tracked, _, _⟩ := visit_tracks tracks vertex
          (graph.incoming vertex.id) (incoming_ends grounded vertex.id) patterned
        obtain ⟨after, stopped⟩ := inductionHypothesis tracked later
        exact ⟨after, (visitAll_goesOn strict graph vertex rest isVisited).trans stopped⟩

/-! ## The order of the groups' keys -/

/-- Noting edges between known vertices adds no key to the groups. -/
theorem noteEdges_keys {gathering after : Gathering} (tracks : gathering.Tracks) (vertex : Vertex)
    (edges : List Edge) (ends : ∀ edge ∈ edges, edge.destination = vertex.id)
    (known : vertex.id ∈ gathering.groups.keys)
    (sources : ∀ edge ∈ edges, edge.source ∈ gathering.groups.keys)
    (noted : gathering.noteEdges vertex edges = (.ok (), after)) :
    after.groups.keys = gathering.groups.keys := by
  induction edges generalizing gathering with
  | nil =>
      obtain ⟨_, rfl⟩ := Prod.mk.inj noted
      rfl
  | cons edge rest inductionHypothesis =>
      unfold noteEdges at noted
      cases patterned : edge.pattern? with
      | none =>
          rw [patterned] at noted
          cases noted
      | some pattern =>
          rw [patterned] at noted
          have kept : (gathering.noteEdge vertex edge pattern).groups.keys =
              gathering.groups.keys := by
            unfold noteEdge
            split
            · rfl
            · exact DisjointSets.keys_union_of_mem _ tracks.groups.sound _ _
                (sources edge List.mem_cons_self) known
          rw [← kept]
          refine inductionHypothesis ?_ ?_ (kept ▸ known) ?_ noted
          · exact noteEdge_tracks tracks vertex edge pattern patterned
              (ends edge List.mem_cons_self)
          · exact fun later member => ends later (List.mem_cons_of_mem edge member)
          · exact fun later member => kept ▸ sources later (List.mem_cons_of_mem edge member)

/-- Visiting a new vertex behind the sources of its edges adds its key behind the others. -/
theorem visit_keys {gathering after : Gathering} (tracks : gathering.Tracks) (vertex : Vertex)
    (incoming : List Edge) (ends : ∀ edge ∈ incoming, edge.destination = vertex.id)
    (new : vertex.id ∉ gathering.groups.keys)
    (sources : ∀ edge ∈ incoming, edge.source ∈ gathering.groups.keys)
    (visited : visit vertex incoming gathering = (.ok (), after)) :
    after.groups.keys = gathering.groups.keys ++ [vertex.id] := by
  have added : (gathering.groups.add vertex.id).keys = gathering.groups.keys ++ [vertex.id] := by
    rw [DisjointSets.add, if_neg new]
  refine (noteEdges_keys (visit_begins tracks vertex) vertex incoming ends ?_ ?_ visited).trans
    added
  · simp [added]
  · intro edge member
    simp [added, sources edge member]

/-- A walk in topological order adds the keys in that order. -/
theorem visitAll_keys (strict : Bool) {graph : JobGraph} (sound : graph.Sound)
    (front vertices : List Vertex) (split : graph.topological = front ++ vertices)
    {gathering after : Gathering} (tracks : gathering.Tracks)
    (keys : gathering.groups.keys = front.map Vertex.id)
    (patterned : ∀ edge ∈ vertices.flatMap fun vertex => graph.incoming vertex.id,
      edge.pattern? ≠ none)
    (walked : (converter strict).visitAll graph vertices gathering = (.ok (), after)) :
    after.groups.keys = graph.topological.map Vertex.id := by
  induction vertices generalizing front gathering with
  | nil =>
      obtain ⟨_, rfl⟩ := Prod.mk.inj walked
      rw [keys, split, List.append_nil]
  | cons vertex rest inductionHypothesis =>
      have incoming : ∀ edge ∈ graph.incoming vertex.id, edge.destination = vertex.id :=
        incoming_ends sound.intact.toGrounded vertex.id
      obtain ⟨visited, isVisited, tracked, _, _⟩ := visit_tracks tracks vertex
        (graph.incoming vertex.id) incoming (fun edge member =>
          patterned edge (List.mem_flatMap.mpr ⟨vertex, List.mem_cons_self, member⟩))
      have ids : graph.topological.map Vertex.id =
          front.map Vertex.id ++ vertex.id :: rest.map Vertex.id := by
        rw [split, List.map_append, List.map_cons]
      have distinct : (graph.topological.map Vertex.id).Nodup := sound.intact.topological_distinct
      -- the sources of its edges stand before the vertex
      have sources : ∀ edge ∈ graph.incoming vertex.id, edge.source ∈ gathering.groups.keys := by
        intro edge member
        have inGraph : edge ∈ graph.edges := by
          rw [sound.intact.incoming_eq] at member
          exact List.mem_of_mem_filter member
        have before : Before (graph.topological.map Vertex.id) edge.source vertex.id :=
          sound.intact.source_before _ _ ⟨edge, inGraph, rfl, incoming edge member⟩
        rw [ids] at before distinct
        rw [keys]
        exact mem_front_of_before distinct before
      have new : vertex.id ∉ gathering.groups.keys := by
        rw [ids] at distinct
        rw [keys]
        intro inFront
        exact (List.disjoint_of_nodup_append distinct) inFront List.mem_cons_self
      rw [visitAll_goesOn strict graph vertex rest isVisited] at walked
      refine inductionHypothesis (front ++ [vertex]) ?_ tracked ?_ ?_ walked
      · rw [split, List.append_assoc, List.singleton_append]
      · rw [visit_keys tracks vertex _ incoming new sources isVisited, keys, List.map_append]
        rfl
      · intro edge member
        obtain ⟨later, laterIn, arrives⟩ := List.mem_flatMap.mp member
        exact patterned edge
          (List.mem_flatMap.mpr ⟨later, List.mem_cons_of_mem vertex laterIn, arrives⟩)

/-! ## Whole walks -/

/-- What a walk over a whole graph has come to. -/
structure Walked (graph : JobGraph) (gathering : Gathering) : Prop where
  tracks : gathering.Tracks
  order : gathering.order = graph.topological
  edges : gathering.edges = graph.arrivals
  keys : gathering.groups.keys = graph.topological.map Vertex.id

/-- If every edge has a pattern, the lowering goes on with a finished walk. -/
theorem lower_of_patterned (strict : Bool) {graph : JobGraph} (sound : graph.Sound)
    (patterned : ∀ edge ∈ graph.edges, edge.pattern? ≠ none) :
    ∃ gathering, Walked graph gathering ∧
      Flowplan.lower strict (some graph) = gathering.lower strict := by
  have arrivalsPatterned : ∀ edge ∈ graph.arrivals, edge.pattern? ≠ none :=
    fun edge arrives => patterned edge ((sound.mem_arrivals edge).mp arrives)
  obtain ⟨gathering, isWalked, tracks, order, edges⟩ :=
    visitAll_tracks strict sound.intact.toGrounded graph.topological empty_tracks arrivalsPatterned
  refine ⟨gathering, ⟨tracks, by simpa [empty] using order, ?_, ?_⟩, ?_⟩
  · simpa [empty, JobGraph.arrivals] using edges
  · exact visitAll_keys strict sound [] graph.topological rfl empty_tracks rfl arrivalsPatterned
      isWalked
  · simp only [Flowplan.lower, Converter.convert?, Converter.convert, isWalked]
    rfl

/-- The first edge that arrives without a pattern is the fault of the lowering. -/
theorem lower_of_missing (strict : Bool) {graph : JobGraph} (sound : graph.Sound) (edge : Edge)
    (first : First (fun noted : Edge => noted.pattern? = none) graph.arrivals edge) :
    Flowplan.lower strict (some graph) = .done (.failed (patternMissing edge)) := by
  obtain ⟨after, stopped⟩ := visitAll_stops strict sound.intact.toGrounded graph.topological
    empty_tracks edge first
  simp only [Flowplan.lower, Converter.convert?, Converter.convert, stopped]
  rfl

/-- Every vertex of the walk has a representative. -/
theorem Walked.represented {graph : JobGraph} {gathering : Gathering}
    (walked : Walked graph gathering) (vertex : Vertex) (member : vertex ∈ graph.topological) :
    ∃ representative, gathering.groups.representative? vertex.id = some representative :=
  DisjointSets.representative?_isSome _ walked.tracks.groups.sound vertex.id
    (walked.tracks.grouped vertex (walked.order ▸ member))

/-- Every vertex of the graph is in a group after the walk. -/
theorem Walked.grouped {graph : JobGraph} {gathering : Gathering} (walked : Walked graph gathering)
    (sound : graph.Sound) (id : String) (known : id ∈ graph.ids) :
    id ∈ gathering.groups.keys := by
  have listed := sound.intact.topological_ids_perm.mem_iff.mpr known
  obtain ⟨vertex, member, rfl⟩ := List.mem_map.mp listed
  exact walked.tracks.grouped vertex (walked.order ▸ member)

/-- After the walk, vertices are in one group exactly if they are joined. -/
theorem Walked.together_iff {graph : JobGraph} {gathering : Gathering}
    (walked : Walked graph gathering) (sound : graph.Sound) (left right : String)
    (leftKnown : left ∈ graph.ids) (rightKnown : right ∈ graph.ids) :
    gathering.groups.Together left right ↔ graph.Joined left right := by
  rw [walked.tracks.groups.exact, graph.joined_iff_eqvGen graph.arrivals sound.mem_arrivals,
    walked.edges]
  have leftIn := walked.grouped sound left leftKnown
  have rightIn := walked.grouped sound right rightKnown
  exact ⟨fun ⟨_, _, related⟩ => related, fun related => ⟨leftIn, rightIn, related⟩⟩

end Flowplan.Gathering
