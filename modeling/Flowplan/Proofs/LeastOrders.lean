import Flowplan.Proofs.BuilderCalls
import Mathlib.Data.List.Lex

/-!
# The least topological order

A sort takes the earliest of the ready vertices at every turn. Compare what it takes with any other
order that suits the edges: as long as both agree, the next vertex of the other order is ready too,
since all its predecessors are taken. So the sort takes that vertex or an earlier one, and its order
is the least one by insertion positions.

Being least fixes the order. It depends on the vertices as inserted and on which of them are
connected, and it is the order of insertion wherever that order will do.
-/

namespace Flowplan

/-! ## Lists of positions -/

/-- An increasing list is the least among its rearrangements. -/
theorem increasing_le_of_perm {increasing other : List Nat}
    (sorted : increasing.Pairwise (· ≤ ·)) (perm : increasing.Perm other) :
    increasing ≤ other := by
  induction increasing generalizing other with
  | nil => rw [perm.symm.eq_nil]
  | cons first rest inductionHypothesis =>
      obtain ⟨least, restSorted⟩ := List.pairwise_cons.mp sorted
      cases other with
      | nil => cases perm.eq_nil
      | cons head tail =>
          rcases List.mem_cons.mp (perm.mem_iff.mpr List.mem_cons_self) with rfl | later
          · exact List.cons_le_cons _ (inductionHypothesis restSorted perm.cons_inv)
          · rcases Nat.lt_or_eq_of_le (least head later) with smaller | rfl
            · exact le_of_lt (List.Lex.rel smaller)
            · exact List.cons_le_cons _ (inductionHypothesis restSorted perm.cons_inv)

/-- A position is inserted where it belongs by its size. -/
theorem insertPosition_increasing (position : Nat) (positions : List Nat)
    (increasing : positions.Pairwise (· ≤ ·)) :
    (insertPosition position positions).Pairwise (· ≤ ·) := by
  induction positions with
  | nil => exact List.pairwise_singleton _ _
  | cons first rest inductionHypothesis =>
      obtain ⟨least, restIncreasing⟩ := List.pairwise_cons.mp increasing
      unfold insertPosition
      split
      · rename_i atMost
        refine List.pairwise_cons.mpr ⟨?_, increasing⟩
        intro later member
        rcases List.mem_cons.mp member with rfl | behind
        · exact atMost
        · exact Nat.le_trans atMost (least later behind)
      · rename_i beyond
        refine List.pairwise_cons.mpr ⟨?_, inductionHypothesis restIncreasing⟩
        intro later member
        rcases List.mem_cons.mp ((insertPosition_perm position rest).mem_iff.mp member) with
          rfl | behind
        · omega
        · exact least later behind

/-! ## Ready positions stand in increasing order -/

namespace Sorting

/-- The ready positions are listed from the earliest to the latest. -/
def Increasing (sorting : Sorting) : Prop :=
  sorting.ready.Pairwise (· ≤ ·)

/-- Lowering a counter keeps the ready positions in order. -/
theorem Increasing.lower {sorting : Sorting} (increasing : sorting.Increasing) (position : Nat) :
    (sorting.lower position).Increasing := by
  unfold Increasing Sorting.lower
  dsimp only
  split
  · exact insertPosition_increasing position sorting.ready increasing
  · exact increasing

/-- Lowering several counters keeps the ready positions in order. -/
theorem Increasing.lowerAll {sorting : Sorting} (increasing : sorting.Increasing)
    (positions : List Nat) : (positions.foldl Sorting.lower sorting).Increasing := by
  induction positions generalizing sorting with
  | nil => exact increasing
  | cons position rest inductionHypothesis =>
      exact inductionHypothesis (increasing.lower position)

end Sorting

namespace Dag

variable {V E : Type} [Node V] [Arc E]

omit [Node V] in
/-- A sort starts with its ready positions in order. -/
theorem sortStart_increasing (graph : Dag V E) : graph.sortStart.Increasing := by
  have range : (List.range graph.size).Pairwise (· ≤ ·) :=
    List.pairwise_lt_range.imp Nat.le_of_lt
  exact range.filter _

/-- A turn keeps the ready positions in order. -/
theorem sortTurn_increasing (graph : Dag V E) (sorting : Sorting)
    (increasing : sorting.Increasing) : (graph.sortTurn sorting).Increasing := by
  cases ready : sorting.ready with
  | nil => rwa [sortTurn_of_nothing graph sorting ready]
  | cons position rest =>
      rw [sortTurn_of_ready graph sorting position rest ready]
      apply Sorting.Increasing.lowerAll
      unfold Sorting.Increasing at increasing ⊢
      rw [ready] at increasing
      exact (List.pairwise_cons.mp increasing).2

/-- What was taken stays taken, in the same order. -/
theorem sortTurns_extends (graph : Dag V E) (turns : Nat) (sorting : Sorting) :
    ∃ following, (graph.sortTurns turns sorting).taken = sorting.taken ++ following := by
  induction turns generalizing sorting with
  | zero => exact ⟨[], by simp [sortTurns]⟩
  | succ turns inductionHypothesis =>
      obtain ⟨following, later⟩ := inductionHypothesis (graph.sortTurn sorting)
      rw [sortTurns, later]
      cases ready : sorting.ready with
      | nil => exact ⟨following, by rw [sortTurn_of_nothing graph sorting ready]⟩
      | cons position rest =>
          refine ⟨position :: following, ?_⟩
          rw [sortTurn_taken graph sorting position rest ready, List.append_assoc,
            List.singleton_append]

/-! ## The sort against any other order -/

/-- An order of all positions in which every arrow goes forward. -/
structure Admits (graph : Dag V E) (positions : List Nat) : Prop where
  complete : positions.Perm (List.range graph.size)
  forward : ∀ source target, graph.HasArrow source target → Before positions source target

omit [Node V] [Arc E] in
/-- An order of all positions has none twice. -/
theorem complete_distinct {graph : Dag V E} {positions : List Nat}
    (complete : positions.Perm (List.range graph.size)) : positions.Nodup :=
  complete.nodup_iff.mpr List.nodup_range

/-- If an admitted order starts with what a sort has taken, its next position is ready. -/
theorem Admits.next_ready {graph : Dag V E} {sorting : Sorting} {next : Nat} {rest : List Nat}
    (admits : graph.Admits (sorting.taken ++ next :: rest)) (balanced : graph.Balanced)
    (underWay : graph.UnderWay sorting) : next ∈ sorting.ready := by
  have distinct := complete_distinct admits.complete
  have inside : next < graph.size := List.mem_range.mp (admits.complete.mem_iff.mp (by simp))
  have untaken : next ∉ sorting.taken := by
    intro taken
    exact (List.nodup_append.mp distinct).2.2 next taken next List.mem_cons_self rfl
  by_contra notReady
  obtain ⟨source, sourceInside, left, arrow⟩ := underWay.predecessor_left balanced next inside
    (by simpa using And.intro notReady untaken)
  exact left (mem_front_of_before distinct (admits.forward source next ⟨sourceInside, arrow⟩))

/-- As long as a sort agrees with an admitted order, it goes on with that order or with an earlier
one. -/
theorem sortTurns_least (graph : Dag V E) (balanced : graph.Balanced) (turns : Nat)
    (sorting : Sorting) (underWay : graph.UnderWay sorting) (increasing : sorting.Increasing)
    (rest : List Nat) (admits : graph.Admits (sorting.taken ++ rest)) :
    ∃ following, (graph.sortTurns turns sorting).taken = sorting.taken ++ following ∧
      following ≤ rest := by
  induction turns generalizing sorting rest with
  | zero => exact ⟨[], by simp [sortTurns], not_lt.mp (List.not_lt_nil rest)⟩
  | succ turns inductionHypothesis =>
      cases ready : sorting.ready with
      | nil =>
          rw [sortTurns_of_nothing graph _ sorting ready]
          exact ⟨[], by simp, not_lt.mp (List.not_lt_nil rest)⟩
      | cons position others =>
          have isReady : position ∈ sorting.ready := ready ▸ List.mem_cons_self
          have taken := sortTurn_taken graph sorting position others ready
          cases rest with
          | nil =>
              -- the admitted order has ended, so everything is taken and nothing can be ready
              have inside := underWay.inside position (List.mem_append_left _ isReady)
              have again : position ∈ sorting.taken := by
                simpa using admits.complete.mem_iff.mpr (List.mem_range.mpr inside)
              exact absurd rfl
                ((List.nodup_append.mp underWay.once).2.2 position isReady position again)
          | cons next later =>
              have nextReady := admits.next_ready balanced underWay
              rw [ready] at nextReady
              rcases List.mem_cons.mp nextReady with rfl | behind
              · obtain ⟨following, reached, atMost⟩ := inductionHypothesis
                  (graph.sortTurn sorting) (sortTurn_underWay graph sorting underWay)
                  (sortTurn_increasing graph sorting increasing) later
                  (by simpa [taken] using admits)
                refine ⟨next :: following, ?_, List.cons_le_cons next atMost⟩
                rw [sortTurns, reached, taken, List.append_assoc, List.singleton_append]
              · have earliest : ∀ other ∈ others, position ≤ other := by
                  unfold Sorting.Increasing at increasing
                  rw [ready] at increasing
                  exact (List.pairwise_cons.mp increasing).1
                have different : position ≠ next := by
                  rintro rfl
                  have distinct := underWay.once
                  simp [ready, behind] at distinct
                obtain ⟨following, reached⟩ :=
                  sortTurns_extends graph turns (graph.sortTurn sorting)
                refine ⟨position :: following, ?_, le_of_lt (List.Lex.rel ?_)⟩
                · rw [sortTurns, reached, taken, List.append_assoc, List.singleton_append]
                · exact Nat.lt_of_le_of_ne (earliest next behind) different

/-- Of all admitted orders a sort finds the least. -/
theorem sort_least (graph : Dag V E) (balanced : graph.Balanced) (order other : List Nat)
    (sorted : graph.sort = .ok order) (admits : graph.Admits other) : order ≤ other := by
  obtain ⟨following, reached, atMost⟩ := sortTurns_least graph balanced graph.size graph.sortStart
    (sortStart_underWay graph) graph.sortStart_increasing other (by simpa [sortStart] using admits)
  simp only [sort] at sorted
  split at sorted
  · obtain rfl := Except.ok.inj sorted
    rw [sortEnd, reached]
    simpa [sortStart] using atMost
  · cases sorted

/-! ## Orders of vertices -/

/-- All vertices, each once, with the source of every edge before its destination. -/
structure IsTopological (graph : Dag V E) (listed : List V) : Prop where
  complete : listed.Perm graph.vertices
  forward : ∀ edge ∈ graph.edges,
    Before (listed.map Node.id) (Arc.link edge).source (Arc.link edge).destination

/-- The position at which a vertex was inserted. -/
def insertionIndex (graph : Dag V E) (vertex : V) : Nat :=
  (graph.vertices.map Node.id).idxOf (Node.id vertex)

/-- A list of vertices as a list of positions. -/
def insertionIndices (graph : Dag V E) (listed : List V) : List Nat :=
  listed.map graph.insertionIndex

/-- The order of an intact graph is topological. -/
theorem Intact.isTopological {graph : Dag V E} (intact : graph.Intact) :
    graph.IsTopological graph.topological :=
  ⟨intact.topological_perm, fun edge member =>
    intact.source_before _ _ ⟨edge, member, rfl, rfl⟩⟩

/-- An id stands in the index once, so it is found where it stands. -/
theorem Grounded.idxOf_eq {graph : Dag V E} (grounded : graph.Grounded) {position : Nat}
    {id : String} (stands : graph.ids[position]? = some id) : graph.ids.idxOf id = position := by
  obtain ⟨inside, rfl⟩ := List.getElem?_eq_some_iff.mp stands
  exact grounded.distinct.idxOf_getElem position inside

/-- A vertex was inserted at the position where it stands. -/
theorem Grounded.insertionIndex_eq {graph : Dag V E} (grounded : graph.Grounded) {position : Nat}
    {vertex : V} (stands : graph.vertices[position]? = some vertex) :
    graph.insertionIndex vertex = position := by
  unfold insertionIndex
  rw [← grounded.indexed]
  apply grounded.idxOf_eq
  rw [grounded.indexed, List.getElem?_map, stands, Option.map_some]

/-- The vertices at the positions of listed vertices are the listed vertices. -/
theorem Grounded.read_indices {graph : Dag V E} (grounded : graph.Grounded) {listed : List V}
    (known : ∀ vertex ∈ listed, vertex ∈ graph.vertices) :
    ((graph.insertionIndices listed).filterMap fun position => graph.vertices[position]?) =
      listed := by
  have found : ∀ vertex ∈ listed, graph.vertices[graph.insertionIndex vertex]? = some vertex := by
    intro vertex member
    obtain ⟨position, stands⟩ := List.mem_iff_getElem?.mp (known vertex member)
    rw [grounded.insertionIndex_eq stands, stands]
  unfold insertionIndices
  rw [List.filterMap_map]
  exact (List.filterMap_congr found).trans List.filterMap_some

/-- The positions of what stands at given positions are these positions. -/
theorem Grounded.indices_read {graph : Dag V E} (grounded : graph.Grounded) {positions : List Nat}
    (inside : ∀ position ∈ positions, position < graph.size) :
    graph.insertionIndices (positions.filterMap fun position => graph.vertices[position]?) =
      positions := by
  unfold insertionIndices
  rw [List.map_filterMap]
  have found : ∀ position ∈ positions,
      (graph.vertices[position]?).map graph.insertionIndex = some position := by
    intro position member
    have stands := List.getElem?_eq_getElem (inside position member)
    rw [stands, Option.map_some, grounded.insertionIndex_eq stands]
  rw [List.filterMap_congr found, List.filterMap_some]

/-- The vertices as inserted are listed by increasing positions. -/
theorem Grounded.indices_vertices {graph : Dag V E} (grounded : graph.Grounded) :
    graph.insertionIndices graph.vertices = List.range graph.size := by
  have inside : ∀ position ∈ List.range graph.size, position < graph.size :=
    fun _ => List.mem_range.mp
  have read := grounded.indices_read inside
  rwa [size, range_filterMap_getElem?] at read

/-- The topological order, read as positions, is the result of sorting. -/
theorem Intact.indices_topological {graph : Dag V E} (intact : graph.Intact) :
    graph.insertionIndices graph.topological = graph.order := by
  obtain ⟨positions, _⟩ := sort_ordered graph intact.balanced graph.order intact.sorted
  apply intact.indices_read
  intro position member
  exact List.mem_range.mp (positions.mem_iff.mp member)

/-- The positions of a topological order are admitted. -/
theorem Grounded.admits {graph : Dag V E} (grounded : graph.Grounded) {listed : List V}
    (topological : graph.IsTopological listed) : graph.Admits (graph.insertionIndices listed) := by
  refine ⟨?_, ?_⟩
  · rw [← grounded.indices_vertices]
    exact topological.complete.map graph.insertionIndex
  · intro source target arrow
    obtain ⟨start, finish, atSource, atTarget, edge, member, rfl, rfl⟩ :=
      (grounded.hasArrow_iff source target).mp arrow
    have before := List.Sublist.map (graph.ids.idxOf ·) (topological.forward edge member)
    simp only [List.map_cons, List.map_nil, grounded.idxOf_eq atSource, grounded.idxOf_eq atTarget,
      List.map_map] at before
    rw [grounded.indexed] at before
    exact before

/-- Of all topological orders the one of the graph is the least by positions. -/
theorem Intact.topological_least {graph : Dag V E} (intact : graph.Intact) {listed : List V}
    (topological : graph.IsTopological listed) :
    graph.insertionIndices graph.topological ≤ graph.insertionIndices listed := by
  rw [intact.indices_topological]
  exact sort_least graph intact.balanced _ _ intact.sorted (intact.admits topological)

/-- A topological order which is at most the one of the graph is the one of the graph. -/
theorem Intact.eq_topological {graph : Dag V E} (intact : graph.Intact) {listed : List V}
    (topological : graph.IsTopological listed)
    (atMost : graph.insertionIndices listed ≤ graph.insertionIndices graph.topological) :
    listed = graph.topological := by
  have same := le_antisymm atMost (intact.topological_least topological)
  have known : ∀ vertex ∈ listed, vertex ∈ graph.vertices :=
    fun _ => topological.complete.mem_iff.mp
  rw [← intact.read_indices known, same]
  exact intact.read_indices fun _ => intact.topological_perm.mem_iff.mp

/-- Graphs over the same vertices with the same connections have the same topological orders. -/
theorem IsTopological.transfer {graph other : Dag V E} {listed : List V}
    (topological : other.IsTopological listed) (vertices : other.vertices = graph.vertices)
    (connections : ∀ source destination,
      other.Leads source destination ↔ graph.Leads source destination) :
    graph.IsTopological listed := by
  refine ⟨vertices ▸ topological.complete, ?_⟩
  intro edge member
  obtain ⟨twin, twinIn, source, destination⟩ :=
    (connections (Arc.link edge).source (Arc.link edge).destination).mpr ⟨edge, member, rfl, rfl⟩
  rw [← source, ← destination]
  exact topological.forward twin twinIn

/-- Graphs over the same vertices with the same connections are sorted in the same way. -/
theorem Intact.topological_congr {graph other : Dag V E} (intact : graph.Intact)
    (otherIntact : other.Intact) (vertices : other.vertices = graph.vertices)
    (connections : ∀ source destination,
      other.Leads source destination ↔ graph.Leads source destination) :
    other.topological = graph.topological := by
  have topological := otherIntact.isTopological.transfer vertices connections
  apply intact.eq_topological topological
  have least := otherIntact.topological_least
    (intact.isTopological.transfer vertices.symm fun source destination =>
      (connections source destination).symm)
  have indices : ∀ listed, other.insertionIndices listed = graph.insertionIndices listed := by
    intro listed
    unfold insertionIndices insertionIndex
    rw [vertices]
  rwa [indices, indices] at least

end Dag

/-- The topological order of a built graph is the least one by insertion positions.

So other calls that bring the same vertices in the same order, and edges between the same pairs of
them in whatever order and number, lead to the same topological order. Where the order of insertion
suits all edges, it is the topological order. -/
theorem topological_is_least {V E : Type} [Node V] [Arc E] (calls : List (Builder.Call V E))
    (graph : Dag V E) (built : (Builder.empty.afterCalls calls).build = .ok graph) :
    graph.IsTopological graph.topological ∧
      (∀ listed, graph.IsTopological listed →
        graph.insertionIndices graph.topological ≤ graph.insertionIndices listed) ∧
      (∀ (otherCalls : List (Builder.Call V E)) (other : Dag V E),
        (Builder.empty.afterCalls otherCalls).build = .ok other →
        other.vertices = graph.vertices →
        (∀ source destination,
          other.Leads source destination ↔ graph.Leads source destination) →
        other.topological = graph.topological) ∧
      (graph.IsTopological graph.vertices → graph.topological = graph.vertices) := by
  have intact := (Builder.Reached.empty.afterCalls calls).proper.build_intact graph built |>.1
  refine ⟨intact.isTopological, fun _ => intact.topological_least, ?_, ?_⟩
  · intro otherCalls other otherBuilt vertices connections
    have otherIntact :=
      (Builder.Reached.empty.afterCalls otherCalls).proper.build_intact other otherBuilt |>.1
    exact intact.topological_congr otherIntact vertices connections
  · intro inserted
    refine (intact.eq_topological inserted ?_).symm
    rw [intact.indices_vertices]
    refine increasing_le_of_perm (List.pairwise_lt_range.imp Nat.le_of_lt) ?_
    rw [← intact.indices_vertices]
    exact intact.topological_perm.symm.map graph.insertionIndex

/-- The vertex inserted first has to wait for the one inserted last. -/
def waitingCalls : List (Builder.Call Vertex Edge) :=
  [.addVertex (.bare "b" none), .addVertex (.bare "c" none), .addVertex (.bare "a" none),
    .connect (.bare "ab" "a" "b")]

/-- The vertex inserted last comes first, and the two others keep their order. -/
theorem waitingCalls_least :
    ∃ graph, (Builder.empty.afterCalls waitingCalls).build = .ok graph ∧
      graph.topological.map Vertex.id = ["c", "a", "b"] ∧
      graph.insertionIndices graph.topological ≤ [2, 0, 1] := by
  have built : (Builder.empty.afterCalls waitingCalls).build = .ok
      { vertices := [.bare "b" none, .bare "c" none, .bare "a" none]
        edges := [.bare "ab" "a" "b"]
        ids := ["b", "c", "a"]
        links := [⟨"ab", "a", "b"⟩]
        order := [1, 2, 0] } := rfl
  obtain ⟨_, least, _⟩ := topological_is_least waitingCalls _ built
  refine ⟨_, built, rfl, least [.bare "a" none, .bare "b" none, .bare "c" none] ⟨by decide, ?_⟩⟩
  intro edge member
  obtain rfl := List.mem_singleton.mp member
  exact List.isSublist_iff_sublist.mp rfl

end Flowplan
