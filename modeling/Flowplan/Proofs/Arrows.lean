import Flowplan.Proofs.Lists
import Flowplan.Proofs.SortTurns
import Mathlib.Data.Fintype.Card
import Mathlib.Data.Fintype.EquivFin
import Mathlib.Logic.Relation

/-!
# Arrows and cycles

There is an arrow between two positions if taking the vertex at the first one lowers the counter
at the second one. In a graph whose counters count exactly the arrows that the turns follow
(`Balanced`), nothing is ready before all its predecessors are taken. Then the order taken never
goes against an arrow, and a vertex left over has a predecessor left over. So the vertices left
over are those on a cycle of arrows and those behind one.

An edge is followed from the vertex at which it started when the graph was built to the vertex at
which it ends now (`Follows`). A graph is `Filed` if its vertices have their indexed ids and all
these ends are vertices. Then arrows between positions are followed edges between ids.
-/

namespace Flowplan

/-- A value on a cycle of a relation, or behind one. -/
def BehindCycle {α : Type} (leads : α → α → Prop) (value : α) : Prop :=
  ∃ start, Relation.TransGen leads start start ∧ Relation.ReflTransGen leads start value

/-- What a value behind a cycle leads to is behind this cycle as well. -/
theorem BehindCycle.step {α : Type} {leads : α → α → Prop} {value next : α}
    (behind : BehindCycle leads value) (step : leads value next) : BehindCycle leads next := by
  obtain ⟨start, cycle, path⟩ := behind
  exact ⟨start, cycle, path.tail step⟩

/-- Something leads to whatever is behind a cycle. -/
theorem BehindCycle.entered {α : Type} {leads : α → α → Prop} {value : α}
    (behind : BehindCycle leads value) : ∃ previous, leads previous value := by
  obtain ⟨start, cycle, path⟩ := behind
  have around : Relation.TransGen leads start value := cycle.trans_left path
  obtain ⟨previous, _, last⟩ := Relation.TransGen.tail'_iff.mp around
  exact ⟨previous, last⟩

/-- Where an image keeps the relation, it takes cycles and what lies behind them along. -/
theorem BehindCycle.lift {α β : Type} {leads : α → α → Prop} {joins : β → β → Prop}
    (image : α → β) (kept : ∀ value next, leads value next → joins (image value) (image next))
    {value : α} (behind : BehindCycle leads value) : BehindCycle joins (image value) := by
  obtain ⟨start, cycle, path⟩ := behind
  exact ⟨image start, cycle.lift image kept, path.lift image kept⟩

namespace Dag

variable {V E : Type} [Node V] [Arc E]

/-! ## Balanced graphs -/

/-- The counters count exactly the arrows which the turns follow. -/
def Balanced (graph : Dag V E) : Prop :=
  ((List.range graph.size).flatMap graph.targets).Perm (graph.edges.map graph.endPosition)

/-- There is an arrow from the vertex at one position to the vertex at another. -/
def HasArrow (graph : Dag V E) (source target : Nat) : Prop :=
  source < graph.size ∧ target ∈ graph.targets source

/-- In a balanced graph, a counter is the number of arrows from vertices not taken yet. -/
theorem UnderWay.counter_eq {graph : Dag V E} {sorting : Sorting}
    (underWay : graph.UnderWay sorting) (balanced : graph.Balanced) (position : Nat)
    (inside : position < graph.size) :
    sorting.counters[position]? = some ((((List.range graph.size).filter fun asked =>
      asked ∉ sorting.taken).flatMap graph.targets).count position : Int) := by
  have parts := (underWay.taken_and_left.flatMap_right graph.targets).count_eq position
  rw [List.flatMap_append, List.count_append, balanced.count_eq position] at parts
  rw [underWay.counted, counters_getElem?, if_pos inside, ← parts, Option.map_some]
  congr 1
  omega

/-- Nothing is ready or taken before all its predecessors are taken. -/
theorem UnderWay.predecessor_taken {graph : Dag V E} {sorting : Sorting}
    (underWay : graph.UnderWay sorting) (balanced : graph.Balanced) (source target : Nat)
    (inside : source < graph.size) (arrow : target ∈ graph.targets source)
    (settled : target ∈ sorting.ready ++ sorting.taken) : source ∈ sorting.taken := by
  obtain ⟨counter, stored, bound⟩ := (underWay.settled target).mp settled
  rw [underWay.counter_eq balanced target (underWay.inside target settled)] at stored
  by_contra left
  have open_ : 0 < (((List.range graph.size).filter fun asked =>
      asked ∉ sorting.taken).flatMap graph.targets).count target := by
    apply List.count_pos_iff.mpr
    refine List.mem_flatMap.mpr ⟨source, ?_, arrow⟩
    simpa using And.intro inside left
  have equal := Option.some.inj stored
  omega

/-- A vertex neither ready nor taken has a predecessor which is not taken. -/
theorem UnderWay.predecessor_left {graph : Dag V E} {sorting : Sorting}
    (underWay : graph.UnderWay sorting) (balanced : graph.Balanced) (target : Nat)
    (inside : target < graph.size) (left : target ∉ sorting.ready ++ sorting.taken) :
    ∃ source, source < graph.size ∧ source ∉ sorting.taken ∧ target ∈ graph.targets source := by
  have stored := underWay.counter_eq balanced target inside
  have positive : ¬ ((((List.range graph.size).filter fun asked =>
      asked ∉ sorting.taken).flatMap graph.targets).count target : Int) ≤ 0 := by
    intro settled
    exact left ((underWay.settled target).mpr ⟨_, stored, settled⟩)
  have member : target ∈ ((List.range graph.size).filter fun asked =>
      asked ∉ sorting.taken).flatMap graph.targets := by
    apply List.count_pos_iff.mp
    omega
  obtain ⟨source, remaining, arrow⟩ := List.mem_flatMap.mp member
  have facts : source < graph.size ∧ source ∉ sorting.taken := by simpa using remaining
  exact ⟨source, facts.1, facts.2, arrow⟩

/-- Arrows to positions taken come from positions taken earlier. -/
def Forward (graph : Dag V E) (sorting : Sorting) : Prop :=
  ∀ source target, graph.HasArrow source target → target ∈ sorting.taken →
    Before sorting.taken source target

/-- What one turn keeps of a balanced graph's order: when a position is taken, all its predecessors
are taken already. -/
theorem sortTurn_forward (graph : Dag V E) (balanced : graph.Balanced) (sorting : Sorting)
    (underWay : graph.UnderWay sorting) (forward : graph.Forward sorting) :
    graph.Forward (graph.sortTurn sorting) := by
  cases ready : sorting.ready with
  | nil => rwa [sortTurn_of_nothing graph sorting ready]
  | cons position rest =>
      intro source target arrow
      rw [sortTurn_taken graph sorting position rest ready]
      intro member
      rcases List.mem_append.mp member with earlier | now
      · exact (forward source target arrow earlier).trans (List.sublist_append_left _ _)
      · obtain rfl := List.mem_singleton.mp now
        have sourceTaken := underWay.predecessor_taken balanced source target arrow.1 arrow.2
          (by simp [ready])
        exact (List.singleton_sublist.mpr sourceTaken).append (List.Sublist.refl [target])

/-- However many turns are made, arrows to positions taken come from positions taken earlier. -/
theorem sortTurns_forward (graph : Dag V E) (balanced : graph.Balanced) (turns : Nat)
    (sorting : Sorting) (underWay : graph.UnderWay sorting) (forward : graph.Forward sorting) :
    graph.Forward (graph.sortTurns turns sorting) := by
  induction turns generalizing sorting with
  | zero => exact forward
  | succ turns inductionHypothesis =>
      exact inductionHypothesis _ (sortTurn_underWay graph sorting underWay)
        (sortTurn_forward graph balanced sorting underWay forward)

/-- At the end of a sort, arrows to positions taken come from positions taken earlier. -/
theorem sortEnd_forward (graph : Dag V E) (balanced : graph.Balanced) :
    graph.Forward graph.sortEnd := by
  apply sortTurns_forward graph balanced graph.size graph.sortStart (sortStart_underWay graph)
  intro source target _ taken
  cases taken

/-- A sort which succeeds lists every position once, and never against an arrow. -/
theorem sort_ordered (graph : Dag V E) (balanced : graph.Balanced) (order : List Nat)
    (sorted : graph.sort = .ok order) :
    order.Perm (List.range graph.size) ∧
      order.Pairwise fun earlier later => earlier ∉ graph.targets later := by
  obtain ⟨underWay, _⟩ := sortEnd_finished graph
  obtain ⟨complete, rfl⟩ := (sort_ok_iff graph order).mp sorted
  refine ⟨?_, ?_⟩
  · apply (List.perm_ext_iff_of_nodup underWay.taken_distinct List.nodup_range).mpr
    intro position
    rw [List.mem_range]
    exact ⟨fun taken => underWay.inside position (List.mem_append_right _ taken),
      complete position⟩
  · apply List.pairwise_iff_forall_sublist.mpr
    intro earlier later front arrow
    obtain ⟨earlierTaken, laterTaken⟩ := before_mem front
    have inside := underWay.inside later (List.mem_append_right _ laterTaken)
    have back := sortEnd_forward graph balanced later earlier ⟨inside, arrow⟩ earlierTaken
    exact before_irrefl underWay.taken_distinct earlier
      (before_trans underWay.taken_distinct front back)

/-! ## Cycles -/

/-- Whatever leads to a position taken is taken earlier. -/
theorem sortEnd_path (graph : Dag V E) (balanced : graph.Balanced) {source target : Nat}
    (path : Relation.TransGen graph.HasArrow source target)
    (taken : target ∈ graph.sortEnd.taken) : Before graph.sortEnd.taken source target := by
  have forward := sortEnd_forward graph balanced
  induction path with
  | single arrow => exact forward _ _ arrow taken
  | tail _ arrow inductionHypothesis =>
      have back := forward _ _ arrow taken
      exact before_trans (sortEnd_finished graph).1.taken_distinct
        (inductionHypothesis (before_mem back).1) back

/-- A sort takes exactly the positions which are not behind a cycle of arrows.

A position left over has a predecessor left over. Paths to positions that no cycle leads to are
well founded, since there are finitely many positions, so such a position is not left over. -/
theorem sortEnd_taken_iff (graph : Dag V E) (balanced : graph.Balanced) (position : Nat)
    (inside : position < graph.size) :
    position ∈ graph.sortEnd.taken ↔ ¬ BehindCycle graph.HasArrow position := by
  obtain ⟨underWay, finished⟩ := sortEnd_finished graph
  constructor
  · rintro taken ⟨start, cycle, path⟩
    have startTaken : start ∈ graph.sortEnd.taken := by
      rcases Relation.reflTransGen_iff_eq_or_transGen.mp path with rfl | further
      · exact taken
      · exact (before_mem (sortEnd_path graph balanced further taken)).1
    exact before_irrefl underWay.taken_distinct start
      (sortEnd_path graph balanced cycle startTaken)
  · let leads : Fin graph.size → Fin graph.size → Prop := fun source target =>
      Relation.TransGen graph.HasArrow source target ∧ ¬ BehindCycle graph.HasArrow target
    have transitive : IsTrans (Fin graph.size) leads :=
      ⟨fun _ _ _ front back => ⟨front.1.trans back.1, back.2⟩⟩
    have irreflexive : Std.Irrefl leads :=
      ⟨fun start cycle => cycle.2 ⟨start, cycle.1, .refl⟩⟩
    have wellFounded : WellFounded leads := Finite.wellFounded_of_trans_of_irrefl leads
    have taken : ∀ target : Fin graph.size,
        ¬ BehindCycle graph.HasArrow target → target.val ∈ graph.sortEnd.taken := by
      intro target
      induction target using wellFounded.induction with
      | _ target inductionHypothesis =>
          intro free
          by_contra left
          obtain ⟨source, sourceInside, sourceLeft, arrow⟩ :=
            underWay.predecessor_left balanced target target.isLt (by simpa [finished] using left)
          have step : graph.HasArrow source target := ⟨sourceInside, arrow⟩
          exact sourceLeft (inductionHypothesis ⟨source, sourceInside⟩ ⟨.single step, free⟩
            fun behind => free (behind.step step))
    exact taken ⟨position, inside⟩

/-! ## Arrows by ids -/

/-- An edge that started at one vertex when the graph was built ends at another now. -/
def Follows (graph : Dag V E) (source destination : String) : Prop :=
  ∃ pair ∈ graph.edges.zip graph.links, pair.2.source = source ∧
    (Arc.link pair.1).destination = destination

/-- Vertices have their indexed ids, and edges started and end at vertices. -/
structure Filed (graph : Dag V E) : Prop where
  indexed : graph.ids = graph.vertices.map Node.id
  distinct : graph.ids.Nodup
  paired : graph.links.length = graph.edges.length
  starts : ∀ link ∈ graph.links, link.source ∈ graph.ids
  ends : ∀ edge ∈ graph.edges, (Arc.link edge).destination ∈ graph.ids

namespace Filed

variable {graph : Dag V E}

/-- An id is found at a position exactly if it is indexed there. -/
theorem position?_iff (filed : graph.Filed) (id : String) (position : Nat) :
    graph.position? id = some position ↔ graph.ids[position]? = some id :=
  idxOf?_eq_some_iff_getElem? graph.ids filed.distinct id position

/-- The position of an indexed id is where it stands in the index. -/
theorem position_eq (filed : graph.Filed) {id : String} {position : Nat}
    (stands : graph.ids[position]? = some id) : graph.position id = position := by
  rw [Dag.position, (filed.position?_iff id position).mpr stands, Option.getD_some]

/-- A known id stands at its position. -/
theorem stands (filed : graph.Filed) {id : String} (known : id ∈ graph.ids) :
    graph.ids[graph.position id]? = some id := by
  obtain ⟨position, stands⟩ := List.mem_iff_getElem?.mp known
  rwa [filed.position_eq stands]

/-- A graph has as many vertices as indexed ids. -/
theorem size_eq (filed : graph.Filed) : graph.size = graph.ids.length := by
  rw [filed.indexed, List.length_map, size]

/-- The arrows from a position are the edges followed from the vertex that stands there. -/
theorem targets_eq (filed : graph.Filed) {position : Nat} {id : String}
    (stands : graph.ids[position]? = some id) :
    graph.targets position = ((graph.edges.zip graph.links).filter fun pair =>
      pair.2.source = id).map fun pair => graph.endPosition pair.1 := by
  rw [filed.indexed, List.getElem?_map] at stands
  obtain ⟨vertex, atPosition, rfl⟩ := Option.map_eq_some_iff.mp stands
  simp only [targets, outgoingAt, atPosition, Option.elim_some, outgoing, edgesWhere, List.map_map]
  rfl

/-- Every edge is followed once, from the vertex at which it started. -/
theorem balanced (filed : graph.Filed) : graph.Balanced := by
  have followed : (List.range graph.size).flatMap graph.targets =
      graph.ids.flatMap fun id => ((graph.edges.zip graph.links).filter fun pair =>
        pair.2.source = id).map fun pair => graph.endPosition pair.1 := by
    rw [← range_flatMap_getElem? graph.ids, filed.size_eq]
    apply List.flatMap_congr
    intro position member
    have stands := List.getElem?_eq_getElem (List.mem_range.mp member)
    rw [filed.targets_eq stands, stands, Option.elim_some]
  have edges : graph.edges = (graph.edges.zip graph.links).map Prod.fst :=
    (List.map_fst_zip (Nat.le_of_eq filed.paired.symm)).symm
  unfold Balanced
  rw [followed, ← List.map_flatMap, edges, List.map_map, ← edges]
  refine List.Perm.map _ (flatMap_filter_perm (fun pair => pair.2.source) graph.ids filed.distinct
    (graph.edges.zip graph.links) ?_)
  intro pair member
  exact filed.starts pair.2 (List.of_mem_zip member).2

/-- Both ends of a followed edge are known. -/
theorem follows_known (filed : graph.Filed) {source destination : String}
    (follows : graph.Follows source destination) :
    source ∈ graph.ids ∧ destination ∈ graph.ids := by
  obtain ⟨pair, member, rfl, rfl⟩ := follows
  obtain ⟨edgeIn, linkIn⟩ := List.of_mem_zip member
  exact ⟨filed.starts pair.2 linkIn, filed.ends pair.1 edgeIn⟩

/-- Arrows between positions are followed edges between the vertices that stand there. -/
theorem hasArrow_iff (filed : graph.Filed) (first second : Nat) :
    graph.HasArrow first second ↔ ∃ source destination, graph.ids[first]? = some source ∧
      graph.ids[second]? = some destination ∧ graph.Follows source destination := by
  constructor
  · rintro ⟨inside, arrow⟩
    rw [filed.size_eq] at inside
    have stands := List.getElem?_eq_getElem inside
    rw [filed.targets_eq stands] at arrow
    obtain ⟨pair, chosen, rfl⟩ := List.mem_map.mp arrow
    obtain ⟨member, starting⟩ := List.mem_filter.mp chosen
    have follows : graph.Follows _ (Arc.link pair.1).destination :=
      ⟨pair, member, by simpa using starting, rfl⟩
    exact ⟨_, _, stands, filed.stands (filed.follows_known follows).2, follows⟩
  · rintro ⟨source, destination, atFirst, atSecond, pair, member, rfl, rfl⟩
    obtain ⟨inside, _⟩ := List.getElem?_eq_some_iff.mp atFirst
    refine ⟨filed.size_eq ▸ inside, ?_⟩
    rw [filed.targets_eq atFirst]
    exact List.mem_map.mpr ⟨pair, List.mem_filter.mpr ⟨member, by simp⟩, filed.position_eq atSecond⟩

/-- A position is behind a cycle of arrows if its vertex is behind a cycle of followed edges. -/
theorem behindCycle_iff (filed : graph.Filed) {position : Nat} {id : String}
    (stands : graph.ids[position]? = some id) :
    BehindCycle graph.HasArrow position ↔ BehindCycle graph.Follows id := by
  have toIds : ∀ first second, graph.HasArrow first second →
      graph.Follows (graph.ids[first]?.getD "") (graph.ids[second]?.getD "") := by
    intro first second arrow
    obtain ⟨source, destination, atFirst, atSecond, follows⟩ := (filed.hasArrow_iff _ _).mp arrow
    rwa [atFirst, atSecond]
  have toPositions : ∀ source destination, graph.Follows source destination →
      graph.HasArrow (graph.position source) (graph.position destination) := by
    intro source destination follows
    obtain ⟨sourceKnown, destinationKnown⟩ := filed.follows_known follows
    exact (filed.hasArrow_iff _ _).mpr
      ⟨source, destination, filed.stands sourceKnown, filed.stands destinationKnown, follows⟩
  constructor
  · intro behind
    have carried := behind.lift _ toIds
    rwa [stands, Option.getD_some] at carried
  · intro behind
    have carried := behind.lift _ toPositions
    rwa [filed.position_eq stands] at carried

/-- A filed graph reports the vertices behind cycles of followed edges. -/
theorem mem_stuck_iff (filed : graph.Filed) (id : String) :
    id ∈ graph.stuck graph.sortEnd ↔ BehindCycle graph.Follows id := by
  rw [Dag.mem_stuck_iff, ← filed.indexed]
  constructor
  · rintro ⟨position, inside, left, stands⟩
    rw [sortEnd_taken_iff graph filed.balanced position inside, not_not] at left
    exact (filed.behindCycle_iff stands).mp left
  · intro behind
    obtain ⟨_, last⟩ := behind.entered
    have stands := filed.stands (filed.follows_known last).2
    have inside : graph.position id < graph.size :=
      filed.size_eq ▸ (List.getElem?_eq_some_iff.mp stands).1
    refine ⟨graph.position id, inside, ?_, stands⟩
    rw [sortEnd_taken_iff graph filed.balanced _ inside, not_not]
    exact (filed.behindCycle_iff stands).mpr behind

/-- A filed graph can be sorted exactly if no path of followed edges leads back to its start. -/
theorem sorts_iff (filed : graph.Filed) :
    (∃ order, graph.sort = .ok order) ↔ ∀ id, ¬ Relation.TransGen graph.Follows id id := by
  simp only [sort_ok_iff, exists_and_left, exists_eq, and_true, ← stuck_eq_nil_iff,
    List.eq_nil_iff_forall_not_mem, filed.mem_stuck_iff]
  constructor
  · intro free id cycle
    exact free id ⟨id, cycle, .refl⟩
  · rintro acyclic id ⟨start, cycle, _⟩
    exact acyclic start cycle

end Filed

end Dag

end Flowplan
