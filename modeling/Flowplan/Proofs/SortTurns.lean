import Flowplan.Graph.Order
import Mathlib.Data.List.Nodup
import Mathlib.Data.List.Perm.Subperm

/-!
# The turns of a topological sort

A sort is followed by the positions whose counters have been lowered. `Consistent` says what
holds between them and the sort at any time: a counter is its initial value less the number of
times it was lowered, and the positions which are ready or taken are those whose counter is
not positive, each of them once. This needs no assumption on the graph, so it holds as well of
one whose vertices and edges were changed after it had been built.

So a sort ends after as many turns as there are vertices, and what it leaves are the positions
whose counter is still positive (`sortEnd_left_iff`). `Loops` is the same sort without a number of
turns given in advance: it goes on while something is ready.
-/

namespace Flowplan

/-! ## Inserting a position -/

/-- A position that is inserted is added to the others. -/
theorem insertPosition_perm (position : Nat) (positions : List Nat) :
    (insertPosition position positions).Perm (position :: positions) := by
  induction positions with
  | nil => exact List.Perm.refl _
  | cons first rest inductionHypothesis =>
      unfold insertPosition
      split
      · exact List.Perm.refl _
      · exact (inductionHypothesis.cons first).trans (List.Perm.swap position first rest)

/-! ## Counters, ready and taken positions -/

namespace Sorting

/-- A sort after the given positions have been lowered, in a graph with the given counters. -/
structure Consistent (initial : List Int) (lowered : List Nat) (sorting : Sorting) : Prop where
  counted : ∀ position, sorting.counters[position]? =
    (initial[position]?).map fun counter => counter - (lowered.count position : Int)
  once : (sorting.ready ++ sorting.taken).Nodup
  settled : ∀ position, position ∈ sorting.ready ++ sorting.taken ↔
    ∃ counter, sorting.counters[position]? = some counter ∧ counter ≤ 0

/-- Lowering changes one counter, by one. -/
theorem lower_counter (sorting : Sorting) (position asked : Nat) :
    (sorting.lower position).counters[asked]? =
      (sorting.counters[asked]?).map fun counter =>
        if asked = position then counter - 1 else counter := by
  simp only [lower, List.getElem?_set, List.getD_eq_getElem?_getD]
  by_cases same : position = asked
  · subst same
    by_cases inside : position < sorting.counters.length
    · simp [inside]
    · simp [inside]
  · have different : asked ≠ position := Ne.symm same
    simp [same, different]

/-- Lowering a counter takes no position. -/
@[simp] theorem lower_taken (sorting : Sorting) (position : Nat) :
    (sorting.lower position).taken = sorting.taken := rfl

/-- What is ready after a counter was lowered: the position if its counter has just reached
zero, and whatever was ready before. -/
theorem lower_ready_perm (sorting : Sorting) (position : Nat) :
    (sorting.lower position).ready.Perm
      ((if sorting.counters[position]? = some 1 then [position] else []) ++ sorting.ready) := by
  simp only [lower, List.getD_eq_getElem?_getD]
  cases stored : sorting.counters[position]? with
  | none => simp
  | some counter =>
      by_cases last : counter = 1
      · subst last
        simpa using insertPosition_perm position sorting.ready
      · have nonzero : counter - 1 ≠ 0 := by omega
        simp [last, nonzero]

/-- Lowering a counter keeps the sort consistent. A position becomes ready only when its counter
reaches zero, which happens once because counters only fall. -/
theorem lower_consistent {initial : List Int} {lowered : List Nat} {sorting : Sorting}
    (consistent : sorting.Consistent initial lowered) (position : Nat) :
    (sorting.lower position).Consistent initial (lowered ++ [position]) := by
  have ready := (lower_ready_perm sorting position).append_right sorting.taken
  have settled := consistent.settled
  refine ⟨?_, ?_, ?_⟩
  · intro asked
    rw [lower_counter, consistent.counted, Option.map_map]
    congr 1
    funext counter
    by_cases same : asked = position
    · subst same
      simp only [Function.comp_apply, ↓reduceIte, List.count_append, List.count_singleton_self]
      omega
    · have different : position ≠ asked := Ne.symm same
      simp [same, different]
  · rw [lower_taken, ready.nodup_iff]
    by_cases last : sorting.counters[position]? = some 1
    · -- the counter was 1, so the position was neither ready nor taken before
      have new : position ∉ sorting.ready ++ sorting.taken := by
        rw [settled]
        rintro ⟨counter, stored, bound⟩
        rw [last] at stored
        cases stored
        omega
      simpa [last] using And.intro (by simpa using new) consistent.once
    · simpa [last] using consistent.once
  · intro asked
    rw [lower_taken, ready.mem_iff, List.append_assoc, List.mem_append, settled, lower_counter]
    by_cases same : asked = position
    · subst same
      cases stored : sorting.counters[asked]? with
      | none => simp
      | some counter =>
          by_cases last : counter = 1
          · subst last
            simp
          · simp [last]
            omega
    · have absent : asked ∉ if sorting.counters[position]? = some 1 then [position] else [] := by
        split <;> simp [same]
      simp [absent, same]

/-- Lowering several counters one after another keeps the sort consistent. -/
theorem lowerAll_consistent {initial : List Int} {lowered : List Nat} {sorting : Sorting}
    (consistent : sorting.Consistent initial lowered) (positions : List Nat) :
    (positions.foldl lower sorting).Consistent initial (lowered ++ positions) := by
  induction positions generalizing lowered sorting with
  | nil => simpa using consistent
  | cons position rest inductionHypothesis =>
      simpa using inductionHypothesis (lower_consistent consistent position)

/-- Lowering several counters takes no position. -/
theorem lowerAll_taken (positions : List Nat) (sorting : Sorting) :
    (positions.foldl lower sorting).taken = sorting.taken := by
  induction positions generalizing sorting with
  | nil => rfl
  | cons position rest inductionHypothesis =>
      rw [List.foldl_cons, inductionHypothesis, lower_taken]

end Sorting

namespace Dag

variable {V E : Type} [Node V] [Arc E]

/-! ## Turns -/

/-- The positions lowered when the vertex at a position is taken. -/
def targets (graph : Dag V E) (position : Nat) : List Nat :=
  (graph.outgoingAt position).map graph.endPosition

/-- A sort on its way: what has been lowered belongs to the vertices taken. -/
def UnderWay (graph : Dag V E) (sorting : Sorting) : Prop :=
  sorting.Consistent graph.counters (sorting.taken.flatMap graph.targets)

/-- A turn takes the first position that is ready, and lowers the counters of its targets. -/
theorem sortTurn_of_ready (graph : Dag V E) (sorting : Sorting) (position : Nat) (rest : List Nat)
    (ready : sorting.ready = position :: rest) :
    graph.sortTurn sorting = (graph.targets position).foldl Sorting.lower
      { sorting with ready := rest, taken := sorting.taken ++ [position] } := by
  simp only [sortTurn, ready, targets, List.foldl_map]

/-- Nothing happens in a turn when no position is ready. -/
theorem sortTurn_of_nothing (graph : Dag V E) (sorting : Sorting) (nothing : sorting.ready = []) :
    graph.sortTurn sorting = sorting := by
  simp only [sortTurn, nothing]

/-- A turn with something ready takes exactly the first ready position. -/
theorem sortTurn_taken (graph : Dag V E) (sorting : Sorting) (position : Nat) (rest : List Nat)
    (ready : sorting.ready = position :: rest) :
    (graph.sortTurn sorting).taken = sorting.taken ++ [position] := by
  rw [sortTurn_of_ready graph sorting position rest ready, Sorting.lowerAll_taken]

/-- A turn leaves a sort on its way. -/
theorem sortTurn_underWay (graph : Dag V E) (sorting : Sorting)
    (underWay : graph.UnderWay sorting) : graph.UnderWay (graph.sortTurn sorting) := by
  cases ready : sorting.ready with
  | nil => rwa [sortTurn_of_nothing graph sorting ready]
  | cons position rest =>
      have moved : (rest ++ (sorting.taken ++ [position])).Perm
          (sorting.ready ++ sorting.taken) := by
        rw [ready, ← List.append_assoc]
        exact List.perm_append_singleton position (rest ++ sorting.taken)
      have begun : Sorting.Consistent graph.counters (sorting.taken.flatMap graph.targets)
          { sorting with ready := rest, taken := sorting.taken ++ [position] } := by
        refine ⟨underWay.counted, moved.nodup_iff.mpr underWay.once, fun asked => ?_⟩
        exact moved.mem_iff.trans (underWay.settled asked)
      unfold UnderWay
      rw [sortTurn_taken graph sorting position rest ready, List.flatMap_append,
        List.flatMap_singleton, sortTurn_of_ready graph sorting position rest ready]
      exact Sorting.lowerAll_consistent begun (graph.targets position)

omit [Node V] in
/-- The counter of a position counts the edges that end there. -/
theorem counters_getElem? (graph : Dag V E) (position : Nat) :
    graph.counters[position]? = if position < graph.size then
      some ((graph.edges.map graph.endPosition).count position : Int) else none := by
  unfold counters
  split
  · rename_i inside
    simp [List.getElem?_range inside]
  · rename_i outside
    simp [Nat.le_of_not_lt outside]

/-- At first the ready positions are those at which no edge ends. -/
theorem sortStart_underWay (graph : Dag V E) : graph.UnderWay graph.sortStart := by
  have stored := graph.counters_getElem?
  refine ⟨?_, ?_, ?_⟩
  · intro position
    simp [sortStart]
  · simpa [sortStart] using List.nodup_range.filter _
  · intro position
    simp only [sortStart, List.append_nil, List.mem_filter, List.mem_range, decide_eq_true_eq,
      List.getD_eq_getElem?_getD, stored]
    by_cases inside : position < graph.size
    · simp only [inside, ↓reduceIte, Option.getD_some, true_and, Option.some.injEq, exists_eq_left']
      omega
    · simp [inside]

/-- However many turns are made, a sort stays on its way. -/
theorem sortTurns_underWay (graph : Dag V E) (turns : Nat) (sorting : Sorting)
    (underWay : graph.UnderWay sorting) : graph.UnderWay (graph.sortTurns turns sorting) := by
  induction turns generalizing sorting with
  | zero => exact underWay
  | succ turns inductionHypothesis =>
      exact inductionHypothesis _ (sortTurn_underWay graph sorting underWay)

/-- Turns do nothing once no position is ready. -/
theorem sortTurns_of_nothing (graph : Dag V E) (turns : Nat) (sorting : Sorting)
    (nothing : sorting.ready = []) : graph.sortTurns turns sorting = sorting := by
  induction turns with
  | zero => rfl
  | succ turns inductionHypothesis =>
      rw [sortTurns, sortTurn_of_nothing graph sorting nothing, inductionHypothesis]

/-- Every turn takes a vertex until nothing is ready, and from then on nothing changes. -/
theorem sortTurns_progress (graph : Dag V E) (turns : Nat) (sorting : Sorting) :
    (graph.sortTurns turns sorting).ready = [] ∨
      (graph.sortTurns turns sorting).taken.length = sorting.taken.length + turns := by
  induction turns generalizing sorting with
  | zero => exact Or.inr rfl
  | succ turns inductionHypothesis =>
      rw [sortTurns]
      cases ready : sorting.ready with
      | nil =>
          rw [sortTurn_of_nothing graph sorting ready,
            sortTurns_of_nothing graph turns sorting ready]
          exact Or.inl ready
      | cons position rest =>
          have length := congrArg List.length (sortTurn_taken graph sorting position rest ready)
          rcases inductionHypothesis (graph.sortTurn sorting) with finished | counted
          · exact Or.inl finished
          · refine Or.inr ?_
            simp only [List.length_append, List.length_singleton] at length
            omega

/-- Ready and taken positions are positions of vertices. -/
theorem UnderWay.inside {graph : Dag V E} {sorting : Sorting} (underWay : graph.UnderWay sorting)
    (position : Nat) (member : position ∈ sorting.ready ++ sorting.taken) :
    position < graph.size := by
  obtain ⟨counter, stored, _⟩ := (underWay.settled position).mp member
  rw [underWay.counted, counters_getElem?] at stored
  by_contra outside
  simp [outside] at stored

/-- As many turns as there are vertices leave nothing ready. -/
theorem sortEnd_finished (graph : Dag V E) :
    graph.UnderWay graph.sortEnd ∧ graph.sortEnd.ready = [] := by
  have underWay : graph.UnderWay graph.sortEnd :=
    sortTurns_underWay graph graph.size graph.sortStart (sortStart_underWay graph)
  refine ⟨underWay, ?_⟩
  rcases sortTurns_progress graph graph.size graph.sortStart with finished | counted
  · exact finished
  · have bound : (graph.sortEnd.ready ++ graph.sortEnd.taken).length ≤ graph.size := by
      have within : (graph.sortEnd.ready ++ graph.sortEnd.taken).length ≤
          (List.range graph.size).length := by
        apply underWay.once.length_le_of_subset
        intro position member
        exact List.mem_range.mpr (underWay.inside position member)
      simpa using within
    have length : graph.sortEnd.taken.length = graph.size := by
      simpa [sortEnd, sortStart] using counted
    rw [List.length_append, length] at bound
    exact List.length_eq_zero_iff.mp (by omega)

/-! ## What the sort depends on -/

section Congruence

variable {V' E' : Type} [Node V'] [Arc E']

/-- A sort depends on the number of vertices, the counters and the arrows only. -/
theorem sortEnd_congr (graph : Dag V E) (other : Dag V' E') (size : graph.size = other.size)
    (counters : graph.counters = other.counters)
    (targets : ∀ position, graph.targets position = other.targets position) :
    graph.sortEnd = other.sortEnd := by
  have turn : ∀ sorting, graph.sortTurn sorting = other.sortTurn sorting := by
    intro sorting
    cases ready : sorting.ready with
    | nil => rw [sortTurn_of_nothing graph sorting ready, sortTurn_of_nothing other sorting ready]
    | cons position rest =>
        rw [sortTurn_of_ready graph sorting position rest ready,
          sortTurn_of_ready other sorting position rest ready, targets]
  have turns : ∀ count sorting, graph.sortTurns count sorting = other.sortTurns count sorting := by
    intro count
    induction count with
    | zero => exact fun _ => rfl
    | succ count inductionHypothesis =>
        intro sorting
        rw [sortTurns, sortTurns, turn, inductionHypothesis]
  have start : graph.sortStart = other.sortStart := by
    simp only [sortStart, counters, size]
  rw [sortEnd, sortEnd, turns, start, size]

/-- The answer of a sort depends on the ids of the vertices, the counters and the arrows only. -/
theorem sort_congr (graph : Dag V E) (other : Dag V' E')
    (ids : graph.vertices.map Node.id = other.vertices.map Node.id)
    (counters : graph.counters = other.counters)
    (targets : ∀ position, graph.targets position = other.targets position) :
    graph.sort = other.sort := by
  have size : graph.size = other.size := by simpa [Dag.size] using congrArg List.length ids
  have ending := sortEnd_congr graph other size counters targets
  have named : ∀ (W F : Type) [Node W] [Arc F] (any : Dag W F) (sorting : Sorting),
      any.stuck sorting = (((any.vertices.map Node.id).zip sorting.counters).filter fun pair =>
        0 < pair.2).map Prod.fst := by
    intro W F _ _ any sorting
    simp [stuck, List.zip_map_left, List.filter_map, Function.comp_def]
  simp only [sort, ending, size, named, ids]

end Congruence

/-! ## What is left at the end -/

/-- No position is taken twice. -/
theorem UnderWay.taken_distinct {graph : Dag V E} {sorting : Sorting}
    (underWay : graph.UnderWay sorting) : sorting.taken.Nodup :=
  underWay.once.sublist (List.sublist_append_right _ _)

/-- The positions taken and the positions left are all positions. -/
theorem UnderWay.taken_and_left {graph : Dag V E} {sorting : Sorting}
    (underWay : graph.UnderWay sorting) :
    (sorting.taken ++ (List.range graph.size).filter fun position => position ∉ sorting.taken).Perm
      (List.range graph.size) := by
  apply (List.perm_ext_iff_of_nodup ?_ List.nodup_range).mpr
  · intro position
    have inside := underWay.inside position
    simp only [List.mem_append, List.mem_filter, List.mem_range, decide_not, Bool.not_eq_true',
      decide_eq_false_iff_not] at inside ⊢
    tauto
  · refine List.nodup_append.mpr ⟨underWay.taken_distinct, List.nodup_range.filter _, ?_⟩
    rintro position taken other left rfl
    simp [taken] at left

/-- Every vertex keeps its counter. -/
theorem UnderWay.length_counters {graph : Dag V E} {sorting : Sorting}
    (underWay : graph.UnderWay sorting) : sorting.counters.length = graph.size := by
  have stored : ∀ position, sorting.counters[position]? = none ↔ graph.size ≤ position := by
    intro position
    rw [underWay.counted, counters_getElem?]
    split
    · rename_i inside
      simpa using inside
    · rename_i outside
      simpa using outside
  apply Nat.le_antisymm
  · exact List.getElem?_eq_none_iff.mp ((stored graph.size).mpr (Nat.le_refl _))
  · exact (stored _).mp (List.getElem?_eq_none_iff.mpr (Nat.le_refl _))

/-- The positions left are those whose counter is still positive. -/
theorem sortEnd_left_iff (graph : Dag V E) (position : Nat) (inside : position < graph.size) :
    position ∉ graph.sortEnd.taken ↔
      ∃ counter, graph.sortEnd.counters[position]? = some counter ∧ 0 < counter := by
  obtain ⟨underWay, finished⟩ := sortEnd_finished graph
  have settled := underWay.settled position
  rw [finished, List.nil_append] at settled
  have stored := List.getElem?_eq_getElem (underWay.length_counters ▸ inside)
  rw [settled, stored]
  simp

/-- Everything is taken if as many positions are taken as there are. -/
theorem length_taken_iff (graph : Dag V E) :
    graph.sortEnd.taken.length = graph.size ↔
      ∀ position < graph.size, position ∈ graph.sortEnd.taken := by
  obtain ⟨underWay, _⟩ := sortEnd_finished graph
  have total := underWay.taken_and_left.length_eq
  rw [List.length_append, List.length_range] at total
  have none : graph.sortEnd.taken.length = graph.size ↔
      ((List.range graph.size).filter fun position => position ∉ graph.sortEnd.taken) = [] := by
    rw [← List.length_eq_zero_iff]
    omega
  rw [none, List.filter_eq_nil_iff]
  simp

/-- A sort succeeds exactly if it takes every vertex. -/
theorem sort_ok_iff (graph : Dag V E) (order : List Nat) :
    graph.sort = .ok order ↔
      (∀ position < graph.size, position ∈ graph.sortEnd.taken) ∧ order = graph.sortEnd.taken := by
  rw [← length_taken_iff]
  simp only [sort]
  split
  · rename_i complete
    simp [complete, eq_comm]
  · rename_i incomplete
    simp [incomplete]

/-- The vertices reported are those at the positions left. -/
theorem mem_stuck_iff (graph : Dag V E) (id : String) :
    id ∈ graph.stuck graph.sortEnd ↔ ∃ position < graph.size,
      position ∉ graph.sortEnd.taken ∧ (graph.vertices.map Node.id)[position]? = some id := by
  constructor
  · intro member
    obtain ⟨⟨vertex, counter⟩, kept, named⟩ := List.mem_map.mp member
    obtain ⟨paired, positive⟩ := List.mem_filter.mp kept
    obtain ⟨position, both⟩ := List.mem_iff_getElem?.mp paired
    obtain ⟨stands, stored⟩ := List.getElem?_zip_eq_some.mp both
    obtain ⟨inside, _⟩ := List.getElem?_eq_some_iff.mp stands
    have left := (sortEnd_left_iff graph position inside).mpr
      ⟨counter, stored, by simpa using positive⟩
    refine ⟨position, inside, left, ?_⟩
    rw [List.getElem?_map, stands, Option.map_some, ← named]
  · rintro ⟨position, inside, left, named⟩
    obtain ⟨counter, stored, positive⟩ := (sortEnd_left_iff graph position inside).mp left
    rw [List.getElem?_map] at named
    obtain ⟨vertex, stands, rfl⟩ := Option.map_eq_some_iff.mp named
    have paired : (vertex, counter) ∈ graph.vertices.zip graph.sortEnd.counters :=
      List.mem_iff_getElem?.mpr ⟨position, List.getElem?_zip_eq_some.mpr ⟨stands, stored⟩⟩
    exact List.mem_map.mpr ⟨_, List.mem_filter.mpr ⟨paired, by simpa using positive⟩, rfl⟩

/-- The vertices reported stand in the order of their insertion. -/
theorem stuck_sublist (graph : Dag V E) :
    (graph.stuck graph.sortEnd).Sublist (graph.vertices.map Node.id) := by
  have firsts : (graph.vertices.zip graph.sortEnd.counters).map Prod.fst = graph.vertices :=
    List.map_fst_zip (Nat.le_of_eq (sortEnd_finished graph).1.length_counters.symm)
  rw [← congrArg (List.map Node.id) firsts, List.map_map]
  exact List.filter_sublist.map _

/-- Nothing is reported exactly if everything is taken. -/
theorem stuck_eq_nil_iff (graph : Dag V E) :
    graph.stuck graph.sortEnd = [] ↔
      ∀ position < graph.size, position ∈ graph.sortEnd.taken := by
  rw [List.eq_nil_iff_forall_not_mem]
  constructor
  · intro nothing position inside
    by_contra left
    have stands : position < (graph.vertices.map Node.id).length := by
      rwa [List.length_map]
    exact nothing _ ((mem_stuck_iff graph _).mpr
      ⟨position, inside, left, List.getElem?_eq_getElem stands⟩)
  · intro complete id reported
    obtain ⟨position, inside, left, _⟩ := (mem_stuck_iff graph id).mp reported
    exact left (complete position inside)

/-- A sort fails exactly if it has vertices to report. -/
theorem sort_by_report (graph : Dag V E) :
    graph.sort = if graph.stuck graph.sortEnd = [] then .ok graph.sortEnd.taken
      else .error (.structural (.cycle (graph.stuck graph.sortEnd))) := by
  simp only [sort, length_taken_iff, stuck_eq_nil_iff]

/-! ## The loop -/

/-- The loop which takes ready positions until nothing is ready, with the positions in the order
in which it takes them. It stops short of a turn whose position is not the position of a vertex,
or which lowers a counter that is not there. -/
inductive Loops (graph : Dag V E) : Sorting → List Nat → Sorting → Prop
  | done {sorting : Sorting} (nothing : sorting.ready = []) : Loops graph sorting [] sorting
  | turn {sorting after : Sorting} {position : Nat} {rest taken : List Nat}
      (ready : sorting.ready = position :: rest) (stands : position < graph.size)
      (counted : ∀ target ∈ graph.targets position, target < sorting.counters.length)
      (later : Loops graph (graph.sortTurn sorting) taken after) :
      Loops graph sorting (position :: taken) after

/-- Turns that leave nothing ready are a run of the loop, if all edges end at vertices. -/
theorem loops_of_turns {graph : Dag V E}
    (inside : ∀ position, ∀ target ∈ graph.targets position, target < graph.size) (turns : Nat)
    {sorting : Sorting} (underWay : graph.UnderWay sorting)
    (finished : (graph.sortTurns turns sorting).ready = []) :
    ∃ following, (graph.sortTurns turns sorting).taken = sorting.taken ++ following ∧
      graph.Loops sorting following (graph.sortTurns turns sorting) := by
  induction turns generalizing sorting with
  | zero => exact ⟨[], by simp [sortTurns], .done finished⟩
  | succ turns inductionHypothesis =>
      cases ready : sorting.ready with
      | nil =>
          rw [sortTurns_of_nothing graph _ sorting ready]
          exact ⟨[], by simp, .done ready⟩
      | cons position rest =>
          obtain ⟨following, taken, later⟩ :=
            inductionHypothesis (sortTurn_underWay graph sorting underWay) finished
          rw [sortTurn_taken graph sorting position rest ready, List.append_assoc,
            List.singleton_append] at taken
          refine ⟨position :: following, taken, .turn ready ?_ ?_ later⟩
          · exact underWay.inside position (by simp [ready])
          · rw [underWay.length_counters]
            exact inside position

end Dag

end Flowplan
