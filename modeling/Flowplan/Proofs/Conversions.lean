import Flowplan.Graph.Traversal
import Flowplan.Proofs.BuilderCalls

/-!
# Conversions of graphs

A converter may do anything when it is called: keep a state of its own, and refuse at any call. What
a conversion asks of it is watched from outside (`Converter.recorded`): the record lists every call
with its answer, and recording changes neither the outcome nor the state.

The visits of a conversion are followed as a relation (`Converter.Tours`), with one case for each
way the walk over the vertices can go. The facts about a built graph are then applied to the visits:
its order lists the source of every edge before its destination.
-/

namespace Flowplan

variable {V E S R : Type}

/-- A vertex that a converter was asked to visit, the edges handed to it, and its answer. -/
structure Visit (V E : Type) where
  vertex : V
  incoming : List E
  answer : Except Fault Unit

namespace Converter

/-- A call to a converter, with its answer. -/
inductive Call (V E R : Type) where
  | visited (visit : Visit V E)
  | concluded (answer : Except Fault R)

/-- The converter with a record of the calls made to it. -/
def recorded (converter : Converter V E S R) : Converter V E (S × List (Call V E R)) R where
  visit vertex incoming recording :=
    let made := converter.visit vertex incoming recording.1
    (made.1, made.2, recording.2 ++ [.visited ⟨vertex, incoming, made.1⟩])
  result recording :=
    let made := converter.result recording.1
    (made.1, made.2, recording.2 ++ [.concluded made.1])

/-- A recorded converter visits like the converter itself, and notes the visit with its answer. -/
theorem recorded_visit (converter : Converter V E S R) (vertex : V) (incoming : List E)
    (recording : S × List (Call V E R)) :
    converter.recorded.visit vertex incoming recording =
      ((converter.visit vertex incoming recording.1).1,
        (converter.visit vertex incoming recording.1).2,
        recording.2 ++ [.visited ⟨vertex, incoming,
          (converter.visit vertex incoming recording.1).1⟩]) := rfl

/-- A recorded converter concludes like the converter itself, and notes the answer. -/
theorem recorded_result (converter : Converter V E S R) (recording : S × List (Call V E R)) :
    converter.recorded.result recording =
      ((converter.result recording.1).1, (converter.result recording.1).2,
        recording.2 ++ [.concluded (converter.result recording.1).1]) := rfl

variable [Node V]

/-- The visits made to listed vertices one after another, with the answer and the state at the end.
A visit that fails is the last one. -/
inductive Tours (converter : Converter V E S R) (graph : Dag V E) :
    List V → S → List (Visit V E) → Except Fault Unit × S → Prop
  | finished (state : S) : Tours converter graph [] state [] (.ok (), state)
  | fails {vertex : V} {rest : List V} {state after : S} {fault : Fault}
      (refused : converter.visit vertex (graph.incoming (Node.id vertex)) state =
        (.error fault, after)) :
      Tours converter graph (vertex :: rest) state
        [⟨vertex, graph.incoming (Node.id vertex), .error fault⟩] (.error fault, after)
  | goesOn {vertex : V} {rest : List V} {state after : S} {visits : List (Visit V E)}
      {ended : Except Fault Unit × S}
      (made : converter.visit vertex (graph.incoming (Node.id vertex)) state = (.ok (), after))
      (onward : Tours converter graph rest after visits ended) :
      Tours converter graph (vertex :: rest) state
        (⟨vertex, graph.incoming (Node.id vertex), .ok ()⟩ :: visits) ended

variable {converter : Converter V E S R} {graph : Dag V E}

/-- Visiting listed vertices one after another is a tour. -/
theorem visitAll_tours (converter : Converter V E S R) (graph : Dag V E) (vertices : List V)
    (state : S) :
    ∃ visits, converter.Tours graph vertices state visits
      (converter.visitAll graph vertices state) := by
  induction vertices generalizing state with
  | nil => exact ⟨[], .finished state⟩
  | cons vertex rest inductionHypothesis =>
      unfold visitAll
      cases visited : converter.visit vertex (graph.incoming (Node.id vertex)) state with
      | mk answer after =>
          cases answer with
          | error fault => exact ⟨_, .fails visited⟩
          | ok _ =>
              obtain ⟨visits, onward⟩ := inductionHypothesis after
              exact ⟨_, .goesOn visited onward⟩

namespace Tours

variable {vertices : List V} {state : S} {visits : List (Visit V E)}
  {ended : Except Fault Unit × S}

/-- Recording notes the visits, and changes nothing else. -/
theorem recorded_eq (tours : converter.Tours graph vertices state visits ended)
    (record : List (Call V E R)) :
    converter.recorded.visitAll graph vertices (state, record) =
      (ended.1, ended.2, record ++ visits.map .visited) := by
  induction tours generalizing record with
  | finished state => simp [visitAll]
  | fails refused => simp [visitAll, recorded_visit, refused]
  | goesOn made onward inductionHypothesis =>
      simp [visitAll, recorded_visit, made, inductionHypothesis]

/-- A tour visits the vertices as they are listed, up to one of them. -/
theorem order (tours : converter.Tours graph vertices state visits ended) :
    visits.map Visit.vertex <+: vertices := by
  induction tours with
  | finished state => exact List.nil_prefix
  | fails refused => simp
  | goesOn made onward inductionHypothesis =>
      exact List.cons_prefix_cons.mpr ⟨rfl, inductionHypothesis⟩

/-- Every visit is handed the edges that end at its vertex. -/
theorem incoming_eq (tours : converter.Tours graph vertices state visits ended) :
    ∀ visit ∈ visits, visit.incoming = graph.incoming (Node.id visit.vertex) := by
  induction tours with
  | finished state => simp
  | fails refused => simp
  | goesOn made onward inductionHypothesis =>
      exact List.forall_mem_cons.mpr ⟨rfl, inductionHypothesis⟩

/-- All the vertices were visited and no visit failed, or the last visit failed and no other. -/
theorem ending (tours : converter.Tours graph vertices state visits ended) :
    (ended.1 = .ok () ∧ visits.map Visit.vertex = vertices ∧
        ∀ visit ∈ visits, visit.answer = .ok ()) ∨
      ∃ front last fault, ended.1 = .error fault ∧ visits = front ++ [last] ∧
        last.answer = .error fault ∧ ∀ visit ∈ front, visit.answer = .ok () := by
  induction tours with
  | finished state => exact Or.inl ⟨rfl, rfl, by simp⟩
  | @fails vertex rest state after fault refused =>
      exact Or.inr ⟨[], _, fault, rfl, rfl, rfl, by simp⟩
  | goesOn made onward inductionHypothesis =>
      rcases inductionHypothesis with
        ⟨answered, all, passed⟩ | ⟨front, last, fault, answered, rfl, failed, passed⟩
      · exact Or.inl ⟨answered, congrArg (List.cons _) all, List.forall_mem_cons.mpr ⟨rfl, passed⟩⟩
      · exact Or.inr ⟨_ :: front, last, fault, answered, rfl, failed,
          List.forall_mem_cons.mpr ⟨rfl, passed⟩⟩

end Tours

/-- A conversion asks for its visits, and for the result if no visit failed. -/
theorem convert_tours (converter : Converter V E S R) (graph : Dag V E) (state : S) :
    ∃ visits conclusions ended, converter.Tours graph graph.topological state visits ended ∧
      converter.recorded.convert graph (state, []) =
        ((converter.convert graph state).1, (converter.convert graph state).2,
          visits.map .visited ++ conclusions.map .concluded) ∧
      (ended.1 = .ok () → conclusions = [(converter.convert graph state).1]) ∧
      ∀ fault, ended.1 = .error fault →
        conclusions = [] ∧ (converter.convert graph state).1 = .error fault := by
  obtain ⟨visits, tours⟩ := converter.visitAll_tours graph graph.topological state
  have noted := tours.recorded_eq []
  cases walked : converter.visitAll graph graph.topological state with
  | mk answer after =>
      rw [walked] at tours noted
      cases answer with
      | error fault => exact ⟨visits, [], _, tours, by simp [convert, walked, noted]⟩
      | ok _ =>
          refine ⟨visits, [(converter.result after).1], _, tours, ?_⟩
          simp [convert, walked, noted, recorded_result]

end Converter

/-! ## Visits in topological order -/

variable [Node V] [Arc E]

namespace Dag.Intact

variable {graph : Dag V E} {visits : List (Visit V E)}

/-- No vertex is visited twice. -/
theorem visits_distinct (intact : graph.Intact)
    (order : visits.map Visit.vertex <+: graph.topological) :
    (visits.map fun visit => Node.id visit.vertex).Nodup := by
  have listed : (visits.map Visit.vertex).map Node.id <+: graph.topological.map Node.id :=
    order.map Node.id
  rw [List.map_map] at listed
  exact intact.topological_distinct.sublist listed.sublist

/-- When a vertex is visited, the sources of its incoming edges have been visited. -/
theorem sources_visited (intact : graph.Intact)
    (order : visits.map Visit.vertex <+: graph.topological) {front back : List (Visit V E)}
    {visit : Visit V E} (split : visits = front ++ visit :: back) (edge : E)
    (delivered : edge ∈ graph.incoming (Node.id visit.vertex)) :
    (Arc.link edge).source ∈ front.map fun earlier => Node.id earlier.vertex := by
  rw [intact.incoming_eq, List.mem_filter, decide_eq_true_iff] at delivered
  obtain ⟨member, ends⟩ := delivered
  obtain ⟨rest, whole⟩ := order
  have cut : graph.topological.map Node.id =
      (front.map fun earlier => Node.id earlier.vertex) ++ Node.id visit.vertex ::
        ((back.map fun later => Node.id later.vertex) ++ rest.map Node.id) := by
    simp [← whole, split, Function.comp_def]
  have before := intact.source_before _ _ ⟨edge, member, rfl, ends⟩
  have distinct := intact.topological_distinct
  rw [cut] at before distinct
  exact mem_front_of_before distinct before

end Dag.Intact

/-- A conversion of a built graph visits vertices in topological order, each at most once and with
the edges that end at it, in the order in which these were added. The sources of these edges have
been visited before. If no visit fails, all vertices are visited, every edge is handed over once,
and the result is asked for once, which is the outcome. Otherwise the first visit that fails is the
last call, and its fault is the outcome. -/
theorem conversion_calls (calls : List (Builder.Call V E)) (graph : Dag V E)
    (built : (Builder.empty.afterCalls calls).build = .ok graph) (converter : Converter V E S R)
    (state : S) :
    ∃ visits conclusions,
      converter.recorded.convert graph (state, []) =
        ((converter.convert graph state).1, (converter.convert graph state).2,
          visits.map .visited ++ conclusions.map .concluded) ∧
      visits.map Visit.vertex <+: graph.topological ∧
      (visits.map fun visit => Node.id visit.vertex).Nodup ∧
      (∀ front visit back, visits = front ++ visit :: back →
        visit.incoming = (graph.edges.filter fun edge =>
          (Arc.link edge).destination = Node.id visit.vertex) ∧
        ∀ edge ∈ visit.incoming,
          (Arc.link edge).source ∈ front.map fun earlier => Node.id earlier.vertex) ∧
      ((∀ visit ∈ visits, visit.answer = .ok ()) ∧
          visits.map Visit.vertex = graph.topological ∧
          (visits.flatMap Visit.incoming).Perm graph.edges ∧
          conclusions = [(converter.convert graph state).1] ∨
        ∃ front last fault, visits = front ++ [last] ∧ (∀ visit ∈ front, visit.answer = .ok ()) ∧
          last.answer = .error fault ∧ conclusions = [] ∧
          (converter.convert graph state).1 = .error fault) := by
  have intact := (Builder.Reached.empty.afterCalls calls).proper.build_intact graph built |>.1
  obtain ⟨visits, conclusions, ended, tours, noted, concluded, broken⟩ :=
    converter.convert_tours graph state
  refine ⟨visits, conclusions, noted, tours.order, intact.visits_distinct tours.order, ?_, ?_⟩
  · intro front visit back split
    have incoming := tours.incoming_eq visit (by simp [split])
    refine ⟨incoming.trans (intact.incoming_eq _), ?_⟩
    intro edge delivered
    exact intact.sources_visited tours.order split edge (incoming ▸ delivered)
  · rcases tours.ending with
      ⟨answered, all, passed⟩ | ⟨front, last, fault, answered, split, failed, passed⟩
    · refine Or.inl ⟨passed, all, ?_, concluded answered⟩
      have delivered : visits.flatMap Visit.incoming =
          graph.topological.flatMap fun vertex => graph.incoming (Node.id vertex) := by
        rw [← all, List.flatMap_map]
        exact List.flatMap_congr tours.incoming_eq
      rw [delivered]
      exact intact.incoming_perm
    · obtain ⟨nothing, outcome⟩ := broken fault answered
      exact Or.inr ⟨front, last, fault, split, passed, failed, nothing, outcome⟩

/-- A converter that lets a number of edges through, and tells how many more it would. -/
def tollgate : Converter Vertex Edge Nat Nat where
  visit vertex incoming left :=
    if incoming.length ≤ left then (.ok (), left - incoming.length)
    else (.error (.unknownVertex vertex.id), left)
  result left := (.ok left, left)

/-- Two edges arrive at `b`, which is visited behind `a`. -/
theorem tollgate_calls :
    ∃ graph, (Builder.empty.afterCalls parallelCalls).build = .ok graph ∧
      (∃ visits : List (Visit Vertex Edge), (tollgate.recorded.convert graph (2, [])).2.2 =
          visits.map .visited ++ [.concluded (.ok 0)] ∧
        (visits.flatMap Visit.incoming).Perm graph.edges) ∧
      ∃ front last, (tollgate.recorded.convert graph (1, [])).2.2 =
          (front ++ [last]).map .visited ∧
        last.answer = .error (.unknownVertex "b") ∧
        (tollgate.convert graph 1).1 = .error (.unknownVertex "b") := by
  refine ⟨_, rfl, ?_, ?_⟩
  · obtain ⟨visits, conclusions, noted, _, _, _,
      ⟨_, _, delivered, rfl⟩ | ⟨_, _, _, _, _, _, _, refused⟩⟩ :=
        conversion_calls parallelCalls _ rfl tollgate 2
    · exact ⟨visits, congrArg (fun made => made.2.2) noted, delivered⟩
    · cases refused
  · obtain ⟨visits, conclusions, noted, _, _, _,
      ⟨_, _, _, rfl⟩ | ⟨front, last, fault, rfl, _, failed, rfl, refused⟩⟩ :=
        conversion_calls parallelCalls _ rfl tollgate 1
    · -- the last call noted is the visit to `b`, not one for the result
      have last := (congrArg (fun made => made.2.2.getLast?) noted).trans List.getLast?_concat
      cases last
    · obtain rfl : Fault.unknownVertex "b" = fault := Except.error.inj refused
      exact ⟨front, last, (congrArg (fun made => made.2.2) noted).trans (List.append_nil _),
        failed, refused⟩

end Flowplan
