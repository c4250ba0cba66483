import Flowplan.Job.Element
import Flowplan.Proofs.BuiltGraphs

/-!
# Calls to a builder

A builder may be called with vertices and edges in any order, and it refuses some of the calls.
What it holds after any calls are the vertices and edges of the calls it accepted, in the order of
these calls. Whether it can hand out a graph depends on cycles of accepted edges alone, and the
vertices it reports otherwise are those on such a cycle and those behind one.
-/

namespace Flowplan

namespace Builder

/-- What a builder is asked to take. -/
inductive Call (V E : Type) where
  | addVertex (vertex : V)
  | connect (edge : E)

namespace Call

variable {V E : Type}

/-- The vertex that a call adds, if it adds one. -/
def vertex? : Call V E → Option V
  | addVertex vertex => some vertex
  | connect _ => none

/-- The edge that a call adds, if it adds one. -/
def edge? : Call V E → Option E
  | addVertex _ => none
  | connect edge => some edge

/-- The vertices of calls, in order. -/
def vertices (calls : List (Call V E)) : List V :=
  calls.filterMap vertex?

/-- The edges of calls, in order. -/
def edges (calls : List (Call V E)) : List E :=
  calls.filterMap edge?

end Call

variable {V E : Type} [Node V] [Arc E]

/-- The answer to a call: the builder that took what it was asked to take, or a refusal. -/
def answer (builder : Builder V E) : Call V E → Except Fault (Builder V E)
  | .addVertex vertex => builder.addVertex vertex
  | .connect edge => builder.connect edge

/-- The builder after calls one after another. A refused call leaves it as it was. -/
def afterCalls (builder : Builder V E) : List (Call V E) → Builder V E
  | [] => builder
  | call :: rest =>
      match builder.answer call with
      | .ok after => after.afterCalls rest
      | .error _ => builder.afterCalls rest

/-- The calls that are accepted when they are made one after another. -/
def accepted (builder : Builder V E) : List (Call V E) → List (Call V E)
  | [] => []
  | call :: rest =>
      match builder.answer call with
      | .ok after => call :: after.accepted rest
      | .error _ => builder.accepted rest

/-- An edge among the given ones goes from one vertex to another. -/
def Connects (edges : List E) (source destination : String) : Prop :=
  ∃ edge ∈ edges, (Arc.link edge).source = source ∧ (Arc.link edge).destination = destination

/-- A path of the given edges leads from a vertex back to itself. -/
def Cyclic (edges : List E) : Prop :=
  ∃ id, Relation.TransGen (Connects edges) id id

/-! ## What calls leave behind -/

/-- An accepted call adds what it brings behind what is there. -/
theorem answer_ok {builder after : Builder V E} {call : Call V E}
    (answered : builder.answer call = .ok after) :
    after.vertices = builder.vertices ++ Call.vertices [call] ∧
      after.edges = builder.edges ++ Call.edges [call] := by
  cases call with
  | addVertex vertex =>
      obtain ⟨_, rfl⟩ := (addVertex_ok_iff builder after vertex).mp answered
      simp [Call.vertices, Call.edges, Call.vertex?, Call.edge?]
  | connect edge =>
      obtain ⟨_, rfl⟩ := (connect_ok_iff builder after edge).mp answered
      simp [Call.vertices, Call.edges, Call.vertex?, Call.edge?]

/-- An accepted call leads from a reached builder to a reached one. -/
theorem Reached.answer {builder after : Builder V E} (reached : builder.Reached)
    {call : Call V E} (answered : builder.answer call = .ok after) : after.Reached := by
  cases call with
  | addVertex vertex => exact reached.addVertex vertex answered
  | connect edge => exact reached.connect edge answered

/-- Whatever is called, the builder is one that accepted calls lead to. -/
theorem Reached.afterCalls {builder : Builder V E} (reached : builder.Reached)
    (calls : List (Call V E)) : (builder.afterCalls calls).Reached := by
  induction calls generalizing builder with
  | nil => exact reached
  | cons call rest inductionHypothesis =>
      unfold Builder.afterCalls
      cases answered : builder.answer call with
      | ok after => exact inductionHypothesis (reached.answer answered)
      | error fault => exact inductionHypothesis reached

/-- After any calls a builder holds what the accepted ones brought, in their order. -/
theorem afterCalls_holds (builder : Builder V E) (calls : List (Call V E)) :
    (builder.afterCalls calls).vertices =
        builder.vertices ++ Call.vertices (builder.accepted calls) ∧
      (builder.afterCalls calls).edges =
        builder.edges ++ Call.edges (builder.accepted calls) := by
  induction calls generalizing builder with
  | nil => simp [afterCalls, accepted, Call.vertices, Call.edges]
  | cons call rest inductionHypothesis =>
      unfold afterCalls accepted
      cases answered : builder.answer call with
      | error fault => exact inductionHypothesis builder
      | ok after =>
          obtain ⟨vertices, edges⟩ := answer_ok answered
          obtain ⟨laterVertices, laterEdges⟩ := inductionHypothesis after
          have cut : ∀ {α : Type} (part? : Call V E → Option α),
              (call :: after.accepted rest).filterMap part? =
                [call].filterMap part? ++ (after.accepted rest).filterMap part? := by
            intro α part?
            rw [← List.filterMap_append, List.singleton_append]
          refine ⟨?_, ?_⟩
          · rw [laterVertices, vertices, List.append_assoc]
            exact congrArg (builder.vertices ++ ·) (cut Call.vertex?).symm
          · rw [laterEdges, edges, List.append_assoc]
            exact congrArg (builder.edges ++ ·) (cut Call.edge?).symm

/-- A fresh builder holds exactly what was accepted. -/
theorem empty_afterCalls (calls : List (Call V E)) :
    ((empty : Builder V E).afterCalls calls).vertices = Call.vertices (empty.accepted calls) ∧
      ((empty : Builder V E).afterCalls calls).edges = Call.edges (empty.accepted calls) := by
  simpa [empty] using afterCalls_holds (empty : Builder V E) calls

/-! ## What can be built after calls -/

/-- The edges of a builder are cyclic exactly if the graph they form is not acyclic. -/
theorem cyclic_iff (builder : Builder V E) :
    Cyclic builder.edges ↔ ¬ builder.unsorted.Acyclic := by
  simp only [Cyclic, Dag.Acyclic, not_forall, not_not]
  exact Iff.rfl

/-- Whatever calls a fresh builder gets, it can hand out a graph exactly if no path of accepted
edges leads from a vertex back to itself.

The topological order of that graph lists the accepted vertices, each once, and the source of
every accepted edge before its destination, however many edges lead between the two. -/
theorem build_iff_no_cycle (calls : List (Call V E)) :
    ((∃ graph, ((empty : Builder V E).afterCalls calls).build = .ok graph) ↔
        ¬ Cyclic (Call.edges ((empty : Builder V E).accepted calls))) ∧
      ∀ graph, ((empty : Builder V E).afterCalls calls).build = .ok graph →
        graph.topological.Perm (Call.vertices ((empty : Builder V E).accepted calls)) ∧
          (graph.topological.map Node.id).Nodup ∧
          ∀ edge ∈ Call.edges ((empty : Builder V E).accepted calls),
            Before (graph.topological.map Node.id) (Arc.link edge).source
              (Arc.link edge).destination := by
  have proper := (Reached.empty.afterCalls calls : (empty.afterCalls calls).Reached).proper
  obtain ⟨vertices, edges⟩ := empty_afterCalls calls
  refine ⟨?_, ?_⟩
  · rw [← edges, cyclic_iff, not_not]
    rcases proper.build_cases with ⟨acyclic, built⟩ | ⟨cyclic, stuck, refused⟩
    · exact iff_of_true built acyclic
    · refine iff_of_false ?_ cyclic
      rintro ⟨graph, built⟩
      rw [refused] at built
      cases built
  · intro graph built
    obtain ⟨intact, sameVertices, sameEdges⟩ := proper.build_intact graph built
    refine ⟨?_, intact.topological_distinct, ?_⟩
    · rw [← vertices, ← sameVertices]
      exact intact.topological_perm
    · intro edge member
      rw [← edges, ← sameEdges] at member
      exact intact.source_before _ _ ⟨edge, member, rfl, rfl⟩

/-- If a path of accepted edges leads from a vertex back to itself, the builder reports the accepted
vertices on such a path and those that one of them leads to. They are listed in the order in which
they were added, each once. -/
theorem build_reports_cycles (calls : List (Call V E))
    (cyclic : Cyclic (Call.edges ((empty : Builder V E).accepted calls))) :
    ∃ listed, ((empty : Builder V E).afterCalls calls).build =
        .error (.structural (.cycle listed)) ∧
      (Fault.structural (.cycle listed)).message = "Structural invariant violated: " ++
        ("cycle detected involving vertices [" ++ ", ".intercalate listed ++ "]") ∧
      listed.Sublist ((Call.vertices ((empty : Builder V E).accepted calls)).map Node.id) ∧
      listed.Nodup ∧
      ∀ id, id ∈ listed ↔
        BehindCycle (Connects (Call.edges ((empty : Builder V E).accepted calls))) id := by
  have proper := (Reached.empty.afterCalls calls : (empty.afterCalls calls).Reached).proper
  obtain ⟨vertices, edges⟩ := empty_afterCalls calls
  rw [← edges, cyclic_iff] at cyclic
  have grounded : (empty.afterCalls calls).unsorted.Grounded := proper.grounded_unsorted []
  have ordered := Dag.stuck_sublist (empty.afterCalls calls).unsorted
  refine ⟨_, proper.build_cyclic cyclic, rfl, ?_, ?_, ?_⟩
  · rw [← vertices]
    exact ordered
  · exact proper.distinct.sublist ordered
  · intro id
    rw [grounded.filed.mem_stuck_iff, grounded.follows_eq, ← edges]
    exact Iff.rfl

end Builder

/-- Two edges lead to a vertex that was added before their source. The second `b`, the second edge
`ab`, the edge from `b` to itself and the edge to the unknown `c` are refused. -/
def parallelCalls : List (Builder.Call Vertex Edge) :=
  [.addVertex (.bare "b" none), .addVertex (.bare "a" none), .addVertex (.bare "b" none),
    .connect (.bare "ab" "a" "b"), .connect (.bare "ab" "a" "b"), .connect (.bare "bb" "b" "b"),
    .connect (.bare "bc" "b" "c"), .connect (.bare "ab2" "a" "b")]

/-- The refused calls leave no trace, and the order turns the two vertices round. -/
theorem parallelCalls_sorted :
    ∃ graph, (Builder.empty.afterCalls parallelCalls).build = .ok graph ∧
      graph.topological.Perm [.bare "b" none, .bare "a" none] ∧
      Before (graph.topological.map Node.id) "a" "b" := by
  obtain ⟨handedOut, sorted⟩ := Builder.build_iff_no_cycle parallelCalls
  -- every accepted edge leads from `a` to `b`, so a path that comes to `b` ends there
  have forward : ∀ source destination,
      Builder.Connects (Builder.Call.edges (Builder.empty.accepted parallelCalls)) source
        destination → source = "a" ∧ destination = "b" := by
    rintro source destination ⟨edge, member, rfl, rfl⟩
    have known : edge ∈ [Edge.bare "ab" "a" "b", Edge.bare "ab2" "a" "b"] := member
    simp only [List.mem_cons, List.not_mem_nil, or_false] at known
    rcases known with rfl | rfl <;> exact ⟨rfl, rfl⟩
  obtain ⟨graph, built⟩ := handedOut.mpr (by
    rintro ⟨id, cycle⟩
    obtain ⟨_, first, _⟩ := Relation.TransGen.head'_iff.mp cycle
    obtain ⟨_, _, last⟩ := Relation.TransGen.tail'_iff.mp cycle
    have starts := (forward _ _ first).1
    have ends := (forward _ _ last).2
    rw [starts] at ends
    exact absurd ends (by decide))
  obtain ⟨listed, _, before⟩ := sorted graph built
  exact ⟨graph, built, listed, before (.bare "ab2" "a" "b") (by decide)⟩

/-- A cycle between `b` and `c` that `a` leads to and that leads to `d`, which was added first. -/
def whirlCalls : List (Builder.Call Vertex Edge) :=
  [.addVertex (.bare "d" none), .addVertex (.bare "a" none), .addVertex (.bare "b" none),
    .addVertex (.bare "c" none), .connect (.bare "ab" "a" "b"), .connect (.bare "bc" "b" "c"),
    .connect (.bare "cb" "c" "b"), .connect (.bare "cd" "c" "d"), .connect (.bare "bc2" "b" "c")]

/-- The vertices on the cycle and behind it are reported in the order of insertion, and the one that
leads to it is not. -/
theorem whirlCalls_reported :
    Builder.Cyclic (Builder.Call.edges (Builder.empty.accepted whirlCalls)) ∧
      (Builder.empty.afterCalls whirlCalls).build =
        .error (.structural (.cycle ["d", "b", "c"])) ∧
      BehindCycle (Builder.Connects (Builder.Call.edges (Builder.empty.accepted whirlCalls))) "d" ∧
      ¬ BehindCycle (Builder.Connects
        (Builder.Call.edges (Builder.empty.accepted whirlCalls))) "a" := by
  have back : Builder.Connects (Builder.Call.edges (Builder.empty.accepted whirlCalls)) "c" "b" :=
    ⟨.bare "cb" "c" "b", by decide, rfl, rfl⟩
  have cyclic : Builder.Cyclic (Builder.Call.edges (Builder.empty.accepted whirlCalls)) :=
    ⟨"b", .tail (.single ⟨.bare "bc" "b" "c", by decide, rfl, rfl⟩) back⟩
  have refused : (Builder.empty.afterCalls whirlCalls).build =
      .error (.structural (.cycle ["d", "b", "c"])) := rfl
  obtain ⟨listed, reported, _, _, _, behind⟩ := Builder.build_reports_cycles whirlCalls cyclic
  have same := Except.error.inj (refused.symm.trans reported)
  obtain rfl : ["d", "b", "c"] = listed := Defect.cycle.inj (Fault.structural.inj same)
  refine ⟨cyclic, refused, (behind "d").mp (by decide), ?_⟩
  intro isBehind
  exact absurd ((behind "a").mpr isBehind) (by decide)

end Flowplan
