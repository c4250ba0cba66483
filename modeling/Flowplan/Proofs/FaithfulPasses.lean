import Flowplan.Pass.Annotating
import Flowplan.Pass.Script
import Flowplan.Proofs.JobGraphs

/-!
# Faithful and honest passes

Passes store values in the bags of a graph, and may hand back another one. A pass is `Faithful` if
the graph given to it keeps its shape, and if every vertex of another graph that it hands back has
its place in the order of that graph. Passes cannot make graphs but by building them and by storing
values. A pass is `Honest` if it does so: where made graphs go in, made graphs come out.

The built-in passes are faithful and honest, and so is every script.
-/

namespace Flowplan

namespace JobGraph

/-- An element is one of the vertices or edges of a graph. -/
def Owns (graph : JobGraph) : Element → Prop
  | .vertex vertex => vertex ∈ graph.vertices
  | .edge edge => edge ∈ graph.edges

/-- If every vertex has its place in the order, all elements are listed. -/
theorem mem_elements_of_owns {graph : JobGraph} (whole : graph.Whole) {element : Element}
    (owned : graph.Owns element) : element ∈ graph.elements := by
  cases element with
  | edge edge => exact List.mem_append_right _ (List.mem_map_of_mem owned)
  | vertex vertex =>
      obtain ⟨position, inside, rfl⟩ := List.getElem_of_mem owned
      have listed : graph.vertices[position] ∈ graph.topological :=
        List.mem_filterMap.mpr ⟨position, whole position inside, List.getElem?_eq_getElem inside⟩
      exact List.mem_append_left _ (List.mem_map_of_mem listed)

end JobGraph

namespace Pass

/-- A pass under which the graph given keeps its shape. Any other graph handed back has a place for
each of its vertices in its order. -/
structure Faithful (pass : Pass) : Prop where
  keeps : ∀ graph : JobGraph, graph.Alike (pass.apply graph).given
  whole : ∀ graph other, (pass.apply graph).returned = .other other → other.Whole

/-- A pass that leaves a made graph made, and hands back made graphs only. -/
structure Honest (pass : Pass) : Prop where
  keeps : ∀ graph : JobGraph, graph.Made → (pass.apply graph).given.Made
  others : ∀ graph other : JobGraph, graph.Made → (pass.apply graph).returned = .other other →
    other.Made

/-! ## The built-in passes -/

/-- A pass that does nothing but store values in the graph given. -/
structure Annotates (pass : Pass) : Prop where
  stores : ∀ graph : JobGraph, ∃ selects value places fault,
    graph.setWhere selects value places = (fault, (pass.apply graph).given)
  others : ∀ graph other : JobGraph, (pass.apply graph).returned ≠ .other other

variable {pass : Pass}

/-- A pass that fails with the refusal of a value, and otherwise hands back the graph given. -/
theorem Annotates.ofStoring (selects : Element → Bool) (value : Option Value)
    (places : JobGraph → List Place)
    (applies : ∀ graph : JobGraph, pass.apply graph =
      match graph.setWhere selects value (places graph) with
      | (some fault, after) => ⟨after, .failed fault, false⟩
      | (none, after) => ⟨after, .same, false⟩) : pass.Annotates := by
  constructor
  · intro graph
    rw [applies]
    split
    next stored => exact ⟨_, _, _, _, stored⟩
    next stored => exact ⟨_, _, _, _, stored⟩
  · intro graph other
    rw [applies]
    split <;> simp

/-- A pass that only stores values is faithful, since values do not change the shape of a graph. -/
theorem Annotates.faithful (annotates : pass.Annotates) : pass.Faithful where
  keeps graph := by
    obtain ⟨_, _, _, _, stored⟩ := annotates.stores graph
    exact JobGraph.setWhere_alike stored
  whole graph other returned := absurd returned (annotates.others graph other)

/-- A pass that only stores values is honest, since stored values leave a made graph made. -/
theorem Annotates.honest (annotates : pass.Annotates) : pass.Honest where
  keeps graph made := by
    obtain ⟨_, _, _, _, stored⟩ := annotates.stores graph
    exact made.setWhere stored
  others graph other _ returned := absurd returned (annotates.others graph other)

/-- The pass for the default parallelism only stores values. -/
theorem defaultParallelism_annotates (instances : Int) :
    (defaultParallelism instances).Annotates :=
  .ofStoring _ _ _ fun _ => rfl

/-- The pass for decoders only stores values. -/
theorem shuffleEdgeDecoder_annotates : shuffleEdgeDecoder.Annotates :=
  .ofStoring _ _ _ fun _ => rfl

/-- The pass for the default parallelism is faithful. -/
theorem defaultParallelism_faithful (instances : Int) :
    (defaultParallelism instances).Faithful :=
  (defaultParallelism_annotates instances).faithful

/-- The pass for decoders is faithful. -/
theorem shuffleEdgeDecoder_faithful : shuffleEdgeDecoder.Faithful :=
  shuffleEdgeDecoder_annotates.faithful

end Pass

/-! ## Described graphs -/

/-- A described vertex has a filled bag. -/
theorem VertexDescription.vertex_filled {described : VertexDescription} {vertex : Vertex}
    (isVertex : described.vertex = .ok vertex) : vertex.bag.Filled .vertex := by
  simp only [VertexDescription.vertex, bind, Except.bind] at isVertex
  split at isVertex
  · cases isVertex
  next stored =>
    obtain rfl := Except.ok.inj isVertex
    exact Bag.Filled.empty.setAll described.values stored

/-- A described edge has a filled bag. -/
theorem EdgeDescription.edge_filled {described : EdgeDescription} {edge : Edge}
    (isEdge : described.edge = .ok edge) : edge.bag.Filled .edge := by
  simp only [EdgeDescription.edge, bind, Except.bind] at isEdge
  split at isEdge
  · cases isEdge
  next stored =>
    obtain rfl := Except.ok.inj isEdge
    exact Bag.Filled.empty.setAll described.values stored

namespace JobDescription

/-- Vertices are described and added in turn. One may as well describe all of them first. -/
theorem addVertices_lists {builder after : Builder Vertex Edge}
    (described : List VertexDescription) (added : addVertices builder described = .ok after) :
    ∃ vertices : List Vertex, (∀ vertex ∈ vertices, vertex.bag.Filled .vertex) ∧
      builder.addVertices vertices = .ok after := by
  induction described generalizing builder with
  | nil => exact ⟨[], by simp, added⟩
  | cons first rest inductionHypothesis =>
      simp only [addVertices, bind, Except.bind] at added
      split at added
      · cases added
      next vertex isVertex =>
        split at added
        · cases added
        next accepted =>
          obtain ⟨vertices, filled, onward⟩ := inductionHypothesis added
          refine ⟨vertex :: vertices, ?_, ?_⟩
          · exact List.forall_mem_cons.mpr ⟨VertexDescription.vertex_filled isVertex, filled⟩
          · simp only [Builder.addVertices, accepted, bind, Except.bind, onward]

/-- The same for edges. -/
theorem connectAll_lists {builder after : Builder Vertex Edge}
    (described : List EdgeDescription) (connected : connectAll builder described = .ok after) :
    ∃ edges : List Edge, (∀ edge ∈ edges, edge.bag.Filled .edge) ∧
      builder.connectAll edges = .ok after := by
  induction described generalizing builder with
  | nil => exact ⟨[], by simp, connected⟩
  | cons first rest inductionHypothesis =>
      simp only [connectAll, bind, Except.bind] at connected
      split at connected
      · cases connected
      next edge isEdge =>
        split at connected
        · cases connected
        next accepted =>
          obtain ⟨edges, filled, onward⟩ := inductionHypothesis connected
          refine ⟨edge :: edges, ?_, ?_⟩
          · exact List.forall_mem_cons.mpr ⟨EdgeDescription.edge_filled isEdge, filled⟩
          · simp only [Builder.connectAll, accepted, bind, Except.bind, onward]

/-- Described graphs are made. -/
theorem build_made {described : JobDescription} {graph : JobGraph}
    (built : described.build = .ok graph) : graph.Made := by
  simp only [build, bind, Except.bind] at built
  split at built
  · cases built
  next added =>
    split at built
    · cases built
    next connected =>
      obtain ⟨vertices, filledVertices, accepted⟩ := addVertices_lists described.vertices added
      obtain ⟨edges, filledEdges, acceptedEdges⟩ := connectAll_lists described.edges connected
      exact .ofLists vertices edges filledVertices filledEdges accepted acceptedEdges built

end JobDescription

/-! ## Scripts -/

namespace Script

/-- A property of the graph given and a property of its replacements which scripts cannot end.
Values that are stored do not end them, and described graphs have the second one. -/
structure Lasting (onGiven onOther : JobGraph → Prop) : Prop where
  given : ∀ {graph after : JobGraph} {selects value places fault}, onGiven graph →
    graph.setWhere selects value places = (fault, after) → onGiven after
  other : ∀ {graph after : JobGraph} {selects value places fault}, onOther graph →
    graph.setWhere selects value places = (fault, after) → onOther after
  built : ∀ {described : JobDescription} {graph : JobGraph}, described.build = .ok graph →
    onOther graph

/-- Work that has kept two such properties so far. Up to the first replacement the work is on the
graph given. -/
structure Work.Keeps (onGiven onOther : JobGraph → Prop) (work : Work) : Prop where
  given : ∃ now, work.given = some now ∧ onGiven now
  shared : work.lineage ≠ .separate → work.current = work.given
  other : work.lineage = .separate → ∀ current, work.current = some current → onOther current

variable {onGiven onOther : JobGraph → Prop} {work : Work}

/-- Before its first step a script has kept whatever holds of the graph given. -/
theorem Work.Keeps.start {graph : JobGraph} (holds : onGiven graph) :
    (Work.start (some graph)).Keeps onGiven onOther where
  given := ⟨graph, rfl, holds⟩
  shared _ := rfl
  other separate := by cases separate

/-- Storing values in the current graph. -/
theorem Work.Keeps.change (keeps : work.Keeps onGiven onOther) (lasting : Lasting onGiven onOther)
    {current after : JobGraph} {selects : Element → Bool} {value : Option Value}
    {places : List Place} {fault : Option Fault} (isCurrent : work.current = some current)
    (stored : current.setWhere selects value places = (fault, after)) :
    (work.change after).Keeps onGiven onOther := by
  by_cases separate : work.lineage = .separate
  · exact {
      given := by simpa [Work.change, separate] using keeps.given
      shared := fun shared => absurd separate shared
      other := by
        intro _ replaced isAfter
        obtain rfl : after = replaced := Option.some.inj isAfter
        exact lasting.other (keeps.other separate current isCurrent) stored }
  · obtain ⟨now, isGiven, holds⟩ := keeps.given
    -- the current graph is the one given, so a change of one is a change of both
    obtain rfl : current = now := by
      simpa [isCurrent, isGiven] using keeps.shared separate
    exact {
      given := ⟨after, by simp [Work.change, separate], lasting.given holds stored⟩
      shared := fun _ => by simp [Work.change, separate]
      other := fun isSeparate => absurd isSeparate separate }

/-- Storing a value keeps what lasts, and hands back no other graph. -/
theorem store_keeps (keeps : work.Keeps onGiven onOther) (lasting : Lasting onGiven onOther)
    (selector : Selector) (value : Option Value) (refused : Fault → Returned)
    (refusal : ∀ fault other, refused fault ≠ .other other) :
    (store work selector value refused).1.Keeps onGiven onOther ∧
      ∀ other, (store work selector value refused).2 ≠ some (.other other) := by
  rw [store]
  cases isCurrent : work.current with
  | none => exact ⟨keeps, by simp⟩
  | some current => exact ⟨keeps.change lasting isCurrent rfl, by simp [refusal]⟩

/-- A step ends neither property, and it ends no script with another graph. -/
theorem take_keeps (keeps : work.Keeps onGiven onOther) (lasting : Lasting onGiven onOther)
    (step : Step) :
    (take work step).1.Keeps onGiven onOther ∧
      ∀ other, (take work step).2 ≠ some (.other other) := by
  cases step with
  | set selector value => exact store_keeps keeps lasting selector value .failed (by simp)
  | mustSet selector value =>
      exact store_keeps keeps lasting selector value (fun fault => .brokeOff (.fault fault))
        (by simp)
  | fail fault => exact ⟨keeps, by simp [take]⟩
  | breakOff breakage => exact ⟨keeps, by simp [take]⟩
  | handBackNothing => exact ⟨keeps, by simp [take]⟩
  | cancel => exact ⟨⟨keeps.given, keeps.shared, keeps.other⟩, by simp [take]⟩
  | replace described =>
      cases described with
      | none => exact ⟨⟨keeps.given, by simp [take], by simp [take]⟩, by simp [take]⟩
      | some described =>
          rw [take]
          cases built : described.build with
          | error fault => exact ⟨keeps, by simp⟩
          | ok replaced =>
              refine ⟨⟨keeps.given, by simp, ?_⟩, by simp⟩
              rintro _ _ ⟨⟩
              exact lasting.built built
  | rebuild =>
      rw [take]
      split
      · exact ⟨keeps, by simp⟩
      · exact ⟨keeps, by simp⟩
      next shared => exact ⟨⟨keeps.given, fun _ => keeps.shared shared, by simp⟩, by simp⟩

/-- A script ends neither property, and another graph that it hands back has the second one. -/
theorem run_keeps (keeps : work.Keeps onGiven onOther) (lasting : Lasting onGiven onOther)
    (steps : List Step) :
    (run steps work).1.Keeps onGiven onOther ∧
      ∀ other, (run steps work).2 = .other other → onOther other := by
  induction steps generalizing work with
  | nil =>
      refine ⟨keeps, ?_⟩
      intro other returned
      simp only [run, Work.returned] at returned
      split at returned
      · cases returned
      · cases returned
      next separate isCurrent =>
        cases returned
        exact keeps.other separate other isCurrent
      · cases returned
  | cons step rest inductionHypothesis =>
      obtain ⟨after, ends⟩ := take_keeps keeps lasting step
      rw [run]
      cases taken : take work step with
      | mk next ending =>
          rw [taken] at after ends
          cases ending with
          | none => exact inductionHypothesis after
          | some returned =>
              refine ⟨after, ?_⟩
              rintro other rfl
              exact absurd rfl (ends other)

/-- What lasts holds of the graph given and of any graph handed back, after all steps. -/
theorem apply_keeps {graph : JobGraph} (holds : onGiven graph) (lasting : Lasting onGiven onOther)
    (steps : List Step) :
    onGiven (apply steps graph).given ∧
      ∀ other, (apply steps graph).returned = .other other → onOther other := by
  obtain ⟨keeps, others⟩ := run_keeps (.start holds) lasting steps
  obtain ⟨now, isGiven, still⟩ := keeps.given
  refine ⟨?_, others⟩
  simpa [apply, isGiven] using still

/-- Scripts keep the shape of the graph given. -/
theorem lasting_alike (graph : JobGraph) : Lasting graph.Alike (·.Whole) where
  given alike stored := alike.trans (JobGraph.setWhere_alike stored)
  other whole stored := (JobGraph.setWhere_alike stored).whole whole
  built isBuilt := (JobDescription.build_made isBuilt).sound.intact.whole

/-- Scripts make graphs of made graphs. -/
theorem lasting_made : Lasting JobGraph.Made JobGraph.Made where
  given made stored := made.setWhere stored
  other made stored := made.setWhere stored
  built := JobDescription.build_made

end Script

/-- Passes that work by a script are faithful. -/
theorem Pass.faithful_of_script {pass : Pass} (steps : List Step)
    (scripted : pass.apply = Script.apply steps) : pass.Faithful := by
  have kept := fun graph : JobGraph =>
    Script.apply_keeps (.refl graph) (Script.lasting_alike graph) steps
  exact ⟨fun graph => scripted ▸ (kept graph).1, fun graph => scripted ▸ (kept graph).2⟩

/-- Passes that work by a script are honest. -/
theorem Pass.honest_of_script {pass : Pass} (steps : List Step)
    (scripted : pass.apply = Script.apply steps) : pass.Honest := by
  have kept := fun (graph : JobGraph) (made : graph.Made) =>
    Script.apply_keeps made Script.lasting_made steps
  exact ⟨fun graph made => scripted ▸ (kept graph made).1,
    fun graph other made => scripted ▸ (kept graph made).2 other⟩

end Flowplan
