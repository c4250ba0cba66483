import Flowplan.Graph.Validation
import Flowplan.Proofs.SortTurns

/-!
# The shape of a graph

Elements may be changed in what they carry. What is left then is a graph of the same shape: ids,
ends, index and order are those of before (`Dag.Alike`). Sorting and validation look at the shape
alone, so graphs of the same shape get the same answers.
-/

namespace Flowplan

namespace Dag

variable {V E : Type} [Node V] [Arc E]

/-- Two graphs that differ in nothing but what their elements carry. -/
structure Alike (graph other : Dag V E) : Prop where
  ids : other.ids = graph.ids
  links : other.links = graph.links
  order : other.order = graph.order
  vertexIds : other.vertices.map Node.id = graph.vertices.map Node.id
  edgeLinks : other.edges.map Arc.link = graph.edges.map Arc.link

/-- Every vertex has its place in the order of a graph. -/
def Whole (graph : Dag V E) : Prop :=
  ∀ position < graph.size, position ∈ graph.order

instance (graph : Dag V E) : Decidable graph.Whole :=
  inferInstanceAs (Decidable (∀ position < graph.size, position ∈ graph.order))

namespace Alike

variable {graph other third : Dag V E}

/-- A graph looks like itself. -/
theorem refl (graph : Dag V E) : graph.Alike graph :=
  ⟨rfl, rfl, rfl, rfl, rfl⟩

/-- What looks like a lookalike looks alike. -/
theorem trans (first : graph.Alike other) (second : other.Alike third) : graph.Alike third where
  ids := second.ids.trans first.ids
  links := second.links.trans first.links
  order := second.order.trans first.order
  vertexIds := second.vertexIds.trans first.vertexIds
  edgeLinks := second.edgeLinks.trans first.edgeLinks

/-- Graphs that look alike have as many vertices. -/
theorem size_eq (alike : graph.Alike other) : other.size = graph.size := by
  simpa [size] using congrArg List.length alike.vertexIds

/-- Graphs that look alike find ids at the same positions. -/
theorem position?_eq (alike : graph.Alike other) (id : String) :
    other.position? id = graph.position? id := by
  rw [position?, position?, alike.ids]

/-- Graphs that look alike have the same positions of ids. -/
theorem position_eq (alike : graph.Alike other) (id : String) :
    other.position id = graph.position id := by
  rw [position, position, alike.position?_eq]

/-- If every vertex of a graph has its place, so has every vertex of a lookalike. -/
theorem whole (alike : graph.Alike other) (whole : graph.Whole) : other.Whole := by
  intro position inside
  rw [alike.order]
  exact whole position (alike.size_eq ▸ inside)

end Alike

/-! ## Answers by the shape -/

omit [Node V] in
/-- Where edges end is read off their links. -/
theorem endPositions_by_links (graph : Dag V E) :
    graph.edges.map graph.endPosition =
      (graph.edges.map Arc.link).map fun link => graph.position link.destination := by
  rw [List.map_map]
  rfl

/-- The targets of a position are read off ids, links and the index. -/
theorem targets_by_shape (graph : Dag V E) (position : Nat) :
    graph.targets position = ((graph.vertices.map Node.id)[position]?).elim [] fun id =>
      (((graph.edges.map Arc.link).zip graph.links).filter fun pair => pair.2.source = id).map
        fun pair => graph.position pair.1.destination := by
  rw [targets, outgoingAt, List.getElem?_map]
  cases graph.vertices[position]? with
  | none => rfl
  | some vertex =>
      simp [outgoing, edgesWhere, List.zip_map_left, List.filter_map, Function.comp_def,
        endPosition]

omit [Arc E] in
/-- Which vertices are not indexed is read off their ids. -/
theorem vertexDefects_by_ids (graph : Dag V E) :
    graph.vertexDefects = ((graph.vertices.map Node.id).mapIdx fun position id =>
      if graph.position? id = some position then []
      else [Defect.unindexedVertex id]).flatten := by
  rw [vertexDefects]
  congr 1
  apply List.ext_getElem?
  intro position
  simp [List.getElem?_mapIdx, Function.comp_def]

/-- Graphs of the same shape have the same defects. -/
theorem Alike.defects_eq {graph other : Dag V E} (alike : graph.Alike other) :
    other.defects = graph.defects := by
  have ends : ∀ any : Dag V E, (any.edges.flatMap fun edge => any.endDefects (Arc.link edge)) =
      (any.edges.map Arc.link).flatMap any.endDefects := by
    intro any
    rw [List.flatMap_map]
  have endDefects : other.endDefects = graph.endDefects := by
    funext link
    simp only [Dag.endDefects, alike.position?_eq]
  rw [defects, defects, ends, ends, endDefects, alike.edgeLinks]
  simp only [vertexDefects_by_ids, alike.vertexIds, alike.position?_eq]

/-- Graphs of the same shape are sorted alike. -/
theorem Alike.sort_eq {graph other : Dag V E} (alike : graph.Alike other) :
    other.sort = graph.sort := by
  apply sort_congr other graph alike.vertexIds
  · simp only [counters, endPositions_by_links, alike.size_eq, alike.edgeLinks, alike.position_eq]
  · intro position
    simp only [targets_by_shape, alike.vertexIds, alike.edgeLinks, alike.links, alike.position_eq]

/-- Graphs of the same shape are equally valid. -/
theorem Alike.validate_eq {graph other : Dag V E} (alike : graph.Alike other) :
    other.validate = graph.validate := by
  rw [validate, validate, alike.defects_eq, alike.sort_eq]

end Dag

end Flowplan
