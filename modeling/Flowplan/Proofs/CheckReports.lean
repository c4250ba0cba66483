import Flowplan.Proofs.FaithfulPasses
import Flowplan.Proofs.PassTurns

/-!
# What the checks of a pass report

Both checks of a pass look for gaps: kinds of properties that are missing on elements. A `Gap` knows
the positions of its kind and of its element, so that a kind which is needed twice counts twice, and
so that the order of a report can be told. A check has nothing to report exactly if there is no gap.
Otherwise it reports one fault for each gap, in order.

Nobody can store a value of an undeclared kind. Such a kind counts as one of vertices, so it is
missing on all of them.
-/

namespace Flowplan

/-- An element lacks a property that annotates such elements. -/
def Element.Lacks (element : Element) (kind : Kind) : Prop :=
  element.bag.target = kind.target ∧ element.bag.has kind = false

/-- A kind at its position among kinds, and an element at its position among elements. -/
structure Gap where
  turn : Nat
  kind : Kind
  place : Nat
  element : Element

namespace Gap

/-- Gaps are ordered by the positions of their kinds, and then by those of their elements. -/
def Precedes (gap other : Gap) : Prop :=
  gap.turn < other.turn ∨ gap.turn = other.turn ∧ gap.place < other.place

/-- The gaps are the elements in scope that lack one of the kinds, each once and in order. -/
structure Lists (kinds : List Kind) (elements : List Element) (scope : Element → Prop)
    (gaps : List Gap) : Prop where
  ordered : gaps.Pairwise Precedes
  complete : ∀ gap, gap ∈ gaps ↔
    kinds[gap.turn]? = some gap.kind ∧ elements[gap.place]? = some gap.element ∧
      scope gap.element ∧ gap.element.Lacks gap.kind

/-- The pairs of kinds and elements that are wanted, with their positions. -/
def among (kinds : List Kind) (elements : List Element) (wanted : Kind → Element → Bool) :
    List Gap :=
  kinds.zipIdx.flatMap fun asked =>
    (elements.zipIdx.filter fun stands => wanted asked.1 stands.1).map fun stands =>
      ⟨asked.2, asked.1, stands.2, stands.1⟩

variable {kinds : List Kind} {elements : List Element} {wanted : Kind → Element → Bool}

/-- A gap is among those wanted exactly if its kind and its element stand where it says, and this
element is wanted for this kind. -/
theorem mem_among (gap : Gap) :
    gap ∈ among kinds elements wanted ↔
      kinds[gap.turn]? = some gap.kind ∧ elements[gap.place]? = some gap.element ∧
        wanted gap.kind gap.element = true := by
  simp only [among, List.mem_flatMap, List.mem_map, List.mem_filter, List.mem_zipIdx_iff_getElem?]
  constructor
  · rintro ⟨asked, askedAt, stands, ⟨standsAt, isWanted⟩, rfl⟩
    exact ⟨askedAt, standsAt, isWanted⟩
  · rintro ⟨askedAt, standsAt, isWanted⟩
    exact ⟨(gap.kind, gap.turn), askedAt, (gap.element, gap.place), ⟨standsAt, isWanted⟩, rfl⟩

/-- Entries of a list with their positions stand in the order of the positions. -/
theorem zipIdx_increasing {α : Type} (list : List α) :
    list.zipIdx.Pairwise fun first second => first.2 < second.2 := by
  have positions : (list.zipIdx.map Prod.snd).Pairwise (· < ·) := by
    rw [List.zipIdx_map_snd]
    exact List.pairwise_lt_range'
  exact List.pairwise_map.mp positions

/-- The gaps are listed by kinds, and for each kind by elements. -/
theorem among_ordered : (among kinds elements wanted).Pairwise Precedes := by
  rw [among, List.pairwise_flatMap]
  refine ⟨?_, ?_⟩
  · intro asked _
    refine List.pairwise_map.mpr (((zipIdx_increasing elements).filter _).imp ?_)
    intro first second less
    exact Or.inr ⟨rfl, less⟩
  · refine (zipIdx_increasing kinds).imp ?_
    intro first second less gap inFirst other inSecond
    obtain ⟨_, _, rfl⟩ := List.mem_map.mp inFirst
    obtain ⟨_, _, rfl⟩ := List.mem_map.mp inSecond
    exact Or.inl less

/-- What is told of the pairs does not depend on their positions. -/
theorem among_map (tell : Kind → Element → Fault) :
    ((among kinds elements wanted).map fun gap => tell gap.kind gap.element) =
      kinds.flatMap fun kind => (elements.filter (wanted kind)).map (tell kind) := by
  have byElements : ∀ kind, (elements.zipIdx.filter fun stands => wanted kind stands.1).map
      (fun stands => tell kind stands.1) = (elements.filter (wanted kind)).map (tell kind) := by
    intro kind
    nth_rewrite 2 [← List.zipIdx_map_fst 0 elements]
    rw [List.filter_map, List.map_map]
    rfl
  have byKinds : kinds = kinds.zipIdx.map Prod.fst := (List.zipIdx_map_fst 0 kinds).symm
  nth_rewrite 2 [byKinds]
  simp only [among, List.map_flatMap, List.map_map, List.flatMap_map, Function.comp_def, byElements]

/-- If elements are wanted exactly where they are in scope and lack a kind, all gaps are listed. -/
theorem among_lists {scope : Element → Prop}
    (exactly : ∀ kind ∈ kinds, ∀ element,
      wanted kind element = true ↔ scope element ∧ element.Lacks kind) :
    Lists kinds elements scope (among kinds elements wanted) where
  ordered := among_ordered
  complete gap := by
    rw [mem_among]
    refine and_congr_right fun asked => and_congr_right fun _ => ?_
    exact exactly gap.kind (List.mem_of_getElem? asked) gap.element

end Gap

/-- What is told of a list is no fault if the list is empty, and a collection otherwise. -/
theorem Fault.ofList_map {α : Type} (list : List α) (tell : α → Fault) :
    ofList (list.map tell) = if list = [] then .ok () else .error (.several (list.map tell)) := by
  cases list <;> simp [ofList]

namespace Pass

/-- The check of prerequisites reports the gaps on the elements visited. -/
theorem checkPrerequisites_gaps (pass : Pass) (graph : JobGraph) :
    ∃ gaps, Gap.Lists pass.prerequisites graph.elements pass.Visits gaps ∧
      pass.checkPrerequisites graph = if gaps = [] then .ok () else
        .error (.several (gaps.map fun gap =>
          .precondition pass.name gap.kind.name gap.element.label)) := by
  refine ⟨Gap.among pass.prerequisites graph.elements fun kind element =>
    pass.needsOn kind element && !element.bag.has kind, Gap.among_lists ?_, ?_⟩
  · intro kind _ element
    simp only [Bool.and_eq_true, needsOn_iff, Bool.not_eq_true', Element.Lacks]
    tauto
  · rw [← Fault.ofList_map,
      Gap.among_map fun kind element => .precondition pass.name kind.name element.label]
    rfl

/-- The check of products reports the gaps on the elements on which the product was promised. -/
theorem checkProducts_gaps (pass : Pass) (graph : JobGraph) :
    ∃ gaps, Gap.Lists [pass.produces] graph.elements pass.Promises gaps ∧
      pass.checkProducts graph = if gaps = [] then .ok () else
        .error (.several (gaps.map fun gap =>
          .postcondition pass.name gap.kind.name gap.element.label)) := by
  refine ⟨Gap.among [pass.produces] graph.elements fun kind element =>
    pass.promisesOn element && !element.bag.has kind, Gap.among_lists ?_, ?_⟩
  · intro kind isProduct element
    obtain rfl := List.mem_singleton.mp isProduct
    simp only [Bool.and_eq_true, promisesOn_iff, Bool.not_eq_true', Element.Lacks]
    tauto
  · rw [← Fault.ofList_map,
      Gap.among_map fun kind element => .postcondition pass.name kind.name element.label,
      List.flatMap_singleton]
    rfl

end Pass

namespace JobGraph

variable {graph : JobGraph}

/-- The elements of a sound graph are its vertices and its edges. -/
theorem Sound.mem_elements_iff (sound : graph.Sound) (element : Element) :
    element ∈ graph.elements ↔ graph.Owns element := by
  cases element with
  | vertex vertex => simp [elements, Owns, sound.intact.topological_perm.mem_iff]
  | edge edge => simp [elements, Owns]

/-- Every element is listed once. -/
theorem Sound.elements_distinct (sound : graph.Sound) : graph.elements.Nodup := by
  have vertices : graph.topological.Nodup := sound.intact.topological_distinct.of_map
  have edges : graph.edges.Nodup := sound.edge_ids_distinct.of_map
  refine List.nodup_append.mpr ⟨vertices.map ?_, edges.map ?_, ?_⟩
  · intro vertex other same
    exact Element.vertex.inj same
  · intro edge other same
    exact Element.edge.inj same
  · intro element inVertices other inEdges same
    obtain ⟨_, _, rfl⟩ := List.mem_map.mp inVertices
    obtain ⟨_, _, rfl⟩ := List.mem_map.mp inEdges
    cases same

/-- No element holds a property of an undeclared kind. Vertices lack it, and edges do not. -/
theorem Sound.lacks_undeclared (sound : graph.Sound) {element : Element}
    (owned : graph.Owns element) {kind : Kind} (undeclared : kind.declared = false) :
    element.bag.has kind = false ∧ (element.Lacks kind ↔ ∃ vertex, element = .vertex vertex) := by
  have annotates : kind.target = .vertex := by
    unfold Kind.declared at undeclared
    unfold Kind.target
    cases found : Kind.declarations.lookup kind with
    | none => rfl
    | some declaration => simp [found] at undeclared
  have absent : ∀ {target : Target}, element.bag.Filled target → element.bag.has kind = false := by
    intro target filled
    by_contra held
    have declared := filled.declared_of_has (Bool.not_eq_false _ ▸ held)
    rw [undeclared] at declared
    cases declared
  cases element with
  | vertex vertex =>
      have filled := sound.vertices vertex owned
      have has := absent filled
      exact ⟨has, iff_of_true ⟨filled.target_eq.trans annotates.symm, has⟩ ⟨vertex, rfl⟩⟩
  | edge edge =>
      have filled := sound.edges edge owned
      refine ⟨absent filled, iff_of_false ?_ (by simp)⟩
      rintro ⟨target, _⟩
      rw [annotates] at target
      exact absurd (filled.target_eq.symm.trans target) (by decide)

end JobGraph

/-- Whatever a pass needs and promises, its checks report the gaps on the elements of a made graph,
one fault for each gap: for each position of a prerequisite and each element that is visited and
lacks it, and for each element on which the product is promised and lacking. Faults are ordered by
prerequisites, then vertices come in topological order and edges behind them in the order in which
they were added. All vertices and edges are looked at, each once. A check succeeds exactly if there
is no gap. An undeclared kind is held by no element: it is lacking on every vertex, and on no
edge. -/
theorem checks_report_gaps (pass : Pass) (graph : JobGraph) (made : graph.Made) :
    (∃ gaps, Gap.Lists pass.prerequisites graph.elements pass.Visits gaps ∧
      pass.checkPrerequisites graph = if gaps = [] then .ok () else
        .error (.several (gaps.map fun gap =>
          .precondition pass.name gap.kind.name gap.element.label))) ∧
    (∃ gaps, Gap.Lists [pass.produces] graph.elements pass.Promises gaps ∧
      pass.checkProducts graph = if gaps = [] then .ok () else
        .error (.several (gaps.map fun gap =>
          .postcondition pass.name gap.kind.name gap.element.label))) ∧
    (pass.checkPrerequisites graph = .ok () ↔ ¬ ∃ kind ∈ pass.prerequisites, ∃ element,
      graph.Owns element ∧ pass.Visits element ∧ element.Lacks kind) ∧
    (pass.checkProducts graph = .ok () ↔ ¬ ∃ element,
      graph.Owns element ∧ pass.Promises element ∧ element.Lacks pass.produces) ∧
    graph.elements = graph.topological.map .vertex ++ graph.edges.map .edge ∧
    graph.topological.Perm graph.vertices ∧ graph.elements.Nodup ∧
    ∀ kind, kind.declared = false → ∀ element, graph.Owns element →
      element.bag.has kind = false ∧ (element.Lacks kind ↔ ∃ vertex, element = .vertex vertex) := by
  have sound := made.sound
  refine ⟨pass.checkPrerequisites_gaps graph, pass.checkProducts_gaps graph, ?_, ?_, rfl,
    sound.intact.topological_perm, sound.elements_distinct, ?_⟩
  · rw [Pass.checkPrerequisites_ok_iff]
    simp only [Pass.Prepared, sound.mem_elements_iff, Element.Lacks, not_exists, not_and,
      Bool.not_eq_false]
    grind
  · rw [Pass.checkProducts_ok_iff]
    simp only [Pass.Delivered, sound.mem_elements_iff, Element.Lacks, not_exists, not_and,
      Bool.not_eq_false]
    grind
  · intro kind undeclared element owned
    exact sound.lacks_undeclared owned undeclared

/-- One edge, to a vertex that was added before its source. -/
def bareArrow : JobGraph where
  vertices := [.bare "b" none, .bare "a" none]
  edges := [.bare "ab" "a" "b"]
  ids := ["b", "a"]
  links := [⟨"ab", "a", "b"⟩]
  order := [1, 0]

/-- A builder hands this graph out. -/
theorem bareArrow_made : bareArrow.Made := by
  refine .ofLists bareArrow.vertices bareArrow.edges ?_ ?_ rfl rfl rfl
  · simp only [bareArrow, List.forall_mem_cons]
    exact ⟨.empty, .empty, nofun⟩
  · simp only [bareArrow, List.forall_mem_cons]
    exact ⟨.empty, nofun⟩

/-- A pass that needs an undeclared kind twice. -/
def exacting : Pass where
  name := "exacting"
  produces := .decoder
  prerequisites := [⟨9⟩, .communicationPattern, ⟨9⟩]
  visits := none
  promises := some fun element => element.isShuffle
  apply graph := ⟨graph, .same, false⟩

/-- The undeclared kind is missing on both vertices each time it is asked for. The promise is kept,
as the edge does not shuffle. -/
theorem exacting_reports :
    bareArrow.Made ∧
      exacting.checkPrerequisites bareArrow = .error (.several
        [.precondition "exacting" "Kind(9)" "vertex a (<nil>)",
          .precondition "exacting" "Kind(9)" "vertex b (<nil>)",
          .precondition "exacting" "CommunicationPattern" "edge ab (a -> b)",
          .precondition "exacting" "Kind(9)" "vertex a (<nil>)",
          .precondition "exacting" "Kind(9)" "vertex b (<nil>)"]) ∧
      (∃ gaps, Gap.Lists exacting.prerequisites bareArrow.elements exacting.Visits gaps ∧
        gaps.length = 5) ∧
      ¬ ∃ element, bareArrow.Owns element ∧ exacting.Promises element ∧ element.Lacks .decoder := by
  have reported : exacting.checkPrerequisites bareArrow =
      .error (.several (exacting.unmetPrerequisites bareArrow)) := rfl
  have five : (exacting.unmetPrerequisites bareArrow).length = 5 := rfl
  obtain ⟨⟨gaps, lists, answered⟩, _, _, products, _⟩ :=
    checks_report_gaps exacting bareArrow bareArrow_made
  refine ⟨bareArrow_made, reported, ⟨gaps, lists, ?_⟩, products.mp rfl⟩
  rw [reported] at answered
  split at answered
  · cases answered
  · have faults := Fault.several.inj (Except.error.inj answered)
    simpa [five] using (congrArg List.length faults).symm

end Flowplan
