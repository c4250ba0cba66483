import Flowplan.Plan.Fingerprint
import Flowplan.Proofs.StageGraphs
import Mathlib.Logic.Equiv.Basic

/-!
# Renaming identities

A `Renaming` exchanges the identities of plans, stages, stage edges and tasks for others. Everything
else about a plan stays, and so does the text it is digested from: it numbers the stages instead of
naming them.

Bundling compares identities of stages with one another and never looks into them. So bundling on
renamed stages goes the same way, and where it fails, the faults differ in nothing but the
identities they name (`Fault.Resembles`). The same holds of sorting the stage graph.
-/

namespace Flowplan

/-- An exchange of identities, each kind for itself. -/
structure Renaming where
  plan : Equiv.Perm String
  stage : Equiv.Perm String
  stageEdge : Equiv.Perm String
  task : Equiv.Perm String

/-- Distinct identities can be exchanged for as many other distinct ones. -/
theorem exists_perm_map_eq {α : Type} [DecidableEq α] {list other : List α} (distinct : list.Nodup)
    (otherDistinct : other.Nodup) (same : list.length = other.length) :
    ∃ exchange : Equiv.Perm α, list.map exchange = other := by
  induction list generalizing other with
  | nil => exact ⟨Equiv.refl α, (List.eq_nil_of_length_eq_zero same.symm).symm⟩
  | cons head rest inductionHypothesis =>
      cases other with
      | nil => cases same
      | cons otherHead otherRest =>
          obtain ⟨absent, restDistinct⟩ := List.nodup_cons.mp distinct
          obtain ⟨otherAbsent, otherRestDistinct⟩ := List.nodup_cons.mp otherDistinct
          obtain ⟨exchange, exchanged⟩ :=
            inductionHypothesis restDistinct otherRestDistinct (Nat.succ.inj same)
          refine ⟨exchange.trans (Equiv.swap (exchange head) otherHead), ?_⟩
          rw [List.map_cons, ← exchanged]
          congr 1
          · exact Equiv.swap_apply_left _ _
          · -- neither the head nor the new head is among the images of the rest
            apply List.map_congr_left
            intro value member
            refine Equiv.swap_apply_of_ne_of_ne ?_ ?_
            · intro equal
              exact absent (exchange.injective equal ▸ member)
            · intro equal
              exact otherAbsent (equal ▸ exchanged ▸ List.mem_map_of_mem member)

/-- A renamed value stands where the value stood. -/
theorem idxOf?_map_exchange (exchange : Equiv.Perm String) (list : List String) (value : String) :
    (list.map exchange).idxOf? (exchange value) = list.idxOf? value := by
  simp only [List.idxOf?, List.findIdx?_map]
  congr 1
  funext asked
  simp

/-! ## What is renamed -/

/-- A task under other identities. -/
def Task.rename (names : Renaming) (task : Task) : Task :=
  { task with id := names.task task.id, stage := names.stage task.stage }

/-- A stage under other identities. -/
def Stage.rename (names : Renaming) (stage : Stage) : Stage :=
  { stage with id := names.stage stage.id, tasks := stage.tasks.map (Task.rename names) }

/-- A stage edge between stages under other identities. -/
def StageEdge.rename (names : Renaming) (bundle : StageEdge) : StageEdge :=
  { bundle with
    source := names.stage bundle.source
    destination := names.stage bundle.destination }

/-- The link of a stage edge under other identities. -/
def Link.rename (names : Renaming) (link : Link) : Link :=
  ⟨names.stageEdge link.id, names.stage link.source, names.stage link.destination⟩

/-- A stage graph under other identities. Its elements keep their places, and it keeps its order. -/
def StageGraph.rename (names : Renaming) (graph : StageGraph) : StageGraph where
  vertices := graph.vertices.map (Stage.rename names)
  edges := graph.edges.map (StageEdge.rename names)
  ids := graph.ids.map names.stage
  links := graph.links.map (Link.rename names)
  order := graph.order

/-- A plan under other identities. -/
def Plan.rename (names : Renaming) (plan : Plan) : Plan where
  id := names.plan plan.id
  stageGraph := StageGraph.rename names plan.stageGraph
  taskVertices := plan.taskVertices.map fun (task, vertex) => (names.task task, vertex)
  assignments := plan.assignments.map fun (vertex, stage) => (vertex, names.stage stage)

namespace Plan

/-- The stages of a renamed plan are the renamed stages. -/
theorem stages_rename (names : Renaming) (plan : Plan) :
    (plan.rename names).stages = plan.stages.map (Stage.rename names) := by
  simp only [stages, Dag.topological, rename, StageGraph.rename, List.map_filterMap,
    List.getElem?_map]

/-- Renamed stages keep their numbers. -/
theorem stageNumber_rename (names : Renaming) (plan : Plan) (id : String) :
    (plan.rename names).stageNumber (names.stage id) = plan.stageNumber id := by
  have ids : (plan.rename names).stages.map Stage.id =
      (plan.stages.map Stage.id).map names.stage := by
    rw [stages_rename, List.map_map, List.map_map]
    rfl
  rw [stageNumber, stageNumber, ids, idxOf?_map_exchange]

/-- The text that is digested names no identity. -/
theorem structureText_rename (names : Renaming) (plan : Plan) :
    (plan.rename names).structureText = plan.structureText := by
  have stageLines : (plan.rename names).stages.mapIdx stageLine =
      plan.stages.mapIdx stageLine := by
    apply List.ext_getElem?
    intro number
    simp only [List.getElem?_mapIdx, stages_rename, List.getElem?_map, Option.map_map]
    rfl
  have edgeLines : (plan.rename names).stageGraph.edges.map (plan.rename names).edgeLine =
      plan.stageGraph.edges.map plan.edgeLine := by
    have edges : (plan.rename names).stageGraph.edges =
        plan.stageGraph.edges.map (StageEdge.rename names) := rfl
    rw [edges, List.map_map]
    apply List.map_congr_left
    intro bundle _
    simp only [Function.comp_apply, edgeLine, StageEdge.rename, stageNumber_rename]
  rw [structureText, structureText, stageLines, edgeLines]

end Plan

/-! ## Faults that name identities -/

/-- Faults of one type which differ in nothing but the identities that they name. -/
inductive Fault.Resembles : Fault → Fault → Prop
  | same (fault : Fault) : Resembles fault fault
  | conflict (one two kind previous next : String) :
      Resembles (.conflict one kind previous next) (.conflict two kind previous next)
  | shuffleInside (edge one two : String) :
      Resembles (.structural (.shuffleInsideStage edge one))
        (.structural (.shuffleInsideStage edge two))
  | cycle (one two : List String) :
      Resembles (.within .stageGraph (.structural (.cycle one)))
        (.within .stageGraph (.structural (.cycle two)))

/-- Two results that are both faults resembling each other, or a value and what it is changed to. -/
inductive Echoes {α β : Type} (change : α → β) : Except Fault α → Except Fault β → Prop
  | ok (value : α) : Echoes change (.ok value) (.ok (change value))
  | error {fault other : Fault} (resembles : fault.Resembles other) :
      Echoes change (.error fault) (.error other)

namespace Echoes

variable {α β γ δ : Type} {change : α → β} {first : Except Fault α} {second : Except Fault β}

/-- Echoes stay echoes when both values are changed in the same way. -/
theorem map (echoes : Echoes change first second) {onward : γ → δ} {next : α → γ} {other : β → δ}
    (same : ∀ value, other (change value) = onward (next value)) :
    Echoes onward (first.map next) (second.map other) := by
  cases echoes with
  | ok value =>
      simp only [Except.map, same]
      exact .ok (next value)
  | error resembles => exact .error resembles

/-- Echoes stay echoes when both computations go on with echoes. -/
theorem bind (echoes : Echoes change first second) {onward : γ → δ} {next : α → Except Fault γ}
    {other : β → Except Fault δ}
    (same : ∀ value, Echoes onward (next value) (other (change value))) :
    Echoes onward (first.bind next) (second.bind other) := by
  cases echoes with
  | ok value => exact same value
  | error resembles => exact .error resembles

end Echoes

/-! ## Bundling on renamed stages -/

namespace StageEdge

variable (names : Renaming)

/-- A renamed stage edge has the same conflicts, under its new id. -/
theorem conflict?_rename (bundle : StageEdge) (edge : Edge) (kind : Kind) (next : Value) :
    (bundle.rename names).conflict? edge kind next =
      (bundle.conflict? edge kind next).map fun conflict =>
        { conflict with stageEdge := (bundle.rename names).id } := by
  have sameBag : (bundle.rename names).bag = bundle.bag := rfl
  unfold conflict?
  rw [sameBag]
  cases bundle.bag.get? kind with
  | none => rfl
  | some previous =>
      by_cases agrees : previous = next
      · simp only [agrees, ↓reduceIte, Option.map_none]
      · simp only [agrees, ↓reduceIte, Option.map_some]

/-- A renamed stage edge takes the same values over. -/
theorem takeOver_echoes (strict : Bool) (edge : Edge) (kinds : List Kind) (bundle : StageEdge) :
    Echoes (rename names) (takeOver strict edge kinds bundle).1
      (takeOver strict edge kinds (bundle.rename names)).1 := by
  induction kinds generalizing bundle with
  | nil => exact .ok bundle
  | cons kind rest inductionHypothesis =>
      cases held : edge.bag.get? kind with
      | none =>
          rw [takeOver_absent strict edge kind rest bundle held,
            takeOver_absent strict edge kind rest _ held]
          exact inductionHypothesis bundle
      | some next =>
          have goesOn : (strict = false ∨ bundle.conflict? edge kind next = none) →
              Echoes (rename names) (takeOver strict edge (kind :: rest) bundle).1
                (takeOver strict edge (kind :: rest) (bundle.rename names)).1 := by
            intro free
            have alsoFree : strict = false ∨
                (bundle.rename names).conflict? edge kind next = none :=
              free.imp_right fun none => by rw [conflict?_rename, none, Option.map_none]
            rw [takeOver_present strict edge kind rest bundle next held free,
              takeOver_present strict edge kind rest _ next held alsoFree]
            have sameBag : (bundle.rename names).bag = bundle.bag := rfl
            rw [sameBag]
            cases bundle.bag.set (some next) with
            | error fault => exact .error (.same fault)
            | ok bag => exact inductionHypothesis { bundle with bag := bag }
          cases strict with
          | false => exact goesOn (Or.inl rfl)
          | true =>
              cases differs : bundle.conflict? edge kind next with
              | none => exact goesOn (Or.inr differs)
              | some conflict =>
                  have renamed := (conflict?_rename names bundle edge kind next).trans
                    (congrArg _ differs)
                  rw [takeOver_conflict edge kind rest bundle next held conflict differs,
                    takeOver_conflict edge kind rest _ next held _ renamed]
                  exact .error (.conflict _ _ _ _ _)

/-- An edge is bundled on renamed stage edges as it is on the others. -/
theorem bundleBetween_echoes (strict : Bool) (edge : Edge) (source destination : String)
    (bundles : List StageEdge) :
    Echoes (List.map (rename names)) (bundleBetween strict edge source destination bundles).1
      (bundleBetween strict edge (names.stage source) (names.stage destination)
        (bundles.map (rename names))).1 := by
  induction bundles with
  | nil => exact (takeOver_echoes names strict edge Kind.carried _).map fun _ => rfl
  | cons bundle rest inductionHypothesis =>
      have ends : ((bundle.rename names).source = names.stage source ∧
          (bundle.rename names).destination = names.stage destination) ↔
            bundle.source = source ∧ bundle.destination = destination :=
        and_congr names.stage.apply_eq_iff_eq names.stage.apply_eq_iff_eq
      rw [List.map_cons, bundleBetween, bundleBetween]
      by_cases here : bundle.source = source ∧ bundle.destination = destination
      · rw [if_pos here, if_pos (ends.mpr here)]
        exact (takeOver_echoes names strict edge Kind.carried _).map fun _ => rfl
      · rw [if_neg here, if_neg (mt ends.mp here)]
        exact inductionHypothesis.map fun _ => rfl

end StageEdge

namespace Staging

variable (names : Renaming)

/-- Stages under other identities. -/
def rename (staging : Staging) : Staging := ⟨staging.stages.map (Stage.rename names)⟩

/-- The stage of a vertex among renamed stages is its renamed stage. -/
theorem stageOf?_rename (staging : Staging) (id : String) :
    (staging.rename names).stageOf? id = (staging.stageOf? id).map (Stage.rename names) := by
  rw [stageOf?, stageOf?, rename, List.find?_map]
  rfl

/-- Edges are bundled between renamed stages as they are between the others. -/
theorem bundleAll_echoes (staging : Staging) (strict : Bool) (sets : DisjointSets)
    (edges : List Edge) (bundles : List StageEdge) :
    Echoes (List.map (StageEdge.rename names)) (staging.bundleAll strict sets edges bundles).1
      ((staging.rename names).bundleAll strict sets edges
        (bundles.map (StageEdge.rename names))).1 := by
  induction edges generalizing bundles with
  | nil => exact .ok bundles
  | cons edge rest inductionHypothesis =>
      have renamed := stageOf?_rename names staging
      cases ofSource : staging.stageOf? edge.source with
      | none =>
          simp only [bundleAll, renamed, ofSource, Option.map_none]
          exact .error (.same _)
      | some source =>
          cases ofDestination : staging.stageOf? edge.destination with
          | none =>
              simp only [bundleAll, renamed, ofSource, ofDestination, Option.map_none]
              exact .error (.same _)
          | some destination =>
              have renamedSource := (renamed edge.source).trans (congrArg _ ofSource)
              have renamedDestination := (renamed edge.destination).trans (congrArg _ ofDestination)
              cases together : sets.together edge.source edge.destination with
              | true =>
                  rw [bundleAll_inside _ strict sets edge rest _ _ _ ofSource ofDestination
                      together, bundleAll_inside _ strict sets edge rest _ _ _ renamedSource
                      renamedDestination together]
                  split
                  · exact .error (.shuffleInside _ _ _)
                  · exact inductionHypothesis bundles
              | false =>
                  rw [bundleAll_across _ strict sets edge rest _ _ _ ofSource ofDestination
                      together, bundleAll_across _ strict sets edge rest _ _ _ renamedSource
                      renamedDestination together]
                  exact (StageEdge.bundleBetween_echoes names strict edge source.id destination.id
                    bundles).bind inductionHypothesis

/-- Vertices are assigned to the renamed stages. -/
theorem assignments_rename (staging : Staging) :
    (staging.rename names).assignments =
      staging.assignments.map fun (vertex, stage) => (vertex, names.stage stage) := by
  simp only [assignments, rename, List.flatMap_map, List.map_flatMap, List.map_map]
  rfl

/-- Renamed tasks have the same vertices. -/
theorem taskVertices_rename (staging : Staging) :
    (staging.rename names).taskVertices =
      staging.taskVertices.map fun (task, vertex) => (names.task task, vertex) := by
  simp only [taskVertices, rename, List.flatMap_map, List.map_flatMap, List.map_map, Stage.rename,
    List.zip_map_left]
  rfl

end Staging

/-! ## Renamed stage graphs -/

/-- The order of an intact graph is what sorting takes. -/
theorem Dag.Intact.order_eq {V E : Type} [Node V] [Arc E] {graph : Dag V E}
    (intact : graph.Intact) : graph.order = graph.sortEnd.taken := by
  by_cases finished : graph.sortEnd.taken.length = graph.size
  · have sorted : graph.sort = .ok graph.sortEnd.taken := if_pos finished
    exact Except.ok.inj (intact.sorted.symm.trans sorted)
  · have stuck : graph.sort = .error (.structural (.cycle (graph.stuck graph.sortEnd))) :=
      if_neg finished
    cases intact.sorted.symm.trans stuck

/-- What two stage graphs have in common that differ by a renaming. -/
structure StageGraph.Renamed (names : Renaming) (graph other : StageGraph) : Prop where
  intact : graph.Intact
  otherIntact : other.Intact
  vertices : other.vertices = graph.vertices.map (Stage.rename names)
  edges : other.edges = graph.edges.map (StageEdge.rename names)

namespace StageGraph.Renamed

variable {names : Renaming} {graph other : StageGraph}

/-- The ids of renamed stages are the renamed ids. -/
theorem ids_eq (renamed : Renamed names graph other) : other.ids = graph.ids.map names.stage := by
  rw [renamed.otherIntact.indexed, renamed.intact.indexed, renamed.vertices, List.map_map,
    List.map_map]
  rfl

/-- Renamed stages stand where the stages do. -/
theorem position_eq (renamed : Renamed names graph other) (id : String) :
    other.position (names.stage id) = graph.position id := by
  rw [Dag.position, Dag.position, Dag.position?, Dag.position?, renamed.ids_eq, idxOf?_map_exchange]

/-- A renamed stage edge ends at the same position. -/
theorem endPosition_eq (renamed : Renamed names graph other) (bundle : StageEdge) :
    other.endPosition (bundle.rename names) = graph.endPosition bundle :=
  renamed.position_eq bundle.destination

/-- The edges out of a renamed stage are the renamed edges out of the stage. -/
theorem outgoing_eq (renamed : Renamed names graph other) (id : String) :
    other.outgoing (names.stage id) = (graph.outgoing id).map (StageEdge.rename names) := by
  rw [renamed.otherIntact.outgoing_eq, renamed.intact.outgoing_eq, renamed.edges, List.filter_map]
  congr 1
  apply List.filter_congr
  intro bundle _
  exact decide_eq_decide.mpr names.stage.apply_eq_iff_eq

/-- Renamed stages are sorted in the same way, since a sort looks at positions only. -/
theorem order_eq (renamed : Renamed names graph other) : other.order = graph.order := by
  have size : other.size = graph.size := by
    rw [Dag.size, renamed.vertices, List.length_map, Dag.size]
  rw [renamed.otherIntact.order_eq, renamed.intact.order_eq]
  refine congrArg Sorting.taken (Dag.sortEnd_congr other graph size ?_ ?_)
  · have ends : other.edges.map other.endPosition = graph.edges.map graph.endPosition := by
      rw [renamed.edges, List.map_map]
      exact List.map_congr_left fun bundle _ => renamed.endPosition_eq bundle
    simp only [Dag.counters, ends, size]
  · intro position
    rw [Dag.targets, Dag.targets, Dag.outgoingAt, Dag.outgoingAt, renamed.vertices,
      List.getElem?_map]
    cases graph.vertices[position]? with
    | none => rfl
    | some stage =>
        have outgoing := renamed.outgoing_eq stage.id
        simp only [Option.map_some, Option.elim_some]
        refine (congrArg (List.map other.endPosition) outgoing).trans ?_
        rw [List.map_map]
        exact List.map_congr_left fun bundle _ => renamed.endPosition_eq bundle

/-- Such graphs are one graph under two sets of identities, provided that the ids of the stage edges
are renamed along with the stages. -/
theorem eq_rename (renamed : Renamed names graph other)
    (arrows : graph.edges.map (fun bundle => names.stageEdge bundle.id) =
      other.edges.map StageEdge.id) : other = StageGraph.rename names graph := by
  have links : other.links = graph.links.map (Link.rename names) := by
    rw [renamed.otherIntact.linked, renamed.intact.linked, renamed.edges, List.map_map,
      List.map_map]
    apply List.map_congr_left
    intro bundle member
    rw [renamed.edges, List.map_map] at arrows
    have arrow := List.map_inj_left.mp arrows bundle member
    exact congrArg (fun id => Link.mk id (names.stage bundle.source)
      (names.stage bundle.destination)) arrow.symm
  have ids := renamed.ids_eq
  have order := renamed.order_eq
  have vertices := renamed.vertices
  have edges := renamed.edges
  cases other
  rw [StageGraph.rename, Dag.mk.injEq]
  exact ⟨vertices, edges, ids, links, order⟩

end StageGraph.Renamed

end Flowplan
