import Flowplan.Proofs.Lowerings

/-!
# What plans consist of

A plan realizes stages which are the components of the job graph, and a stage graph which carries
its shuffles (`Plan.Realizes`). From this follows what a plan says about the vertices and edges
of the graph: where every vertex went, which shuffles every stage edge stands for, and that the
stages in topological order keep the order of the edges.
-/

namespace Flowplan

namespace Staging

/-- The vertices assigned to stages are the members of these. -/
theorem assignments_keys (staging : Staging) :
    staging.assignments.map Prod.fst = staging.stages.flatMap Stage.memberIds := by
  rw [assignments, List.map_flatMap]
  apply List.flatMap_congr
  intro stage _
  rw [List.map_map]
  rfl

/-- A vertex is assigned to a stage exactly if it is a member of the stage with this id. -/
theorem mem_assignments_iff (staging : Staging) (id stageId : String) :
    (id, stageId) ∈ staging.assignments ↔
      ∃ stage ∈ staging.stages, id ∈ stage.memberIds ∧ stage.id = stageId := by
  simp only [assignments, Stage.memberIds, List.mem_flatMap, List.mem_map, Prod.mk.injEq]
  constructor
  · rintro ⟨stage, stageIn, vertex, vertexIn, named, same⟩
    exact ⟨stage, stageIn, ⟨vertex, vertexIn, named⟩, same⟩
  · rintro ⟨stage, stageIn, ⟨vertex, vertexIn, named⟩, same⟩
    exact ⟨stage, stageIn, vertex, vertexIn, named, same⟩

end Staging

namespace Plan

/-- A plan with the given stages, all edges of the job graph on its stage edges. -/
structure Realizes (plan : Plan) (staging : Staging) (sets : DisjointSets) (graph : JobGraph) :
    Prop where
  completes : staging.Completes sets graph plan.stageGraph.edges
  intact : plan.stageGraph.Intact
  vertices : plan.stageGraph.vertices = staging.stages
  assignments : plan.assignments = staging.assignments

/-- Stages that fit the graph are realized by the plan made of them. -/
theorem realizes_of_lowered {graph : JobGraph} (sound : graph.Sound) {staging : Staging}
    {sets : DisjointSets} (fits : staging.Fits sets graph) {strict : Bool} {id : String}
    {plan : Plan}
    (lowered : (staging.lowered strict sets graph.arrivals id).outcome = .ok plan) :
    plan.Realizes staging sets graph := by
  obtain ⟨bundles, stageGraph, bundled, formed, rfl⟩ := Staging.lowered_ok lowered
  obtain ⟨intact, vertices, edges⟩ := staging.graph_intact bundles stageGraph formed
  refine ⟨?_, intact, vertices, rfl⟩
  exact edges.symm ▸ fits.completes sound strict bundles bundled

/-- Whatever was lowered, the plan realizes the stages drawn for the graph. -/
theorem realizes_of_lower {graph : JobGraph} (sound : graph.Sound) {strict : Bool}
    {source : Source} {plan : Plan}
    (lowered : ((lower strict (some graph)).run source).1.outcome = .ok plan) :
    ∃ staging sets, plan.Realizes staging sets graph ∧ staging.Numbered source := by
  obtain ⟨gathering, walked, isWalked⟩ :=
    Gathering.lower_of_patterned strict sound (patterned_of_lower sound lowered)
  obtain ⟨staging, id, fits, numbered, continues⟩ := walked.lowered sound strict source
  rw [isWalked, continues] at lowered
  exact ⟨staging, gathering.groups, realizes_of_lowered sound fits lowered, numbered⟩

namespace Realizes

variable {plan : Plan} {staging : Staging} {sets : DisjointSets} {graph : JobGraph}

/-- A plan has the stages that were drawn. -/
theorem stages_perm (realizes : plan.Realizes staging sets graph) :
    plan.stages.Perm staging.stages :=
  realizes.vertices ▸ realizes.intact.topological_perm

/-- The stages of a plan are the components of the job graph. -/
theorem splits (realizes : plan.Realizes staging sets graph) : staging.Splits graph :=
  realizes.completes.fits.splits

/-- The ids of the stages are distinct. -/
theorem distinct (realizes : plan.Realizes staging sets graph) :
    (staging.stages.map Stage.id).Nodup := by
  have ids := realizes.intact.distinct
  rw [realizes.intact.indexed, realizes.vertices] at ids
  exact ids

/-- The members of the stages are the vertices of the graph, each once. -/
theorem ids_perm (realizes : plan.Realizes staging sets graph) (sound : graph.Sound) :
    (plan.stages.flatMap Stage.memberIds).Perm graph.ids :=
  (realizes.stages_perm.flatMap_right Stage.memberIds).trans (realizes.splits.ids_perm sound)

/-- No vertex is in two stages, nor in one of them twice. -/
theorem ids_distinct (realizes : plan.Realizes staging sets graph) (sound : graph.Sound) :
    (plan.stages.flatMap Stage.memberIds).Nodup :=
  (realizes.ids_perm sound).nodup_iff.mpr sound.intact.distinct

/-- A vertex is assigned to the stage that lists it, and to no other. -/
theorem stageOf?_iff (realizes : plan.Realizes staging sets graph) (sound : graph.Sound)
    (id : String) (stage : Stage) :
    plan.stageOf? id = some stage ↔ stage ∈ plan.stages ∧ id ∈ stage.memberIds := by
  have keys : (staging.assignments.map Prod.fst).Nodup := by
    rw [staging.assignments_keys]
    exact (realizes.splits.ids_perm sound).nodup_iff.mpr sound.intact.distinct
  rw [stageOf?, Option.bind_eq_some_iff, realizes.stages_perm.mem_iff, realizes.assignments]
  simp only [lookup_iff_mem_of_distinct _ keys, staging.mem_assignments_iff, stage?,
    realizes.intact.vertex?_iff, realizes.vertices]
  constructor
  · rintro ⟨stageId, ⟨other, otherIn, inOther, rfl⟩, stageIn, named⟩
    obtain rfl := List.inj_on_of_nodup_map realizes.distinct stageIn otherIn named
    exact ⟨stageIn, inOther⟩
  · rintro ⟨stageIn, inStage⟩
    exact ⟨stage.id, ⟨stage, stageIn, inStage, rfl⟩, stageIn, rfl⟩

/-- Every vertex of the graph is assigned to a stage. -/
theorem stageOf?_known (realizes : plan.Realizes staging sets graph) (sound : graph.Sound)
    (id : String) (known : id ∈ graph.ids) :
    ∃ stage ∈ plan.stages, id ∈ stage.memberIds ∧ plan.stageOf? id = some stage := by
  obtain ⟨stage, stageIn, inStage⟩ :=
    List.mem_flatMap.mp ((realizes.ids_perm sound).mem_iff.mpr known)
  exact ⟨stage, stageIn, inStage, (realizes.stageOf?_iff sound id stage).mpr ⟨stageIn, inStage⟩⟩

/-- Vertices are assigned to one stage exactly if they are joined. -/
theorem stageOf?_eq_iff (realizes : plan.Realizes staging sets graph) (sound : graph.Sound)
    (left right : String) (leftKnown : left ∈ graph.ids) (rightKnown : right ∈ graph.ids) :
    plan.stageOf? left = plan.stageOf? right ↔ graph.Joined left right := by
  obtain ⟨stage, stageIn, inStage, ofLeft⟩ := realizes.stageOf?_known sound left leftKnown
  have drawn := realizes.stages_perm.mem_iff.mp stageIn
  rw [← realizes.splits.joined stage drawn left inStage right rightKnown, ofLeft, eq_comm,
    realizes.stageOf?_iff sound]
  exact ⟨fun found => found.2, fun listed => ⟨stageIn, listed⟩⟩

/-- The stages were inserted in the order of their first members. -/
theorem firsts_before (realizes : plan.Realizes staging sets graph) (first second : Stage)
    (before : Before plan.stageGraph.vertices first second) :
    ∃ left right, first.memberIds.head? = some left ∧ second.memberIds.head? = some right ∧
      Before (graph.topological.map Vertex.id) left right := by
  rw [realizes.vertices] at before
  obtain ⟨firstIn, secondIn⟩ := before_mem before
  obtain ⟨left, _, ofFirst⟩ :=
    List.exists_cons_of_ne_nil (realizes.splits.inhabited first firstIn)
  obtain ⟨right, _, ofSecond⟩ :=
    List.exists_cons_of_ne_nil (realizes.splits.inhabited second secondIn)
  refine ⟨left.id, right.id, by simp [Stage.memberIds, ofFirst],
    by simp [Stage.memberIds, ofSecond], ?_⟩
  have heads : [left, right].Sublist
      (staging.stages.filterMap fun stage => stage.members.head?) := by
    simpa [ofFirst, ofSecond] using
      List.Sublist.filterMap (fun stage : Stage => stage.members.head?) before
  exact (heads.trans realizes.splits.firsts).map Vertex.id

/-! ## Stage edges -/

/-- There is a stage edge between two stages exactly if they differ and a shuffle leads from one
to the other. -/
theorem stageEdge_iff (realizes : plan.Realizes staging sets graph) (sound : graph.Sound)
    (first second : Stage) (firstIn : first ∈ plan.stages) (secondIn : second ∈ plan.stages) :
    (first.id, second.id) ∈ plan.stageGraph.edges.map StageEdge.ends ↔
      first ≠ second ∧ ∃ edge ∈ graph.edges, edge.isShuffle = true ∧
        edge.source ∈ first.memberIds ∧ edge.destination ∈ second.memberIds := by
  rw [realizes.stages_perm.mem_iff] at firstIn secondIn
  rw [realizes.completes.ends_between_iff sound realizes.distinct first second firstIn secondIn]
  constructor
  · rintro ⟨edge, member, shuffles, inFirst, inSecond⟩
    have apart := realizes.completes.stages_apart sound member shuffles firstIn inFirst inSecond
    exact ⟨apart, edge, member, shuffles, inFirst, inSecond⟩
  · rintro ⟨_, between⟩
    exact between

/-- A stage edge lists the shuffles between its two stages, in the order of arrivals. -/
theorem bundled_eq (realizes : plan.Realizes staging sets graph) (sound : graph.Sound)
    (bundle : StageEdge) (member : bundle ∈ plan.stageGraph.edges) :
    ∃ first ∈ plan.stages, ∃ second ∈ plan.stages, bundle.ends = (first.id, second.id) ∧
      bundle.bundled = (graph.arrivals.filter fun edge => edge.isShuffle = true ∧
        edge.source ∈ first.memberIds ∧ edge.destination ∈ second.memberIds).map Edge.id := by
  have completes := realizes.completes
  obtain ⟨_, _, _, first, firstIn, second, secondIn, _, _, ends⟩ :=
    (completes.ends_iff sound bundle.ends).mp (List.mem_map_of_mem member)
  refine ⟨first, realizes.stages_perm.mem_iff.mpr firstIn, second,
    realizes.stages_perm.mem_iff.mpr secondIn, ends, ?_⟩
  refine (completes.carries.holds.contents bundle member).trans ?_
  refine congrArg (List.map Edge.id) (List.filter_congr ?_)
  intro edge arrives
  have named : (staging.filing sets).name bundle = (first.id, second.id) := ends
  rw [named, decide_eq_decide]
  exact completes.crossing?_between sound realizes.distinct edge
    ((sound.mem_arrivals edge).mp arrives) first second firstIn secondIn

/-- The stage edges together list every shuffle once. -/
theorem bundled_perm (realizes : plan.Realizes staging sets graph) (sound : graph.Sound) :
    (plan.stageGraph.edges.flatMap StageEdge.bundled).Perm
      ((graph.edges.filter Edge.isShuffle).map Edge.id) := by
  have listed := realizes.completes.carries.holds.contents_perm
  have shuffles : (graph.arrivals.filter fun edge => ((staging.filing sets).keyOf edge).isSome) =
      graph.arrivals.filter Edge.isShuffle := by
    apply List.filter_congr
    intro edge arrives
    exact Bool.eq_iff_iff.mpr (realizes.completes.crossing?_isSome_iff sound edge
      ((sound.mem_arrivals edge).mp arrives))
  rw [shuffles] at listed
  exact listed.trans ((sound.arrivals_perm.filter Edge.isShuffle).map Edge.id)

/-! ## Orders -/

/-- An edge that does not shuffle goes forward in the stage of its ends. -/
theorem plain_before (realizes : plan.Realizes staging sets graph) (sound : graph.Sound)
    (edge : Edge) (member : edge ∈ graph.edges) (plain : edge.isShuffle = false) :
    ∃ stage ∈ plan.stages, Before stage.memberIds edge.source edge.destination := by
  obtain ⟨sourceKnown, destinationKnown⟩ := sound.ends_known edge member
  obtain ⟨stage, stageIn, inStage, _⟩ := realizes.stageOf?_known sound edge.source sourceKnown
  have drawn := realizes.stages_perm.mem_iff.mp stageIn
  have alsoIn := (realizes.splits.joined stage drawn _ inStage _ destinationKnown).mpr
    (graph.joined_of_plain edge member plain)
  have forward : Before (graph.topological.map Vertex.id) edge.source edge.destination :=
    sound.intact.source_before _ _ ⟨edge, member, rfl, rfl⟩
  exact ⟨stage, stageIn, before_of_sublist sound.intact.topological_distinct
    ((realizes.splits.ordered stage drawn).map Vertex.id) forward inStage alsoIn⟩

/-- A shuffle leads from an earlier stage to a later one. -/
theorem shuffle_before (realizes : plan.Realizes staging sets graph) (sound : graph.Sound)
    (edge : Edge) (member : edge ∈ graph.edges) (shuffles : edge.isShuffle = true) :
    ∃ first second, Before plan.stages first second ∧ edge.source ∈ first.memberIds ∧
      edge.destination ∈ second.memberIds := by
  obtain ⟨sourceKnown, destinationKnown⟩ := sound.ends_known edge member
  obtain ⟨first, firstIn, inFirst, _⟩ := realizes.stageOf?_known sound edge.source sourceKnown
  obtain ⟨second, secondIn, inSecond, _⟩ :=
    realizes.stageOf?_known sound edge.destination destinationKnown
  have apart := realizes.completes.stages_apart sound member shuffles
    (realizes.stages_perm.mem_iff.mp firstIn) inFirst inSecond
  have leads : plan.stageGraph.Leads first.id second.id :=
    (Staging.Completes.leads_iff_ends rfl _ _).mpr
      ((realizes.stageEdge_iff sound first second firstIn secondIn).mpr
        ⟨apart, edge, member, shuffles, inFirst, inSecond⟩)
  exact ⟨first, second, before_of_map Stage.id realizes.intact.topological_distinct firstIn
    secondIn (realizes.intact.source_before _ _ leads), inFirst, inSecond⟩

/-- Through all stages, the source of every edge stands before its destination. -/
theorem edge_before (realizes : plan.Realizes staging sets graph) (sound : graph.Sound)
    (edge : Edge) (member : edge ∈ graph.edges) :
    Before (plan.stages.flatMap Stage.memberIds) edge.source edge.destination := by
  cases shuffles : edge.isShuffle with
  | false =>
      obtain ⟨stage, stageIn, before⟩ := realizes.plain_before sound edge member shuffles
      exact before_flatMap_of_mem stageIn before
  | true =>
      obtain ⟨first, second, before, inFirst, inSecond⟩ :=
        realizes.shuffle_before sound edge member shuffles
      exact before_flatMap_of_before before inFirst inSecond

/-- Through all stages, whatever a vertex reaches stands behind it. -/
theorem path_before (realizes : plan.Realizes staging sets graph) (sound : graph.Sound)
    (start finish : String) (path : Relation.TransGen graph.Leads start finish) :
    Before (plan.stages.flatMap Stage.memberIds) start finish := by
  induction path with
  | single leads =>
      obtain ⟨edge, member, rfl, rfl⟩ := leads
      exact realizes.edge_before sound edge member
  | tail _ leads inductionHypothesis =>
      obtain ⟨edge, member, rfl, rfl⟩ := leads
      exact before_trans (realizes.ids_distinct sound) inductionHypothesis
        (realizes.edge_before sound edge member)

end Realizes

end Plan

/-- Two shuffles lead from the component of `a` and `b` to the component of `c` and `d`. -/
def twoStages : JobGraph where
  vertices := ["a", "b", "c", "d"].map fun id => .bare id none
  edges := [.along .oneToOne "ab" "a" "b", .along .shuffle "bc" "b" "c",
    .along .broadcast "cd" "c" "d", .along .shuffle "ac" "a" "c"]
  ids := ["a", "b", "c", "d"]
  links := [⟨"ab", "a", "b"⟩, ⟨"bc", "b", "c"⟩, ⟨"cd", "c", "d"⟩, ⟨"ac", "a", "c"⟩]
  order := [0, 1, 2, 3]

/-- A builder hands this graph out. -/
theorem twoStages_made : twoStages.Made := by
  refine .ofLists twoStages.vertices twoStages.edges ?_ ?_ rfl rfl rfl
  · exact List.forall_mem_map.mpr fun _ _ => .empty
  · simp only [twoStages, List.forall_mem_cons]
    exact ⟨Edge.along_filled _ _ _ _ rfl, Edge.along_filled _ _ _ _ rfl,
      Edge.along_filled _ _ _ _ rfl, Edge.along_filled _ _ _ _ rfl, nofun⟩

/-- There is a plan even if conflicts count. -/
theorem twoStages_lowered :
    ∃ plan, ((lower true (some twoStages)).run (.start "s")).1.outcome = .ok plan := by
  have succeeds : ((lower true (some twoStages)).run (.start "s")).1.outcome.isOk = true := by
    decide +kernel
  exact exists_ok succeeds

/-- Two vertices share a stage exactly if edges that do not shuffle connect them.

The stages list every vertex of the graph once and nothing else, each in topological order, and a
vertex is assigned to the stage that lists it. The stages were formed, and their identities drawn,
in the topological order of their first members. -/
theorem stages_are_components (graph : JobGraph) (made : graph.Made) (strict : Bool)
    (source : Source) (plan : Plan)
    (lowered : ((lower strict (some graph)).run source).1.outcome = .ok plan) :
    (∀ left ∈ graph.vertices.map Vertex.id, ∀ right ∈ graph.vertices.map Vertex.id,
        (plan.stageOf? left = plan.stageOf? right ↔ graph.Joined left right)) ∧
      (plan.stages.flatMap Stage.memberIds).Perm (graph.vertices.map Vertex.id) ∧
      (plan.stages.flatMap Stage.memberIds).Nodup ∧
      (∀ stage ∈ plan.stages, stage.memberIds.Sublist (graph.topological.map Vertex.id)) ∧
      (∀ id stage, plan.stageOf? id = some stage ↔
        stage ∈ plan.stages ∧ id ∈ stage.memberIds) ∧
      (∀ id, id ∉ graph.vertices.map Vertex.id → plan.stageOf? id = none) ∧
      (∀ first second, Before plan.stageGraph.vertices first second →
        ∃ left right, first.memberIds.head? = some left ∧ second.memberIds.head? = some right ∧
          Before (graph.topological.map Vertex.id) left right) ∧
      plan.stageGraph.vertices.map Stage.id = (List.range plan.size).map fun index =>
        Source.identity source.session .stage (source.counter .stage + UInt64.ofNat index) := by
  have sound := made.sound
  obtain ⟨staging, sets, realizes, numbered⟩ := Plan.realizes_of_lower sound lowered
  rw [← sound.ids_eq]
  refine ⟨?_, realizes.ids_perm sound, realizes.ids_distinct sound, ?_,
    realizes.stageOf?_iff sound, ?_, realizes.firsts_before, ?_⟩
  · intro left leftKnown right rightKnown
    exact realizes.stageOf?_eq_iff sound left right leftKnown rightKnown
  · intro stage stageIn
    exact (realizes.splits.ordered stage (realizes.stages_perm.mem_iff.mp stageIn)).map Vertex.id
  · intro id unknown
    apply Option.eq_none_iff_forall_not_mem.mpr
    intro stage found
    obtain ⟨stageIn, inStage⟩ := (realizes.stageOf?_iff sound id stage).mp found
    exact unknown ((realizes.ids_perm sound).mem_iff.mp
      (List.mem_flatMap.mpr ⟨stage, stageIn, inStage⟩))
  · rw [Plan.size, Dag.size, realizes.vertices]
    exact numbered

/-- The vertices that are joined share a stage, and no vertex is lost. -/
theorem twoStages_components :
    ∃ plan, ((lower true (some twoStages)).run (.start "s")).1.outcome = .ok plan ∧
      plan.stageOf? "a" = plan.stageOf? "b" ∧
      (plan.stages.flatMap Stage.memberIds).Perm ["a", "b", "c", "d"] := by
  obtain ⟨plan, lowered⟩ := twoStages_lowered
  obtain ⟨joined, listed, _⟩ :=
    stages_are_components twoStages twoStages_made true (.start "s") plan lowered
  refine ⟨plan, lowered, (joined "a" (by decide) "b" (by decide)).mpr ?_, listed⟩
  exact twoStages.joined_of_plain (.along .oneToOne "ab" "a" "b") List.mem_cons_self (by decide)

/-- A stage edge stands for the shuffles from one stage to another, and every shuffle stands on
one stage edge.

Two stages have at most one stage edge from the first to the second, and they have one exactly if
they differ and a shuffle leads from a member of the first to a member of the second. It lists
these shuffles in the order of arrivals and is a shuffle itself. -/
theorem stageEdges_are_shuffles (graph : JobGraph) (made : graph.Made) (strict : Bool)
    (source : Source) (plan : Plan)
    (lowered : ((lower strict (some graph)).run source).1.outcome = .ok plan) :
    (plan.stages.map Stage.id).Nodup ∧
      (plan.stageGraph.edges.map StageEdge.ends).Nodup ∧
      (∀ first ∈ plan.stages, ∀ second ∈ plan.stages,
        ((first.id, second.id) ∈ plan.stageGraph.edges.map StageEdge.ends ↔
          first ≠ second ∧ ∃ edge ∈ graph.edges, edge.isShuffle = true ∧
            edge.source ∈ first.memberIds ∧ edge.destination ∈ second.memberIds)) ∧
      (∀ bundle ∈ plan.stageGraph.edges, ∃ first ∈ plan.stages, ∃ second ∈ plan.stages,
        bundle.ends = (first.id, second.id) ∧
          bundle.bundled = (graph.arrivals.filter fun edge => edge.isShuffle = true ∧
            edge.source ∈ first.memberIds ∧ edge.destination ∈ second.memberIds).map Edge.id) ∧
      (plan.stageGraph.edges.flatMap StageEdge.bundled).Perm
        ((graph.edges.filter Edge.isShuffle).map Edge.id) ∧
      (plan.stageGraph.edges.flatMap StageEdge.bundled).Nodup ∧
      ∀ bundle ∈ plan.stageGraph.edges, bundle.bag.pattern? = some .shuffle := by
  have sound := made.sound
  obtain ⟨staging, sets, realizes, _⟩ := Plan.realizes_of_lower sound lowered
  have listed := realizes.bundled_perm sound
  refine ⟨realizes.intact.topological_distinct, realizes.completes.carries.holds.distinct, ?_,
    realizes.bundled_eq sound, listed, ?_, ?_⟩
  · intro first firstIn second secondIn
    exact realizes.stageEdge_iff sound first second firstIn secondIn
  · exact listed.nodup_iff.mpr (sound.edge_ids_distinct.sublist (List.filter_sublist.map Edge.id))
  · intro bundle member
    exact (realizes.completes.carries.marked bundle member).shuffles

/-- Both shuffles are listed, and no other edge is. -/
theorem twoStages_shuffles :
    ∃ plan, ((lower true (some twoStages)).run (.start "s")).1.outcome = .ok plan ∧
      (plan.stageGraph.edges.flatMap StageEdge.bundled).Perm ["bc", "ac"] := by
  obtain ⟨plan, lowered⟩ := twoStages_lowered
  obtain ⟨_, _, _, _, listed, _⟩ :=
    stageEdges_are_shuffles twoStages twoStages_made true (.start "s") plan lowered
  exact ⟨plan, lowered, listed⟩

/-- Listing the stages in topological order lists the vertices in an order that suits all edges
of the job graph.

An edge that does not shuffle goes forward within its stage, since a stage keeps the order of the
job graph; a shuffle goes forward from stage to stage, since the stage graph is sorted. So whatever
a vertex reaches stands behind it in its stage, or in a later stage. -/
theorem stages_refine_order (graph : JobGraph) (made : graph.Made) (strict : Bool)
    (source : Source) (plan : Plan)
    (lowered : ((lower strict (some graph)).run source).1.outcome = .ok plan) :
    (plan.stages.flatMap Stage.memberIds).Perm (graph.vertices.map Vertex.id) ∧
      (plan.stages.flatMap Stage.memberIds).Nodup ∧
      (∀ edge ∈ graph.edges,
        Before (plan.stages.flatMap Stage.memberIds) edge.source edge.destination) ∧
      ∀ start finish, Relation.TransGen graph.Leads start finish →
        (∃ stage ∈ plan.stages, Before stage.memberIds start finish) ∨
          ∃ first second, Before plan.stages first second ∧ start ∈ first.memberIds ∧
            finish ∈ second.memberIds := by
  have sound := made.sound
  obtain ⟨staging, sets, realizes, _⟩ := Plan.realizes_of_lower sound lowered
  refine ⟨sound.ids_eq ▸ realizes.ids_perm sound, realizes.ids_distinct sound,
    realizes.edge_before sound, ?_⟩
  intro start finish path
  exact before_flatMap_cases (realizes.path_before sound start finish path)

/-- A vertex stands before what it leads to, in its stage or in the order of the stages. -/
theorem twoStages_order :
    ∃ plan, ((lower true (some twoStages)).run (.start "s")).1.outcome = .ok plan ∧
      ((∃ stage ∈ plan.stages, Before stage.memberIds "a" "d") ∨
        ∃ first second, Before plan.stages first second ∧ "a" ∈ first.memberIds ∧
          "d" ∈ second.memberIds) := by
  obtain ⟨plan, lowered⟩ := twoStages_lowered
  obtain ⟨_, _, _, reached⟩ :=
    stages_refine_order twoStages twoStages_made true (.start "s") plan lowered
  have toC : twoStages.Leads "a" "c" := ⟨.along .shuffle "ac" "a" "c", by decide, rfl, rfl⟩
  have toD : twoStages.Leads "c" "d" := ⟨.along .broadcast "cd" "c" "d", by decide, rfl, rfl⟩
  exact ⟨plan, lowered, reached "a" "d" (.tail (.single toC) toD)⟩

end Flowplan
