import Flowplan.Proofs.Bundles

/-!
# The graph of the stages

Once all shuffles are bundled, the stage edges are the arcs between the components of the job
graph: one for every pair of stages that some shuffle leads between. The builder therefore accepts
all stages and stage edges, and the stage graph can be sorted exactly if no round of shuffles
leads from a component back to itself.
-/

namespace Flowplan.Staging

/-- The stages are the components of a job graph, and the groups know which vertices are
joined. -/
structure Fits (staging : Staging) (sets : DisjointSets) (graph : JobGraph) : Prop where
  splits : staging.Splits graph
  together : ∀ left ∈ graph.ids, ∀ right ∈ graph.ids,
    (sets.together left right = true ↔ graph.Joined left right)

namespace Fits

variable {staging : Staging} {sets : DisjointSets} {graph : JobGraph}

/-- The groups have the ends of an edge together exactly if these are joined. -/
theorem together_ends (fits : staging.Fits sets graph) (sound : graph.Sound) (edge : Edge)
    (member : edge ∈ graph.edges) :
    sets.together edge.source edge.destination = true ↔
      graph.Joined edge.source edge.destination := by
  obtain ⟨source, destination⟩ := sound.ends_known edge member
  exact fits.together edge.source source edge.destination destination

/-- Bundling finds everything it needs on the edges of the graph. -/
theorem suits (fits : staging.Fits sets graph) (sound : graph.Sound) (edge : Edge)
    (member : edge ∈ graph.edges) : staging.Suits sets edge := by
  obtain ⟨source, destination⟩ := sound.ends_known edge member
  refine ⟨?_, ?_, ?_, sound.edges edge member⟩
  · exact fits.splits.stageOf?_known sound edge.source source
  · exact fits.splits.stageOf?_known sound edge.destination destination
  · -- an edge that does not shuffle joins its ends, and the groups know it
    intro apart
    by_contra plain
    have joined := graph.joined_of_plain edge member (Bool.eq_false_of_not_eq_true plain)
    rw [(fits.together_ends sound edge member).mpr joined] at apart
    cases apart

/-- A shuffle is inside a group exactly if it is within a component. -/
theorem inside_iff (fits : staging.Fits sets graph) (sound : graph.Sound) (edge : Edge)
    (member : edge ∈ graph.edges) : Inside sets edge ↔ graph.Encloses edge := by
  rw [Inside, JobGraph.Encloses, fits.together_ends sound edge member]

end Fits

/-- All edges of a job graph are carried by stage edges, and none of them is a shuffle within a
component. -/
structure Completes (staging : Staging) (sets : DisjointSets) (graph : JobGraph)
    (bundles : List StageEdge) : Prop where
  fits : staging.Fits sets graph
  carries : staging.Carries sets graph.arrivals bundles
  outside : ∀ edge ∈ graph.edges, ¬ graph.Encloses edge

namespace Completes

variable {staging : Staging} {sets : DisjointSets} {graph : JobGraph} {bundles : List StageEdge}

/-- An edge crosses between two stages exactly if it is a shuffle from one to the other. -/
theorem crossing?_iff (completes : staging.Completes sets graph bundles) (sound : graph.Sound)
    (edge : Edge) (member : edge ∈ graph.edges) (pair : String × String) :
    staging.crossing? sets edge = some pair ↔ edge.isShuffle = true ∧
      ∃ first ∈ staging.stages, ∃ second ∈ staging.stages, edge.source ∈ first.memberIds ∧
        edge.destination ∈ second.memberIds ∧ pair = (first.id, second.id) := by
  have fits := completes.fits
  have suits := fits.suits sound edge member
  obtain ⟨source, ofSource⟩ := suits.source
  obtain ⟨destination, ofDestination⟩ := suits.destination
  obtain ⟨sourceIn, inSource⟩ := (fits.splits.stageOf?_iff sound _ _).mp ofSource
  obtain ⟨destinationIn, inDestination⟩ := (fits.splits.stageOf?_iff sound _ _).mp ofDestination
  cases together : sets.together edge.source edge.destination with
  | true =>
      have joined := (fits.together_ends sound edge member).mp together
      constructor
      · intro crosses
        simp [crossing?, together] at crosses
      · rintro ⟨shuffles, _⟩
        exact absurd ⟨shuffles, joined⟩ (completes.outside edge member)
  | false =>
      have crosses : staging.crossing? sets edge = some (source.id, destination.id) := by
        simp [crossing?, together, ofSource, ofDestination]
      rw [crosses, Option.some.injEq]
      constructor
      · rintro rfl
        exact ⟨suits.shuffles together, source, sourceIn, destination, destinationIn, inSource,
          inDestination, rfl⟩
      · rintro ⟨_, first, firstIn, second, secondIn, inFirst, inSecond, rfl⟩
        rw [fits.splits.stage_unique sound sourceIn firstIn inSource inFirst,
          fits.splits.stage_unique sound destinationIn secondIn inDestination inSecond]

/-- Between two given stages cross the shuffles from members of one to members of the other. -/
theorem crossing?_between (completes : staging.Completes sets graph bundles) (sound : graph.Sound)
    (distinct : (staging.stages.map Stage.id).Nodup) (edge : Edge) (member : edge ∈ graph.edges)
    (first second : Stage) (firstIn : first ∈ staging.stages) (secondIn : second ∈ staging.stages) :
    staging.crossing? sets edge = some (first.id, second.id) ↔ edge.isShuffle = true ∧
      edge.source ∈ first.memberIds ∧ edge.destination ∈ second.memberIds := by
  rw [completes.crossing?_iff sound edge member]
  constructor
  · rintro ⟨shuffles, source, sourceIn, destination, destinationIn, inSource, inDestination, same⟩
    obtain ⟨sameSource, sameDestination⟩ := Prod.mk.inj same
    obtain rfl := List.inj_on_of_nodup_map distinct firstIn sourceIn sameSource
    obtain rfl := List.inj_on_of_nodup_map distinct secondIn destinationIn sameDestination
    exact ⟨shuffles, inSource, inDestination⟩
  · rintro ⟨shuffles, inFirst, inSecond⟩
    exact ⟨shuffles, first, firstIn, second, secondIn, inFirst, inSecond, rfl⟩

/-- Exactly the shuffles cross between stages. -/
theorem crossing?_isSome_iff (completes : staging.Completes sets graph bundles)
    (sound : graph.Sound) (edge : Edge) (member : edge ∈ graph.edges) :
    (staging.crossing? sets edge).isSome = true ↔ edge.isShuffle = true := by
  rw [Option.isSome_iff_exists]
  constructor
  · rintro ⟨pair, crosses⟩
    exact ((completes.crossing?_iff sound edge member pair).mp crosses).1
  · intro shuffles
    have suits := completes.fits.suits sound edge member
    obtain ⟨source, ofSource⟩ := suits.source
    obtain ⟨destination, ofDestination⟩ := suits.destination
    obtain ⟨sourceIn, inSource⟩ := (completes.fits.splits.stageOf?_iff sound _ _).mp ofSource
    obtain ⟨destinationIn, inDestination⟩ :=
      (completes.fits.splits.stageOf?_iff sound _ _).mp ofDestination
    exact ⟨(source.id, destination.id), (completes.crossing?_iff sound edge member _).mpr
      ⟨shuffles, source, sourceIn, destination, destinationIn, inSource, inDestination, rfl⟩⟩

/-- The stage edges lead between the stages that some shuffle leads between. -/
theorem ends_iff (completes : staging.Completes sets graph bundles) (sound : graph.Sound)
    (pair : String × String) :
    pair ∈ bundles.map StageEdge.ends ↔ ∃ edge ∈ graph.edges, edge.isShuffle = true ∧
      ∃ first ∈ staging.stages, ∃ second ∈ staging.stages, edge.source ∈ first.memberIds ∧
        edge.destination ∈ second.memberIds ∧ pair = (first.id, second.id) := by
  refine (completes.carries.holds.named_iff pair).trans ?_
  constructor
  · rintro ⟨edge, arrives, crosses⟩
    have member := (sound.mem_arrivals edge).mp arrives
    exact ⟨edge, member, (completes.crossing?_iff sound edge member pair).mp crosses⟩
  · rintro ⟨edge, member, crosses⟩
    exact ⟨edge, (sound.mem_arrivals edge).mpr member,
      (completes.crossing?_iff sound edge member pair).mpr crosses⟩

/-- There is a stage edge between two stages exactly if a shuffle leads from one to the other. -/
theorem ends_between_iff (completes : staging.Completes sets graph bundles) (sound : graph.Sound)
    (distinct : (staging.stages.map Stage.id).Nodup) (first second : Stage)
    (firstIn : first ∈ staging.stages) (secondIn : second ∈ staging.stages) :
    (first.id, second.id) ∈ bundles.map StageEdge.ends ↔ ∃ edge ∈ graph.edges,
      edge.isShuffle = true ∧ edge.source ∈ first.memberIds ∧
        edge.destination ∈ second.memberIds := by
  refine (completes.carries.holds.named_iff (first.id, second.id)).trans ?_
  constructor
  · rintro ⟨edge, arrives, crosses⟩
    have member := (sound.mem_arrivals edge).mp arrives
    exact ⟨edge, member, (completes.crossing?_between sound distinct edge member first second
      firstIn secondIn).mp crosses⟩
  · rintro ⟨edge, member, between⟩
    exact ⟨edge, (sound.mem_arrivals edge).mpr member, (completes.crossing?_between sound distinct
      edge member first second firstIn secondIn).mpr between⟩

/-- A shuffle never leads from a stage to itself. -/
theorem stages_apart (completes : staging.Completes sets graph bundles) (sound : graph.Sound)
    {edge : Edge} (member : edge ∈ graph.edges) (shuffles : edge.isShuffle = true)
    {first second : Stage} (firstIn : first ∈ staging.stages)
    (inFirst : edge.source ∈ first.memberIds) (inSecond : edge.destination ∈ second.memberIds) :
    first ≠ second := by
  rintro rfl
  have joined := (completes.fits.splits.joined first firstIn edge.source inFirst edge.destination
    (sound.ends_known edge member).2).mp inSecond
  exact completes.outside edge member ⟨shuffles, joined⟩

/-! ## Arcs between components -/

section Arcs

variable {stageGraph : StageGraph}

/-- The arcs of the stage graph are the ends of the stage edges. -/
theorem leads_iff_ends (edges : stageGraph.edges = bundles) (first second : String) :
    stageGraph.Leads first second ↔ (first, second) ∈ bundles.map StageEdge.ends := by
  rw [List.mem_map, ← edges]
  constructor
  · rintro ⟨bundle, member, rfl, rfl⟩
    exact ⟨bundle, member, rfl⟩
  · rintro ⟨bundle, member, same⟩
    exact ⟨bundle, member, congrArg Prod.fst same, congrArg Prod.snd same⟩

/-- An arc starts at a stage, which holds the source of a shuffle. -/
theorem leads_from (completes : staging.Completes sets graph bundles) (sound : graph.Sound)
    (edges : stageGraph.edges = bundles) {first second : String}
    (leads : stageGraph.Leads first second) :
    ∃ stage ∈ staging.stages, stage.id = first ∧ ∃ id, id ∈ stage.memberIds := by
  obtain ⟨edge, _, _, stage, stageIn, _, _, inStage, _, same⟩ :=
    (completes.ends_iff sound _).mp ((leads_iff_ends edges first second).mp leads)
  exact ⟨stage, stageIn, (congrArg Prod.fst same).symm, edge.source, inStage⟩

/-- An arc between two stages crosses from every member of the one to every member of the
other. -/
theorem crosses_of_leads (completes : staging.Completes sets graph bundles) (sound : graph.Sound)
    (distinct : (staging.stages.map Stage.id).Nodup) (edges : stageGraph.edges = bundles)
    {first second : Stage} (firstIn : first ∈ staging.stages) (secondIn : second ∈ staging.stages)
    (leads : stageGraph.Leads first.id second.id) {left right : String}
    (inFirst : left ∈ first.memberIds) (inSecond : right ∈ second.memberIds) :
    graph.Crosses left right := by
  have joined := completes.fits.splits.joined
  obtain ⟨edge, member, shuffles, source, destination⟩ :=
    (completes.ends_between_iff sound distinct first second firstIn secondIn).mp
      ((leads_iff_ends edges _ _).mp leads)
  obtain ⟨sourceKnown, destinationKnown⟩ := sound.ends_known edge member
  have toSource := (joined first firstIn left inFirst _ sourceKnown).mp source
  have fromRight := (joined second secondIn right inSecond _ destinationKnown).mp destination
  exact ⟨edge, member, shuffles, toSource, fromRight.symm⟩

/-- A path of stages crosses from every member of the first to every member of the last. -/
theorem crosses_of_path (completes : staging.Completes sets graph bundles) (sound : graph.Sound)
    (distinct : (staging.stages.map Stage.id).Nodup) (edges : stageGraph.edges = bundles)
    {start finish : String} (path : Relation.TransGen stageGraph.Leads start finish)
    {first second : Stage} (firstIn : first ∈ staging.stages) (secondIn : second ∈ staging.stages)
    (starts : first.id = start) (ends : second.id = finish) {left right : String}
    (inFirst : left ∈ first.memberIds) (inSecond : right ∈ second.memberIds) :
    Relation.TransGen graph.Crosses left right := by
  -- every stage on the way has a member, and the crossings are put together there
  induction path generalizing second right with
  | single leads =>
      subst starts ends
      exact .single (completes.crosses_of_leads sound distinct edges firstIn secondIn leads inFirst
        inSecond)
  | tail _ leads inductionHypothesis =>
      subst ends
      obtain ⟨between, betweenIn, rfl, id, inBetween⟩ := completes.leads_from sound edges leads
      exact .tail (inductionHypothesis betweenIn rfl inBetween)
        (completes.crosses_of_leads sound distinct edges betweenIn secondIn leads inBetween
          inSecond)

/-- A crossing between two vertices is an arc between their stages. -/
theorem leads_of_crosses (completes : staging.Completes sets graph bundles) (sound : graph.Sound)
    (edges : stageGraph.edges = bundles) {left right : String} (crosses : graph.Crosses left right)
    {first second : Stage} (firstIn : first ∈ staging.stages) (secondIn : second ∈ staging.stages)
    (inFirst : left ∈ first.memberIds) (inSecond : right ∈ second.memberIds) :
    stageGraph.Leads first.id second.id := by
  have joined := completes.fits.splits.joined
  obtain ⟨edge, member, shuffles, toSource, toRight⟩ := crosses
  obtain ⟨sourceKnown, destinationKnown⟩ := sound.ends_known edge member
  have source := (joined first firstIn left inFirst _ sourceKnown).mpr toSource
  have destination := (joined second secondIn right inSecond _ destinationKnown).mpr toRight.symm
  exact (leads_iff_ends edges _ _).mpr ((completes.ends_iff sound _).mpr
    ⟨edge, member, shuffles, first, firstIn, second, secondIn, source, destination, rfl⟩)

/-- Crossings one after another are a path between the stages of their ends. -/
theorem path_of_crosses (completes : staging.Completes sets graph bundles) (sound : graph.Sound)
    (edges : stageGraph.edges = bundles) {left right : String}
    (crossings : Relation.TransGen graph.Crosses left right) {first second : Stage}
    (firstIn : first ∈ staging.stages) (secondIn : second ∈ staging.stages)
    (inFirst : left ∈ first.memberIds) (inSecond : right ∈ second.memberIds) :
    Relation.TransGen stageGraph.Leads first.id second.id := by
  induction crossings generalizing second with
  | single crosses =>
      exact .single (completes.leads_of_crosses sound edges crosses firstIn secondIn inFirst
        inSecond)
  | tail _ crosses inductionHypothesis =>
      have known := sound.crosses_known crosses
      obtain ⟨between, ofBetween⟩ := completes.fits.splits.stageOf?_known sound _ known
      obtain ⟨betweenIn, inBetween⟩ :=
        (completes.fits.splits.stageOf?_iff sound _ between).mp ofBetween
      exact .tail (inductionHypothesis betweenIn inBetween)
        (completes.leads_of_crosses sound edges crosses betweenIn secondIn inBetween inSecond)

/-- The stage graph has a cycle exactly if the components are entangled. -/
theorem acyclic_iff (completes : staging.Completes sets graph bundles) (sound : graph.Sound)
    (distinct : (staging.stages.map Stage.id).Nodup) (edges : stageGraph.edges = bundles) :
    stageGraph.Acyclic ↔ ¬ graph.Entangled := by
  constructor
  · rintro acyclic ⟨id, crossings⟩
    obtain ⟨_, crosses, _⟩ := Relation.TransGen.head'_iff.mp crossings
    have known := sound.crosses_known crosses
    obtain ⟨stage, ofId⟩ := completes.fits.splits.stageOf?_known sound id known
    obtain ⟨stageIn, inStage⟩ := (completes.fits.splits.stageOf?_iff sound id stage).mp ofId
    exact acyclic stage.id
      (completes.path_of_crosses sound edges crossings stageIn stageIn inStage inStage)
  · intro free id cycle
    obtain ⟨_, leads, _⟩ := Relation.TransGen.head'_iff.mp cycle
    obtain ⟨stage, stageIn, named, member, inStage⟩ := completes.leads_from sound edges leads
    exact free ⟨member, completes.crosses_of_path sound distinct edges cycle stageIn stageIn
      named named inStage inStage⟩

end Arcs

end Completes

/-! ## Forming the graph -/

/-- A stage graph that is formed is intact, and has the stages and the stage edges. -/
theorem graph_intact (staging : Staging) (bundles : List StageEdge) (stageGraph : StageGraph)
    (formed : staging.graph bundles = .ok stageGraph) :
    stageGraph.Intact ∧ stageGraph.vertices = staging.stages ∧ stageGraph.edges = bundles := by
  obtain ⟨withStages, added, rest⟩ := (bind_eq_ok_iff _ _ _).mp formed
  obtain ⟨complete, connected, finished⟩ := (bind_eq_ok_iff _ _ _).mp rest
  obtain ⟨reachedStages, stages, noEdges⟩ :=
    Builder.Reached.empty.addVertices staging.stages added
  obtain ⟨reached, sameStages, edges⟩ := reachedStages.connectAll bundles connected
  have built : complete.build = .ok stageGraph := by
    cases result : complete.build with
    | error fault => simp [result, Except.mapError] at finished
    | ok built => simpa [result, Except.mapError] using finished
  obtain ⟨intact, vertices, arcs⟩ := reached.proper.build_intact stageGraph built
  refine ⟨intact, ?_, ?_⟩
  · rw [vertices, sameStages, stages]
    rfl
  · rw [arcs, edges, noEdges]
    rfl

/-- If the builder accepts the stages and the stage edges, only the build is left to fail. -/
theorem graph_eq_build (staging : Staging) (bundles : List StageEdge)
    (distinct : (staging.stages.map Stage.id).Nodup)
    (distinctEdges : (bundles.map StageEdge.id).Nodup)
    (grounded : ∀ bundle ∈ bundles, bundle.source ∈ staging.stages.map Stage.id ∧
      bundle.destination ∈ staging.stages.map Stage.id ∧ bundle.source ≠ bundle.destination) :
    ∃ complete : Builder Stage StageEdge, complete.Reached ∧ complete.edges = bundles ∧
      staging.graph bundles = complete.build.mapError (.within .stageGraph) := by
  obtain ⟨withStages, added⟩ :=
    (Builder.empty : Builder Stage StageEdge).addVertices_accepts staging.stages distinct
  obtain ⟨reachedStages, stages, noEdges⟩ :=
    Builder.Reached.empty.addVertices staging.stages added
  have ids : withStages.ids = staging.stages.map Stage.id := congrArg (List.map Stage.id) stages
  have links : withStages.links = [] := congrArg (List.map Arc.link) noEdges
  obtain ⟨complete, connected⟩ := withStages.connectAll_accepts bundles
    (by rw [links]; exact distinctEdges) (by rw [ids]; exact grounded)
  obtain ⟨reached, _, edges⟩ := reachedStages.connectAll bundles connected
  refine ⟨complete, reached, ?_, ?_⟩
  · rw [edges, noEdges]
    rfl
  · simp only [graph, added, connected, bind, Except.bind]

namespace Completes

variable {staging : Staging} {sets : DisjointSets} {graph : JobGraph} {bundles : List StageEdge}

/-- Stage edges join two different stages. -/
theorem bundle_grounded (completes : staging.Completes sets graph bundles) (sound : graph.Sound)
    (distinct : (staging.stages.map Stage.id).Nodup) (bundle : StageEdge)
    (member : bundle ∈ bundles) :
    bundle.source ∈ staging.stages.map Stage.id ∧
      bundle.destination ∈ staging.stages.map Stage.id ∧ bundle.source ≠ bundle.destination := by
  obtain ⟨edge, edgeIn, shuffles, first, firstIn, second, secondIn, inFirst, inSecond, same⟩ :=
    (completes.ends_iff sound bundle.ends).mp (List.mem_map_of_mem member)
  have source : bundle.source = first.id := congrArg Prod.fst same
  have destination : bundle.destination = second.id := congrArg Prod.snd same
  rw [source, destination]
  refine ⟨List.mem_map_of_mem firstIn, List.mem_map_of_mem secondIn, ?_⟩
  intro equal
  exact completes.stages_apart sound edgeIn shuffles firstIn inFirst inSecond
    (List.inj_on_of_nodup_map distinct firstIn secondIn equal)

/-- The stage graph is formed, unless the components are entangled: then the cycle is named. -/
theorem graph_cases (completes : staging.Completes sets graph bundles) (sound : graph.Sound)
    (distinct : (staging.stages.map Stage.id).Nodup)
    (distinctEdges : (bundles.map StageEdge.id).Nodup) :
    (¬ graph.Entangled ∧ ∃ stageGraph, staging.graph bundles = .ok stageGraph) ∨
      graph.Entangled ∧ ∃ stages, staging.graph bundles =
        .error (.within .stageGraph (.structural (.cycle stages))) := by
  obtain ⟨complete, reached, edges, formed⟩ := staging.graph_eq_build bundles distinct
    distinctEdges (completes.bundle_grounded sound distinct)
  have acyclic_iff : complete.unsorted.Acyclic ↔ ¬ graph.Entangled :=
    completes.acyclic_iff sound distinct edges
  rw [formed]
  rcases reached.proper.build_cases with ⟨acyclic, stageGraph, built⟩ | ⟨cyclic, stages, failed⟩
  · exact Or.inl ⟨acyclic_iff.mp acyclic, stageGraph, by rw [built]; rfl⟩
  · refine Or.inr ⟨?_, stages, by rw [failed]; rfl⟩
    exact Classical.byContradiction fun free => cyclic (acyclic_iff.mpr free)

end Completes

end Flowplan.Staging
