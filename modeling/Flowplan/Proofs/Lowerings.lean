import Flowplan.Proofs.StageGraphs

/-!
# Outcomes of lowering

After the walk, a lowering draws stages, bundles the shuffles and forms the stage graph. The parts
are put together here: a lowering that is not strict fails for three reasons, looked for in turn,
and none of the other defects it guards against can occur (`JobGraph.Verdict`).
-/

namespace Flowplan

/-! ## Drawn stages -/

namespace Staging

/-- The stages have consecutive identities of a source. -/
def Numbered (staging : Staging) (source : Source) : Prop :=
  staging.stages.map Stage.id = (List.range staging.stages.length).map fun index =>
    Source.identity source.session .stage (source.counter .stage + UInt64.ofNat index)

/-- As long as the numbers do not come round, the identities of the stages are distinct. -/
theorem Numbered.distinct {staging : Staging} {source : Source} (numbered : staging.Numbered source)
    (bound : staging.stages.length ≤ 2 ^ 64) : (staging.stages.map Stage.id).Nodup := by
  rw [numbered]
  exact Source.identities_distinct source.session .stage (source.counter .stage) _ bound

/-- The identities of the stages come from the namespace of stages, all with one session tag. -/
def Named (staging : Staging) (session : String) : Prop :=
  ∀ stage ∈ staging.stages, ∃ number, stage.id = Source.identity session .stage number

/-- Stages with consecutive identities are named in the session of their source. -/
theorem Numbered.named {staging : Staging} {source : Source} (numbered : staging.Numbered source) :
    staging.Named source.session := by
  intro stage member
  have listed : stage.id ∈ staging.stages.map Stage.id := List.mem_map_of_mem member
  rw [numbered] at listed
  obtain ⟨index, _, named⟩ := List.mem_map.mp listed
  exact ⟨_, named.symm⟩

/-- The id of a stage edge tells the stages it leads between. -/
theorem Named.distinct_bundles {staging : Staging} {session : String}
    (named : staging.Named session) (bundles : List StageEdge)
    (distinct : (bundles.map StageEdge.ends).Nodup)
    (grounded : ∀ bundle ∈ bundles, bundle.source ∈ staging.stages.map Stage.id ∧
      bundle.destination ∈ staging.stages.map Stage.id) :
    (bundles.map StageEdge.id).Nodup := by
  have number : ∀ id ∈ staging.stages.map Stage.id, ∃ number,
      id = Source.identity session .stage number := List.forall_mem_map.mpr named
  refine List.Nodup.map_on ?_ (List.Nodup.of_map _ distinct)
  intro bundle bundleIn other otherIn same
  obtain ⟨first, source⟩ := number _ (grounded bundle bundleIn).1
  obtain ⟨second, destination⟩ := number _ (grounded bundle bundleIn).2
  obtain ⟨third, otherSource⟩ := number _ (grounded other otherIn).1
  obtain ⟨fourth, otherDestination⟩ := number _ (grounded other otherIn).2
  rw [StageEdge.id, StageEdge.id, source, destination, otherSource, otherDestination] at same
  obtain ⟨rfl, rfl⟩ := Source.arrow_injective _ _ _ _ _ _ same
  exact List.inj_on_of_nodup_map distinct bundleIn otherIn
    (Prod.ext (source.trans otherSource.symm) (destination.trans otherDestination.symm))

end Staging

/-- What is left of a lowering once its stages are drawn: bundling, forming the graph, and the plan
under the identity drawn last. -/
def Staging.lowered (staging : Staging) (strict : Bool) (sets : DisjointSets) (edges : List Edge)
    (id : String) : Lowered :=
  ⟨(staging.bundleAll strict sets edges []).1.bind fun bundles =>
      (staging.graph bundles).map fun stageGraph => staging.plan stageGraph id,
    (staging.bundleAll strict sets edges []).2⟩

namespace Staging

/-- The outcome of what is left to do once the stages are drawn. -/
theorem lowered_outcome (staging : Staging) (strict : Bool) (sets : DisjointSets)
    (edges : List Edge) (id : String) :
    (staging.lowered strict sets edges id).outcome =
      (staging.bundleAll strict sets edges []).1.bind fun bundles =>
        (staging.graph bundles).map fun stageGraph => staging.plan stageGraph id := rfl

/-- A plan is made of stage edges and the graph that they form. -/
theorem lowered_ok {staging : Staging} {strict : Bool} {sets : DisjointSets} {edges : List Edge}
    {id : String} {plan : Plan}
    (succeeds : (staging.lowered strict sets edges id).outcome = .ok plan) :
    ∃ bundles stageGraph, (staging.bundleAll strict sets edges []).1 = .ok bundles ∧
      staging.graph bundles = .ok stageGraph ∧ plan = staging.plan stageGraph id := by
  obtain ⟨bundles, bundled, formedPlan⟩ := (bind_eq_ok_iff _ _ _).mp succeeds
  obtain ⟨stageGraph, formed, made⟩ := (map_eq_ok_iff _ _ _).mp formedPlan
  exact ⟨bundles, stageGraph, bundled, formed, made.symm⟩

end Staging

namespace Gathering

/-- After the walk, all vertices are placed, and stages with the members of their groups are the
components of the graph. -/
theorem Walked.placed {graph : JobGraph} {gathering : Gathering} (walked : Walked graph gathering)
    (sound : graph.Sound) :
    ∃ groups, Group.placeAll gathering.groups gathering.order [] = .ok groups ∧
      ∀ staging : Staging, staging.stages.map Stage.members = groups.map Group.members →
        staging.Fits gathering.groups graph := by
  obtain ⟨groups, isPlaced, holds⟩ := Group.placeAll_holds
    (Group.filing gathering.groups).holds_nil graph.topological walked.represented
  refine ⟨groups, walked.order ▸ isPlaced, ?_⟩
  intro staging members
  constructor
  · exact Staging.splits_of_holds sound walked (by simpa using holds) staging members
  · intro left leftKnown right rightKnown
    rw [DisjointSets.together_iff _ walked.tracks.groups.sound,
      walked.together_iff sound left right leftKnown rightKnown]

/-- Stages drawn for the groups of a walk fit the graph, and have consecutive identities. -/
theorem Walked.stages {graph : JobGraph} {gathering : Gathering} (walked : Walked graph gathering)
    (sound : graph.Sound) (source : Source) :
    ∃ groups, Group.placeAll gathering.groups gathering.order [] = .ok groups ∧
      Staging.Fits ⟨((Group.draw groups).run source).1⟩ gathering.groups graph ∧
      Staging.Numbered ⟨((Group.draw groups).run source).1⟩ source := by
  obtain ⟨groups, isPlaced, fit⟩ := walked.placed sound
  obtain ⟨ids, members⟩ := Group.draw_forms groups source
  refine ⟨groups, isPlaced, fit _ members, ?_⟩
  have count : ((Group.draw groups).run source).1.length = groups.length := by
    simpa using congrArg List.length members
  rw [Staging.Numbered, count]
  exact ids

/-- Once the vertices are placed, stages are drawn for the groups, and the identity of the plan
after them. -/
theorem run_lower (gathering : Gathering) (strict : Bool) (source : Source) (groups : List Group)
    (isPlaced : Group.placeAll gathering.groups gathering.order [] = .ok groups) :
    ((gathering.lower strict).run source).1 =
      Staging.lowered ⟨((Group.draw groups).run source).1⟩ strict gathering.groups gathering.edges
        (((Group.draw groups).run source).2.draw .plan).1 := by
  simp only [lower, isPlaced, bind, Drawing.run_bind, Staging.lowered]
  rcases Staging.bundleAll _ strict gathering.groups gathering.edges [] with
    ⟨fault | bundles, conflicts⟩
  · rfl
  · cases formed : Staging.graph ⟨((Group.draw groups).run source).1⟩ bundles with
    | error fault =>
        simp only [formed, Except.bind]
        rfl
    | ok stageGraph =>
        simp only [formed, Except.bind]
        rfl

/-- After the walk, a lowering draws stages that fit the graph, and goes on with them. -/
theorem Walked.lowered {graph : JobGraph} {gathering : Gathering} (walked : Walked graph gathering)
    (sound : graph.Sound) (strict : Bool) (source : Source) :
    ∃ (staging : Staging) (id : String), staging.Fits gathering.groups graph ∧
      staging.Numbered source ∧
      ((gathering.lower strict).run source).1 =
        staging.lowered strict gathering.groups graph.arrivals id := by
  obtain ⟨groups, isPlaced, fits, numbered⟩ := walked.stages sound source
  refine ⟨_, (((Group.draw groups).run source).2.draw .plan).1, fits, numbered, ?_⟩
  rw [run_lower gathering strict source groups isPlaced, walked.edges]

end Gathering

/-! ## Bundling the edges of a walk -/

namespace Staging

variable {staging : Staging} {sets : DisjointSets} {graph : JobGraph}

/-- Bundling gets from every edge that arrives what it needs. -/
theorem Fits.arrivals_suit (fits : staging.Fits sets graph) (sound : graph.Sound) :
    ∀ edge ∈ graph.arrivals, staging.Suits sets edge :=
  fun edge arrives => fits.suits sound edge ((sound.mem_arrivals edge).mp arrives)

/-- Stage edges that were bundled complete the stages. -/
theorem Fits.completes (fits : staging.Fits sets graph) (sound : graph.Sound) (strict : Bool)
    (bundles : List StageEdge)
    (bundled : (staging.bundleAll strict sets graph.arrivals []).1 = .ok bundles) :
    staging.Completes sets graph bundles := by
  obtain ⟨carries, outside⟩ :=
    bundleAll_carries (staging.carries_nil sets) strict _ (fits.arrivals_suit sound) bundled
  refine ⟨fits, by simpa using carries, ?_⟩
  intro edge member encloses
  exact outside edge ((sound.mem_arrivals edge).mpr member)
    ((fits.inside_iff sound edge member).mpr encloses)

/-- Stages with distinct identities of one session form a graph, unless the components are
entangled. -/
theorem Completes.named_graph_cases {bundles : List StageEdge}
    (completes : staging.Completes sets graph bundles) (sound : graph.Sound) {session : String}
    (named : staging.Named session) (distinct : (staging.stages.map Stage.id).Nodup) :
    (¬ graph.Entangled ∧ ∃ stageGraph, staging.graph bundles = .ok stageGraph) ∨
      graph.Entangled ∧ ∃ stages, staging.graph bundles =
        .error (.within .stageGraph (.structural (.cycle stages))) := by
  have grounded := completes.bundle_grounded sound distinct
  exact completes.graph_cases sound distinct
    (named.distinct_bundles bundles completes.carries.holds.distinct
      fun bundle member => ⟨(grounded bundle member).1, (grounded bundle member).2.1⟩)

/-- The first shuffle within a component is the fault of bundling, with the stage of its
source. -/
theorem Fits.bundling_stops (fits : staging.Fits sets graph) (sound : graph.Sound) (edge : Edge)
    (first : First graph.Encloses graph.arrivals edge) :
    ∃ stage, staging.stageOf? edge.source = some stage ∧
      (staging.bundleAll false sets graph.arrivals []).1 =
        .error (.structural (.shuffleInsideStage edge.label stage.label)) := by
  have member : ∀ noted ∈ graph.arrivals, noted ∈ graph.edges :=
    fun noted => (sound.mem_arrivals noted).mp
  have firstInside : First (Inside sets) graph.arrivals edge := by
    obtain ⟨before, after, split, encloses, earlier⟩ := first
    refine ⟨before, after, split, ?_, ?_⟩
    · exact (fits.inside_iff sound edge (member edge (by simp [split]))).mpr encloses
    · intro noted notedIn inside
      exact earlier noted notedIn
        ((fits.inside_iff sound noted (member noted (by simp [split, notedIn]))).mp inside)
  exact bundleAll_stops (staging.carries_nil sets) _ (fits.arrivals_suit sound) edge firstInside

/-- Without a shuffle within a component, bundling that is not strict goes through. -/
theorem Fits.bundling_free (fits : staging.Fits sets graph) (sound : graph.Sound)
    (outside : ∀ edge ∈ graph.edges, ¬ graph.Encloses edge) :
    ∃ bundles, (staging.bundleAll false sets graph.arrivals []).1 = .ok bundles := by
  apply bundleAll_free (staging.carries_nil sets) _ (fits.arrivals_suit sound)
  intro edge arrives inside
  have member := (sound.mem_arrivals edge).mp arrives
  exact outside edge member ((fits.inside_iff sound edge member).mp inside)

end Staging

/-- A lowering that succeeds met no edge without a communication pattern, as that would have ended
the walk. -/
theorem patterned_of_lower {graph : JobGraph} (sound : graph.Sound) {strict : Bool}
    {source : Source} {plan : Plan}
    (lowered : ((lower strict (some graph)).run source).1.outcome = .ok plan) :
    ∀ edge ∈ graph.edges, edge.pattern? ≠ none := by
  rcases first_or_none (fun edge : Edge => edge.pattern? = none) graph.arrivals with
    ⟨edge, first⟩ | patterned
  · rw [Gathering.lower_of_missing strict sound edge first] at lowered
    cases lowered
  · exact fun edge member => patterned edge ((sound.mem_arrivals edge).mpr member)

/-! ## Verdicts -/

/-- How a job graph is lowered if conflicts do not count. The verdicts exclude each other, since
each one says that no earlier one applies. A verdict that reports an edge names it by its id and
its ends, in the fault and in the text that the fault shows. -/
inductive JobGraph.Verdict (graph : JobGraph) : Except Fault Plan → Prop
  /-- The first edge to arrive without a communication pattern is reported. -/
  | patternMissing {edge : Edge} {name : String} {fault : Fault}
      (first : First (fun noted : Edge => noted.pattern? = none) graph.arrivals edge)
      (named : name =
        "edge " ++ edge.id ++ " (" ++ edge.source ++ " -> " ++ edge.destination ++ ")")
      (reported : fault = .precondition "physical-plan-generator" "CommunicationPattern" name)
      (shown : fault.message = "Precondition violated for physical-plan-generator: " ++
        "property CommunicationPattern is not set on " ++ name) :
      Verdict graph (.error fault)
  /-- The first shuffle to arrive within a component is reported, with the stage that the
  component would have become. -/
  | shuffleInside {edge : Edge} {stage : Stage} {name stageName : String} {fault : Fault}
      (patterned : ∀ noted ∈ graph.edges, noted.pattern? ≠ none)
      (first : First graph.Encloses graph.arrivals edge)
      (component : ∀ id ∈ graph.ids, (id ∈ stage.memberIds ↔ graph.Joined edge.source id))
      (named : name =
        "edge " ++ edge.id ++ " (" ++ edge.source ++ " -> " ++ edge.destination ++ ")")
      (stageNamed : stageName = "stage " ++ stage.id ++ " [" ++ ", ".intercalate stage.memberIds ++
        "] x" ++ toString stage.parallelism)
      (reported : fault = .structural (.shuffleInsideStage name stageName))
      (shown : fault.message =
        "Structural invariant violated: shuffle " ++ name ++ " lies inside " ++ stageName) :
      Verdict graph (.error fault)
  /-- A cycle of stages is reported. -/
  | cyclic {stages : List String} {fault : Fault}
      (patterned : ∀ noted ∈ graph.edges, noted.pattern? ≠ none)
      (outside : ∀ noted ∈ graph.edges, ¬ graph.Encloses noted)
      (entangled : graph.Entangled)
      (reported : fault = .within .stageGraph (.structural (.cycle stages)))
      (shown : fault.message = "unable to form stage DAG: Structural invariant violated: " ++
        "cycle detected involving vertices [" ++ ", ".intercalate stages ++ "]") :
      Verdict graph (.error fault)
  /-- There is a plan. -/
  | planned {plan : Plan}
      (patterned : ∀ noted ∈ graph.edges, noted.pattern? ≠ none)
      (outside : ∀ noted ∈ graph.edges, ¬ graph.Encloses noted)
      (free : ¬ graph.Entangled) : Verdict graph (.ok plan)

/-- The verdict on a graph whose walk came to its end. -/
theorem Gathering.Walked.verdict {graph : JobGraph} {gathering : Gathering}
    (walked : Walked graph gathering) (sound : graph.Sound) (bound : graph.size < 2 ^ 64)
    (patterned : ∀ edge ∈ graph.edges, edge.pattern? ≠ none) (source : Source) :
    graph.Verdict ((gathering.lower false).run source).1.outcome := by
  obtain ⟨staging, id, fits, numbered, continues⟩ := walked.lowered sound false source
  rw [continues, Staging.lowered_outcome]
  rcases first_or_none graph.Encloses graph.arrivals with ⟨edge, first⟩ | none
  · obtain ⟨stage, ofSource, stops⟩ := fits.bundling_stops sound edge first
    obtain ⟨stageIn, inStage⟩ := (fits.splits.stageOf?_iff sound _ _).mp ofSource
    rw [stops]
    exact .shuffleInside patterned first (fits.splits.joined stage stageIn _ inStage) rfl rfl rfl
      rfl
  · have outside : ∀ edge ∈ graph.edges, ¬ graph.Encloses edge :=
      fun edge member => none edge ((sound.mem_arrivals edge).mpr member)
    obtain ⟨bundles, bundled⟩ := fits.bundling_free sound outside
    have completes := fits.completes sound false bundles bundled
    -- there are no more stages than vertices, so the numbers of the stages do not come round
    have distinct := numbered.distinct
      (Nat.le_of_lt (Nat.lt_of_le_of_lt fits.splits.length_le bound))
    rw [bundled]
    rcases completes.named_graph_cases sound numbered.named distinct with
      ⟨free, stageGraph, formed⟩ | ⟨entangled, stages, failed⟩
    · simp only [Except.bind, formed]
      exact .planned patterned outside free
    · simp only [Except.bind, failed]
      exact .cyclic patterned outside entangled rfl rfl

/-- Lowering that is not strict reaches one of four verdicts on every made graph: the first edge to
arrive without a pattern is named, or else the first shuffle to arrive within a component, or else
a cycle of stages is reported, or else there is a plan. -/
theorem lower_verdict (graph : JobGraph) (made : graph.Made) (bound : graph.size < 2 ^ 64)
    (source : Source) : graph.Verdict ((lower false (some graph)).run source).1.outcome := by
  have sound := made.sound
  rcases first_or_none (fun edge : Edge => edge.pattern? = none) graph.arrivals with
    ⟨edge, first⟩ | patterned
  · rw [Gathering.lower_of_missing false sound edge first]
    exact .patternMissing first rfl rfl rfl
  · have allPatterned : ∀ edge ∈ graph.edges, edge.pattern? ≠ none :=
      fun edge member => patterned edge ((sound.mem_arrivals edge).mpr member)
    obtain ⟨gathering, walked, continues⟩ :=
      Gathering.lower_of_patterned false sound allPatterned
    rw [continues]
    exact walked.verdict sound bound allPatterned source

/-- An edge with a communication pattern and no other property. -/
def Edge.along (pattern : Pattern) (id source destination : String) : Edge :=
  ⟨id, source, destination, ⟨.edge, [.pattern pattern]⟩⟩

/-- An edge that holds nothing but an accepted pattern has a filled bag. -/
theorem Edge.along_filled (pattern : Pattern) (id source destination : String)
    (stored : (Bag.empty .edge).set (some (.pattern pattern)) =
      .ok ⟨.edge, [.pattern pattern]⟩) :
    (Edge.along pattern id source destination).bag.Filled .edge :=
  .set (some (.pattern pattern)) .empty stored

namespace JobGraph

/-- The graph of bare vertices with the given ids, in topological order, and the given edges. -/
def ofIds (ids : List String) (edges : List Edge) : JobGraph where
  vertices := ids.map fun id => .bare id none
  edges := edges
  ids := ids
  links := edges.map Edge.link
  order := List.range ids.length

/-- A graph given by its ids and edges is made if the values are accepted and a builder hands the
graph out. -/
theorem ofIds_made {ids : List String} {edges : List Edge}
    (accepted : ∀ edge ∈ edges,
      ((Bag.empty .edge).setAll (edge.bag.values.map some)).toOption = some edge.bag)
    (built : (do
      let withVertices ← Builder.empty.addVertices (ids.map fun id => Vertex.bare id none)
      let complete ← withVertices.connectAll edges
      complete.build) = .ok (ofIds ids edges)) : (ofIds ids edges).Made := by
  have filled : ∀ edge ∈ edges, edge.bag.Filled .edge := by
    intro edge member
    obtain ⟨bag, stored, rfl⟩ := ok_of_seen (Option.map_id'.trans (accepted edge member))
    exact Bag.Filled.empty.setAll (edge.bag.values.map some) stored
  obtain ⟨withVertices, added, connects⟩ := (bind_eq_ok_iff _ _ _).mp built
  obtain ⟨complete, connected, handedOut⟩ := (bind_eq_ok_iff _ _ _).mp connects
  exact .ofLists _ edges (List.forall_mem_map.mpr fun _ _ => .empty) filled added connected
    handedOut

end JobGraph

/-- A path shuffles from `a` to `b` and from `c` to `d`. Since `a` and `d` are joined, and `b` and
`c` are, it leaves the component it started from and comes back. -/
def detour : JobGraph where
  vertices := ["a", "b", "c", "d"].map fun id => .bare id none
  edges := [.along .shuffle "ab" "a" "b", .along .oneToOne "bc" "b" "c",
    .along .shuffle "cd" "c" "d", .along .broadcast "ad" "a" "d"]
  ids := ["a", "b", "c", "d"]
  links := [⟨"ab", "a", "b"⟩, ⟨"bc", "b", "c"⟩, ⟨"cd", "c", "d"⟩, ⟨"ad", "a", "d"⟩]
  order := [0, 1, 2, 3]

/-- A builder hands this graph out. -/
theorem detour_made : detour.Made := by
  refine .ofLists detour.vertices detour.edges ?_ ?_ rfl rfl rfl
  · exact List.forall_mem_map.mpr fun _ _ => .empty
  · simp only [detour, List.forall_mem_cons]
    exact ⟨Edge.along_filled _ _ _ _ rfl, Edge.along_filled _ _ _ _ rfl,
      Edge.along_filled _ _ _ _ rfl, Edge.along_filled _ _ _ _ rfl, nofun⟩

/-- Two shuffles lead from the component of `a` and `d` to that of `b` and `c`, and back. -/
theorem detour_entangled : detour.Entangled := by
  have forth : detour.Crosses "a" "b" :=
    ⟨.along .shuffle "ab" "a" "b", by decide, by decide, .refl, .refl⟩
  have toC : detour.Joined "b" "c" :=
    detour.joined_of_plain (.along .oneToOne "bc" "b" "c") (by decide) (by decide)
  have toD : detour.Joined "a" "d" :=
    detour.joined_of_plain (.along .broadcast "ad" "a" "d") (by decide) (by decide)
  have back : detour.Crosses "b" "a" :=
    ⟨.along .shuffle "cd" "c" "d", by decide, by decide, toC, toD.symm⟩
  exact ⟨"a", .tail (.single forth) back⟩

/-- Two edges have no communication pattern. The one added first ends at the later vertex, so it
arrives last. -/
def patternless : JobGraph :=
  .ofIds ["a", "b", "c"] [.bare "ac" "a" "c", .bare "ab" "a" "b"]

/-- Both shuffles lead between vertices of one component. The one added first arrives last. -/
def sidestep : JobGraph :=
  .ofIds ["a", "b", "c"] [.along .shuffle "ac" "a" "c", .along .shuffle "ab" "a" "b",
    .along .oneToOne "joins" "a" "b", .along .broadcast "bc" "b" "c"]

/-- Three graphs, one for each fault. The faults of the first two name the edge that arrives first,
not the one that was added first. -/
theorem faults_reported :
    (∀ graph ∈ [patternless, sidestep, detour],
        graph.Verdict ((lower false (some graph)).run (.start "s")).1.outcome) ∧
      (First (fun edge : Edge => edge.pattern? = none) patternless.arrivals (.bare "ab" "a" "b") ∧
        ((lower false (some patternless)).run (.start "s")).1.outcome = .error
          (.precondition "physical-plan-generator" "CommunicationPattern" "edge ab (a -> b)")) ∧
      (First sidestep.Encloses sidestep.arrivals (.along .shuffle "ab" "a" "b") ∧
        ((lower false (some sidestep)).run (.start "s")).1.outcome = .error
          (.structural (.shuffleInsideStage "edge ab (a -> b)" "stage Stage-s-0 [a, b, c] x1"))) ∧
      detour.Entangled ∧
        ((lower false (some detour)).run (.start "s")).1.outcome = .error
          (.within .stageGraph (.structural (.cycle ["Stage-s-0", "Stage-s-1"]))) := by
  have patternlessMade : patternless.Made := JobGraph.ofIds_made (by decide) rfl
  have sidestepMade : sidestep.Made := JobGraph.ofIds_made (by decide) rfl
  have joins : sidestep.Joined "a" "b" :=
    sidestep.joined_of_plain (.along .oneToOne "joins" "a" "b") (by decide) (by decide)
  refine ⟨?_, ⟨?_, ?_⟩, ⟨?_, ?_⟩, detour_entangled, ?_⟩
  · simp only [List.forall_mem_cons]
    exact ⟨lower_verdict patternless patternlessMade (by decide) (.start "s"),
      lower_verdict sidestep sidestepMade (by decide) (.start "s"),
      lower_verdict detour detour_made (by decide) (.start "s"), nofun⟩
  · exact ⟨[], _, rfl, rfl, nofun⟩
  · with_unfolding_all rfl
  · exact ⟨[], _, rfl, ⟨rfl, joins⟩, nofun⟩
  · with_unfolding_all rfl
  · with_unfolding_all rfl

end Flowplan
