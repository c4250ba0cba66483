import Flowplan.Compiler.Basic
import Flowplan.Proofs.BuiltInPipelines
import Flowplan.Proofs.Plannable
import Mathlib.Order.Bounds.Basic

/-!
# Compilations with the default passes

The default passes change neither components nor patterns, so whether a graph is compiled to a plan
is a matter of the graph given. What they do change shows in the plan: after them all shuffles have
one decoder, so that shuffles can disagree on encoders and partitioners only, and every vertex has a
parallelism, so that a stage runs with the largest one that its members ask for.
-/

namespace Flowplan

/-! ## Graphs after the default passes -/

/-- The value that decoded shuffles hold of the two kinds on which all of them agree. -/
def Edge.shuffled (kind : Kind) : Value :=
  if kind = .decoder then .bytesDecoder else .pattern .shuffle

/-- Decoded shuffles hold the same pattern and the same decoder. -/
theorem Edge.get?_of_shuffle (edge : Edge) (shuffles : edge.isShuffle = true) {kind : Kind}
    (uniform : kind = .communicationPattern ∨ kind = .decoder) :
    edge.decoded.bag.get? kind = some (Edge.shuffled kind) := by
  rcases uniform with rfl | rfl
  · rw [edge.get?_decoded_of_ne (by decide)]
    exact (Bag.pattern?_eq_some_iff edge.bag .shuffle).mp (of_decide_eq_true shuffles)
  · rw [edge.get?_decoded, if_pos ⟨rfl, shuffles⟩]
    rfl

namespace JobGraph

variable (graph : JobGraph)

/-- Something holds of all decoded edges exactly if it holds of all edges once they are decoded. -/
theorem forall_decoded (holds : Edge → Prop) :
    (∀ edge ∈ graph.decoded.edges, holds edge) ↔ ∀ edge ∈ graph.edges, holds edge.decoded :=
  List.forall_mem_map

/-- Something holds of a decoded edge exactly if it holds of an edge once it is decoded. -/
theorem exists_decoded (holds : Edge → Prop) :
    (∃ edge ∈ graph.decoded.edges, holds edge) ↔ ∃ edge ∈ graph.edges, holds edge.decoded := by
  simp only [decoded, List.mem_map, exists_exists_and_eq_and]

/-- Decoding the shuffles joins no vertices and separates none. -/
theorem joined_decoded : graph.decoded.Joined = graph.Joined := by
  have adjacent : graph.decoded.Adjacent = graph.Adjacent := by
    funext left right
    simp only [Adjacent, exists_decoded, Edge.isShuffle_decoded, Edge.source_decoded,
      Edge.destination_decoded]
  rw [Joined, Joined, adjacent]

/-- A decoded edge shuffles within a component exactly if it did before. -/
theorem encloses_decoded (edge : Edge) :
    graph.decoded.Encloses edge.decoded ↔ graph.Encloses edge := by
  rw [Encloses, Encloses, joined_decoded, edge.isShuffle_decoded, edge.source_decoded,
    edge.destination_decoded]

/-- Decoding the shuffles does not change whether the components are entangled. -/
theorem entangled_decoded : graph.decoded.Entangled ↔ graph.Entangled := by
  have crosses : graph.decoded.Crosses = graph.Crosses := by
    funext left right
    simp only [Crosses, exists_decoded, joined_decoded, Edge.isShuffle_decoded,
      Edge.source_decoded, Edge.destination_decoded]
  rw [Entangled, Entangled, crosses]

/-- With one decoder on all shuffles, they agree on all that stage edges carry if they agree on
encoders and partitioners. -/
theorem agrees_decoded :
    graph.decoded.Agrees Kind.carried ↔ graph.Agrees [.encoder, .partitioner] := by
  simp only [Agrees, forall_decoded, joined_decoded, Edge.isShuffle_decoded, Edge.source_decoded,
    Edge.destination_decoded]
  constructor
  · intro agrees left leftIn right rightIn leftShuffles rightShuffles sources destinations kind
      asked one two leftHeld rightHeld
    have carried : ∀ kind ∈ [Kind.encoder, Kind.partitioner], kind ∈ Kind.carried := by decide
    have others : ∀ kind ∈ [Kind.encoder, Kind.partitioner], kind ≠ .decoder := by decide
    refine agrees left leftIn right rightIn leftShuffles rightShuffles sources destinations kind
      (carried kind asked) one two ?_ ?_
    · rw [left.get?_decoded_of_ne (others kind asked), leftHeld]
    · rw [right.get?_decoded_of_ne (others kind asked), rightHeld]
  · intro agrees left leftIn right rightIn leftShuffles rightShuffles sources destinations kind
      carried one two leftHeld rightHeld
    by_cases uniform : kind = .communicationPattern ∨ kind = .decoder
    · exact Option.some.inj (leftHeld.symm.trans
        ((left.get?_of_shuffle leftShuffles uniform).trans
          ((right.get?_of_shuffle rightShuffles uniform).symm.trans rightHeld)))
    · obtain ⟨notPattern, notDecoder⟩ := not_or.mp uniform
      have asked : kind ∈ [Kind.encoder, Kind.partitioner] := by
        simpa [Kind.carried, notPattern, notDecoder] using carried
      rw [left.get?_decoded_of_ne notDecoder] at leftHeld
      rw [right.get?_decoded_of_ne notDecoder] at rightHeld
      exact agrees left leftIn right rightIn leftShuffles rightShuffles sources destinations kind
        asked one two leftHeld rightHeld

/-- What a lowering asks of a graph with decoded shuffles. -/
theorem plannable_decoded (strict : Bool) :
    graph.decoded.Plannable strict ↔
      (∀ edge ∈ graph.edges, edge.pattern? ≠ none) ∧
        (∀ edge ∈ graph.edges, ¬ graph.Encloses edge) ∧ ¬ graph.Entangled ∧
          (strict = true → graph.Agrees [.encoder, .partitioner]) := by
  have fields : graph.decoded.Plannable strict ↔
      (∀ edge ∈ graph.decoded.edges, edge.pattern? ≠ none) ∧
        (∀ edge ∈ graph.decoded.edges, ¬ graph.decoded.Encloses edge) ∧
          ¬ graph.decoded.Entangled ∧ (strict = true → graph.decoded.Agrees Kind.carried) :=
    ⟨fun plannable => ⟨plannable.patterned, plannable.outside, plannable.free, plannable.agrees⟩,
      fun ⟨patterned, outside, free, agrees⟩ => ⟨patterned, outside, free, agrees⟩⟩
  simp only [fields, forall_decoded, Edge.pattern?_decoded, encloses_decoded, entangled_decoded,
    agrees_decoded]

end JobGraph

/-! ## Compilations -/

/-- Wording a fault differently does not make it a value. -/
theorem mapError_eq_ok_iff {ε φ α : Type} (result : Except ε α) (change : ε → φ) (value : α) :
    result.mapError change = .ok value ↔ result = .ok value := by
  cases result <;> simp [Except.mapError]

/-- A fault that was worded differently was a fault before. -/
theorem mapError_eq_error_iff {ε φ α : Type} (result : Except ε α) (change : ε → φ) (fault : φ) :
    result.mapError change = .error fault ↔
      ∃ inner, result = .error inner ∧ change inner = fault := by
  cases result <;> simp [Except.mapError]

/-- An edge with a typed pattern has a value for it. -/
theorem Edge.has_of_patterned {edge : Edge} (patterned : edge.pattern? ≠ none) :
    edge.bag.has .communicationPattern = true := by
  unfold Edge.pattern? Bag.pattern? at patterned
  unfold Bag.has
  cases held : edge.bag.get? .communicationPattern with
  | none => simp [held] at patterned
  | some value => rfl

/-- The parallelism that a vertex asks for, or a standard one if it holds no value of that kind. A
foreign value of that kind asks for nothing. -/
def Vertex.demand? (standard : Int) (vertex : Vertex) : Option Int :=
  match vertex.bag.get? .parallelism with
  | none => some standard
  | some value => value.asParallelism?

/-- The parallelism of a sized vertex is what it asked for. -/
theorem Vertex.parallelism?_sized (instances : Int) (vertex : Vertex) :
    (vertex.sized instances).bag.parallelism? = vertex.demand? instances := by
  unfold Bag.parallelism? demand?
  rw [vertex.get?_sized]
  cases vertex.bag.get? .parallelism <;> rfl

/-- A running maximum ends at the greatest of the values met and the first one. -/
theorem foldl_max_isGreatest {α : Type} (read : α → Int) (list : List α) (first : Int) :
    IsGreatest (insert first {value | ∃ member ∈ list, read member = value})
      (list.foldl (fun most member => max most (read member)) first) := by
  induction list generalizing first with
  | nil =>
      refine ⟨Set.mem_insert _ _, ?_⟩
      rintro value (rfl | ⟨_, member, _⟩)
      · exact le_refl value
      · exact nomatch member
  | cons head rest inductionHypothesis =>
      obtain ⟨reached, above⟩ := inductionHypothesis (max first (read head))
      have atLeast := above (Set.mem_insert _ _)
      rw [List.foldl_cons]
      constructor
      · rcases reached with here | ⟨member, later, same⟩
        · rw [here]
          rcases max_choice first (read head) with isFirst | isHead
          · exact Or.inl isFirst
          · exact Or.inr ⟨head, List.mem_cons_self, isHead.symm⟩
        · exact Or.inr ⟨member, List.mem_cons_of_mem head later, same⟩
      · rintro value (rfl | ⟨member, listed, rfl⟩)
        · exact le_trans (le_max_left _ _) atLeast
        · rcases List.mem_cons.mp listed with rfl | later
          · exact le_trans (le_max_right _ _) atLeast
          · exact above (Or.inr ⟨member, later, rfl⟩)

namespace Compiler

variable {compiler : Compiler} {graph : JobGraph} {instances : Int}

/-- If every edge has some pattern, the graph that the default passes make is lowered. -/
theorem compile_lowers (positive : 1 ≤ instances)
    (resolved : Registry.builtIn.resolve ⟨instances⟩ Registry.defaultNames = .ok compiler.passes)
    (made : graph.Made)
    (patterned : ∀ edge ∈ graph.edges, edge.bag.has .communicationPattern = true)
    (source : Source) :
    ((compiler.compile .live (some graph)).run source).1.outcome =
      ((lower compiler.settings.strictStageEdges
        (some (graph.sized instances).decoded)).run source).1.outcome.mapError
          (.within .lowering) := by
  obtain ⟨comesTo, live⟩ := Pipeline.run_furnishes positive resolved
    compiler.settings.verifyProducts .fresh made fun _ => patterned
  have prepared : (compiler.prepare .live (some graph)).outcome =
      .ok (graph.sized instances).decoded := by
    simp only [prepare, optimize, pipeline, comesTo, live]
    rfl
  simp only [compile, finish, prepared, bind, Drawing.run_bind]
  cases ((lower compiler.settings.strictStageEdges
    (some (graph.sized instances).decoded)).run source).1.outcome <;> rfl

/-- If an edge has no pattern at all, the decoding pass reports it. -/
theorem compile_lacking (positive : 1 ≤ instances)
    (resolved : Registry.builtIn.resolve ⟨instances⟩ Registry.defaultNames = .ok compiler.passes)
    (made : graph.Made)
    (lacking : ¬ ∀ edge ∈ graph.edges, edge.bag.has .communicationPattern = true)
    (source : Source) :
    ((compiler.compile .live (some graph)).run source).1.outcome =
      .error (.within (.pass Pass.shuffleEdgeDecoderName)
        (.several (Pass.shuffleEdgeDecoder.unmetPrerequisites graph))) := by
  have fails := Pipeline.run_lacking positive resolved compiler.settings.verifyProducts .fresh made
    (by decide) lacking
  have unprepared : (compiler.prepare .live (some graph)).outcome =
      .error (.within (.pass Pass.shuffleEdgeDecoderName)
        (.several (Pass.shuffleEdgeDecoder.unmetPrerequisites graph))) := by
    simp only [prepare, optimize, pipeline, fails]
  simp only [compile, finish, unprepared]
  rfl

end Compiler

/-! ## Plans of decoded graphs -/

/-- Edges that hold one value leave it to be read. -/
theorem Edge.lastHeld_uniform {kind : Kind} {value : Value} {edges : List Edge}
    (inhabited : edges ≠ []) (uniform : ∀ edge ∈ edges, edge.bag.get? kind = some value) :
    Edge.lastHeld kind edges = some value := by
  cases edges with
  | nil => exact absurd rfl inhabited
  | cons first rest =>
      rw [Edge.lastHeld, uniform first List.mem_cons_self]
      cases later : Edge.lastHeld kind rest with
      | none => rfl
      | some other =>
          obtain ⟨edge, member, held⟩ := Edge.lastHeld_held later
          rw [uniform edge (List.mem_cons_of_mem first member)] at held
          exact held.symm

namespace Plan.Realizes

variable {plan : Plan} {staging : Staging} {sets : DisjointSets} {graph : JobGraph}

/-- Stage edges hold the pattern and the decoder that decoded shuffles share. -/
theorem stageEdge_shuffled (realizes : plan.Realizes staging sets graph.decoded)
    (sound : graph.decoded.Sound)
    (records : staging.Records sets graph.decoded.arrivals plan.stageGraph.edges)
    {bundle : StageEdge} (bundleIn : bundle ∈ plan.stageGraph.edges) (kind : Kind)
    (uniform : kind = .communicationPattern ∨ kind = .decoder) :
    bundle.bag.get? kind = some (Edge.shuffled kind) := by
  have carried : kind ∈ Kind.carried := by
    rcases uniform with rfl | rfl <;> decide
  rw [records.reads bundle bundleIn, if_pos carried]
  apply Edge.lastHeld_uniform
  · obtain ⟨edge, arrives, crosses⟩ :=
      (records.holds.named_iff bundle.ends).mp (List.mem_map_of_mem bundleIn)
    exact List.ne_nil_of_mem ((Staging.mem_between _ _ _ _ _).mpr ⟨arrives, crosses⟩)
  · intro edge filed
    obtain ⟨member, shuffles⟩ := realizes.shuffle_of_between sound filed
    obtain ⟨former, _, rfl⟩ := List.mem_map.mp member
    exact former.get?_of_shuffle (former.isShuffle_decoded ▸ shuffles) uniform

variable {instances : Int}

/-- The members of a stage are the vertices it lists, with the default parallelism. -/
theorem mem_members_iff (realizes : plan.Realizes staging sets (graph.sized instances).decoded)
    (sound : graph.Sound) {stage : Stage} (stageIn : stage ∈ plan.stages) (member : Vertex) :
    member ∈ stage.members ↔
      ∃ vertex ∈ graph.vertices, vertex.id ∈ stage.memberIds ∧ vertex.sized instances = member := by
  have drawn := realizes.stages_perm.mem_iff.mp stageIn
  have former : ∀ other ∈ stage.members, ∃ vertex ∈ graph.vertices,
      vertex.sized instances = other := by
    intro other inStage
    have listed : other ∈ (graph.sized instances).decoded.vertices :=
      realizes.splits.listed.mem_iff.mp (List.mem_flatMap.mpr ⟨stage, drawn, inStage⟩)
    exact List.mem_map.mp listed
  constructor
  · intro inStage
    obtain ⟨vertex, vertexIn, rfl⟩ := former member inStage
    refine ⟨vertex, vertexIn, ?_, rfl⟩
    rw [← vertex.id_sized instances]
    exact List.mem_map_of_mem inStage
  · rintro ⟨vertex, vertexIn, named, rfl⟩
    obtain ⟨other, inStage, same⟩ := List.mem_map.mp named
    obtain ⟨twin, twinIn, rfl⟩ := former other inStage
    have distinct : (graph.vertices.map Vertex.id).Nodup := sound.ids_eq ▸ sound.intact.distinct
    obtain rfl := List.inj_on_of_nodup_map distinct twinIn vertexIn
      ((twin.id_sized instances).symm.trans same)
    exact inStage

/-- A stage runs with the largest parallelism that its members ask for. -/
theorem parallelism_isGreatest
    (realizes : plan.Realizes staging sets (graph.sized instances).decoded) (sound : graph.Sound)
    {stage : Stage} (stageIn : stage ∈ plan.stages)
    (sized : stage.parallelism = Group.parallelism stage.members) :
    IsGreatest (insert 1 {demanded | ∃ vertex ∈ graph.vertices, vertex.id ∈ stage.memberIds ∧
      vertex.demand? instances = some demanded}) stage.parallelism := by
  have same : insert 1 {demanded | ∃ vertex ∈ graph.vertices, vertex.id ∈ stage.memberIds ∧
        vertex.demand? instances = some demanded} =
      insert 1 {value | ∃ member ∈ stage.members, member.bag.parallelism?.getD 1 = value} := by
    ext value
    constructor
    · rintro (isOne | ⟨vertex, vertexIn, listed, demanded⟩)
      · exact Or.inl isOne
      · refine Or.inr ⟨vertex.sized instances, ?_, ?_⟩
        · exact (realizes.mem_members_iff sound stageIn _).mpr ⟨vertex, vertexIn, listed, rfl⟩
        · rw [vertex.parallelism?_sized, demanded, Option.getD_some]
    · rintro (isOne | ⟨member, inStage, rfl⟩)
      · exact Or.inl isOne
      · obtain ⟨vertex, vertexIn, listed, rfl⟩ :=
          (realizes.mem_members_iff sound stageIn member).mp inStage
        rw [vertex.parallelism?_sized]
        cases demanded : vertex.demand? instances with
        | none => exact Or.inl rfl
        | some value => exact Or.inr ⟨vertex, vertexIn, listed, demanded⟩
  rw [same, sized]
  exact foldl_max_isGreatest _ stage.members 1

end Plan.Realizes

/-! ## Faults of compilations -/

/-- What is in none of the faults is not found among them. -/
theorem Fault.findAmong?_eq_none {wanted : Fault → Bool} {faults : List Fault}
    (absent : ∀ fault ∈ faults, fault.find? wanted = none) : findAmong? wanted faults = none := by
  induction faults with
  | nil => rw [findAmong?]
  | cons fault rest inductionHypothesis =>
      rw [findAmong?, absent fault List.mem_cons_self, Option.none_or]
      exact inductionHypothesis fun later member => absent later (List.mem_cons_of_mem fault member)

/-- The decoding pass complains of no conflict. -/
theorem Pass.shuffleEdgeDecoder_no_conflict {graph : JobGraph} (sound : graph.Sound) :
    (Fault.within (.pass shuffleEdgeDecoderName)
      (.several (shuffleEdgeDecoder.unmetPrerequisites graph))).find? Fault.isConflict = none := by
  have among : Fault.findAmong? Fault.isConflict
      (shuffleEdgeDecoder.unmetPrerequisites graph) = none := by
    apply Fault.findAmong?_eq_none
    intro fault member
    rw [shuffleEdgeDecoder_unmet sound] at member
    obtain ⟨edge, _, rfl⟩ := List.mem_map.mp member
    simp [Fault.find?, Fault.isConflict]
  simp [Fault.find?, Fault.isConflict, among]

/-- Shuffles with one decoder conflict in nothing but encoders and partitioners. -/
theorem conflict_of_decoded {graph : JobGraph} (sound : graph.decoded.Sound) {source : Source}
    {conflict : Conflict}
    (reported : conflict ∈ ((lower false (some graph.decoded)).run source).1.conflicts) :
    conflict.kind = .encoder ∨ conflict.kind = .partitioner := by
  obtain ⟨carried, different, left, leftIn, right, rightIn, leftShuffles, rightShuffles, leftHeld,
    rightHeld⟩ := conflict_of_lower sound reported
  obtain ⟨leftFormer, _, rfl⟩ := List.mem_map.mp leftIn
  obtain ⟨rightFormer, _, rfl⟩ := List.mem_map.mp rightIn
  rw [Edge.isShuffle_decoded] at leftShuffles rightShuffles
  have uneven : ¬ (conflict.kind = .communicationPattern ∨ conflict.kind = .decoder) := by
    intro uniform
    rw [leftFormer.get?_of_shuffle leftShuffles uniform] at leftHeld
    rw [rightFormer.get?_of_shuffle rightShuffles uniform] at rightHeld
    exact different (Option.some.inj (leftHeld.symm.trans rightHeld))
  obtain ⟨notPattern, notDecoder⟩ := not_or.mp uneven
  simpa [Kind.carried, notPattern, notDecoder] using carried

/-- A conflict within the fault of such a lowering is about encoders or partitioners. -/
theorem conflict_kind_of_decoded {graph : JobGraph} (sound : graph.decoded.Sound)
    (bound : graph.decoded.size < 2 ^ 64) {strict : Bool} {source : Source} {fault : Fault}
    (failed : ((lower strict (some graph.decoded)).run source).1.outcome = .error fault)
    {stageEdge kind previous next : String}
    (found : fault.find? Fault.isConflict = some (.conflict stageEdge kind previous next)) :
    kind = Kind.encoder.name ∨ kind = Kind.partitioner.name := by
  rcases lower_fault_cases sound bound failed with absent | ⟨conflict, reported, rfl⟩
  · cases absent.symm.trans found
  · have itself : conflict.fault.find? Fault.isConflict = some conflict.fault := by
      simp [Conflict.fault, Fault.find?, Fault.isConflict]
    obtain ⟨_, rfl, _⟩ := Fault.conflict.inj (Option.some.inj (itself.symm.trans found))
    exact (conflict_of_decoded sound reported).imp (congrArg Kind.name) (congrArg Kind.name)

/-- A compiler with the default passes compiles a graph exactly if every edge has a typed pattern,
no shuffle stays within a component, the components are not entangled and, if it is strict, shuffles
between the same components agree on encoders and partitioners.

In the plan all stage edges are shuffles that read raw bytes, and a stage runs with the largest
parallelism that its members ask for, where one that holds no value of that kind asks for the
default. A conflict that a compilation fails with is about encoders or partitioners. -/
theorem default_compilation_exact (compiler : Compiler) (instances : Int)
    (positive : 1 ≤ instances)
    (resolved : Registry.builtIn.resolve ⟨instances⟩ Registry.defaultNames = .ok compiler.passes)
    (graph : JobGraph) (made : graph.Made) (bound : graph.size < 2 ^ 64) (source : Source) :
    let outcome := ((compiler.compile .live (some graph)).run source).1.outcome
    ((∃ plan, outcome = .ok plan) ↔
        (∀ edge ∈ graph.edges, edge.pattern? ≠ none) ∧
          (∀ edge ∈ graph.edges, ¬ graph.Encloses edge) ∧ ¬ graph.Entangled ∧
            (compiler.settings.strictStageEdges = true →
              graph.Agrees [.encoder, .partitioner])) ∧
      (∀ plan, outcome = .ok plan →
        (∀ bundle ∈ plan.stageGraph.edges,
          bundle.bag.get? .communicationPattern = some (.pattern .shuffle) ∧
            bundle.bag.get? .decoder = some .bytesDecoder) ∧
        ∀ stage ∈ plan.stages,
          IsGreatest (insert 1 {demanded | ∃ vertex ∈ graph.vertices,
            vertex.id ∈ stage.memberIds ∧ vertex.demand? instances = some demanded})
              stage.parallelism) ∧
      ∀ fault, outcome = .error fault → ∀ stageEdge kind previous next,
        fault.find? Fault.isConflict = some (.conflict stageEdge kind previous next) →
          kind = Kind.encoder.name ∨ kind = Kind.partitioner.name := by
  have sound := made.sound
  by_cases patterned : ∀ edge ∈ graph.edges, edge.bag.has .communicationPattern = true
  · have preparedMade := (made.sized positive).decoded
    have preparedBound : (graph.sized instances).decoded.size < 2 ^ 64 := by
      simpa [JobGraph.sized, JobGraph.decoded, Dag.size] using bound
    have lowers := Compiler.compile_lowers positive resolved made patterned source
    refine ⟨?_, ?_, ?_⟩
    · simp only [lowers, mapError_eq_ok_iff]
      rw [lower_ok_iff_plannable preparedMade.sound preparedBound, JobGraph.plannable_decoded]
      rfl
    · intro plan compiled
      rw [lowers, mapError_eq_ok_iff] at compiled
      obtain ⟨staging, sets, realizes, records, sized⟩ :=
        Plan.records_of_lower preparedMade.sound compiled
      refine ⟨?_, ?_⟩
      · intro bundle bundleIn
        have shuffled := realizes.stageEdge_shuffled preparedMade.sound records bundleIn
        exact ⟨shuffled .communicationPattern (Or.inl rfl), shuffled .decoder (Or.inr rfl)⟩
      · intro stage stageIn
        exact realizes.parallelism_isGreatest sound stageIn (sized stage stageIn)
    · intro fault failed stageEdge kind previous next found
      rw [lowers, mapError_eq_error_iff] at failed
      obtain ⟨inner, lowerFailed, rfl⟩ := failed
      have inside : (Fault.within .lowering inner).find? Fault.isConflict =
          inner.find? Fault.isConflict := by
        simp [Fault.find?, Fault.isConflict]
      exact conflict_kind_of_decoded preparedMade.sound preparedBound lowerFailed
        (inside.symm.trans found)
  · have fails := Compiler.compile_lacking positive resolved made patterned source
    refine ⟨⟨?_, ?_⟩, ?_, ?_⟩
    · rintro ⟨plan, compiled⟩
      cases fails.symm.trans compiled
    · rintro ⟨typed, _⟩
      exact absurd (fun edge member => Edge.has_of_patterned (typed edge member)) patterned
    · intro plan compiled
      cases fails.symm.trans compiled
    · intro fault failed stageEdge kind previous next found
      obtain rfl := Except.error.inj (fails.symm.trans failed)
      cases (Pass.shuffleEdgeDecoder_no_conflict sound).symm.trans found

/-- A strict compiler with the default passes. -/
def strictCompiler : Compiler where
  settings := { Settings.standard with strictStageEdges := true, defaultParallelism := 3 }
  passes := [.defaultParallelism 3, .shuffleEdgeDecoder]

/-- A demand for instances that another party defines. -/
def foreignDemand : Foreign := ⟨.parallelism, "as many as there are", "", ""⟩

/-- In the component of `a` and `b` one vertex asks for five instances and the other for nothing. In
that of `c` and `d` one asks by a foreign value, and the other for two. -/
def mixedDemands : JobGraph where
  vertices := [⟨"a", none, ⟨.vertex, [.parallelism 5]⟩⟩, .bare "b" none,
    ⟨"c", none, ⟨.vertex, [.foreign foreignDemand]⟩⟩, ⟨"d", none, ⟨.vertex, [.parallelism 2]⟩⟩]
  edges := [.along .oneToOne "ab" "a" "b", .encoded "json" "bc" "b" "c",
    .along .broadcast "cd" "c" "d", .along .shuffle "ac" "a" "c"]
  ids := ["a", "b", "c", "d"]
  links := [⟨"ab", "a", "b"⟩, ⟨"bc", "b", "c"⟩, ⟨"cd", "c", "d"⟩, ⟨"ac", "a", "c"⟩]
  order := [0, 1, 2, 3]

/-- A builder hands this graph out. -/
theorem mixedDemands_made : mixedDemands.Made := by
  refine .ofLists mixedDemands.vertices mixedDemands.edges ?_ ?_ rfl rfl rfl
  · simp only [mixedDemands, List.forall_mem_cons]
    exact ⟨.set (some (.parallelism 5)) .empty rfl, .empty,
      .set (some (.foreign foreignDemand)) .empty rfl, .set (some (.parallelism 2)) .empty rfl,
      nofun⟩
  · simp only [mixedDemands, List.forall_mem_cons]
    exact ⟨Edge.along_filled _ _ _ _ rfl, Edge.encoded_filled _ _ _ _ rfl,
      Edge.along_filled _ _ _ _ rfl, Edge.along_filled _ _ _ _ rfl, nofun⟩

/-- The larger demand counts in each stage, the foreign one does not, and the stage edge decodes
bytes although no edge did. -/
theorem mixedDemands_compiled :
    Compiler.new (some strictCompiler.settings) = .ok strictCompiler ∧
      ∃ plan, ((strictCompiler.compile .live (some mixedDemands)).run (.start "s")).1.outcome =
          .ok plan ∧
        (plan.stages.map fun stage => (stage.memberIds, stage.parallelism)) =
          [(["a", "b"], 5), (["c", "d"], 2)] ∧
        plan.stageGraph.edges = [⟨"Stage-s-0", "Stage-s-1",
          ⟨.edge, [.pattern .shuffle, .encoder "json", .bytesDecoder]⟩, ["bc", "ac"]⟩] ∧
        (∀ bundle ∈ plan.stageGraph.edges, bundle.bag.get? .decoder = some .bytesDecoder) ∧
        (∀ stage ∈ plan.stages, IsGreatest (insert 1 {demanded | ∃ vertex ∈ mixedDemands.vertices,
          vertex.id ∈ stage.memberIds ∧ vertex.demand? 3 = some demanded}) stage.parallelism) ∧
        mixedDemands.Agrees [.encoder, .partitioner] := by
  obtain ⟨succeeds, shows, _⟩ :=
    default_compilation_exact strictCompiler 3 (by decide) rfl mixedDemands mixedDemands_made
      (by decide) (.start "s")
  have compiles : ((strictCompiler.compile .live
      (some mixedDemands)).run (.start "s")).1.outcome.toOption.map (fun plan =>
        (plan.stages.map fun stage => (stage.memberIds, stage.parallelism),
          plan.stageGraph.edges)) =
      some ([(["a", "b"], 5), (["c", "d"], 2)], [⟨"Stage-s-0", "Stage-s-1",
        ⟨.edge, [.pattern .shuffle, .encoder "json", .bytesDecoder]⟩, ["bc", "ac"]⟩]) := by
    decide +kernel
  obtain ⟨plan, result, seen⟩ := ok_of_seen compiles
  obtain ⟨stages, edges⟩ := Prod.mk.inj seen
  obtain ⟨_, _, _, agrees⟩ := succeeds.mp ⟨plan, result⟩
  obtain ⟨decoded, sized⟩ := shows plan result
  exact ⟨rfl, plan, result, stages, edges, fun bundle bundleIn => (decoded bundle bundleIn).2,
    sized, agrees rfl⟩

end Flowplan
