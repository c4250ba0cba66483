import Flowplan.Proofs.BuiltInPasses
import Flowplan.Proofs.Plans

/-!
# Pipelines of the built-in passes

A run of built-in passes is followed turn by turn. A turn hands on the graph with the change of its
pass made, and the changes are of different elements and made once each, so in the end the graph is
`JobGraph.furnished`: it depends on the set of the names. The first turn of the decoding pass is
where a run fails if an edge lacks a pattern, since no turn before it gives an edge one.
-/

namespace Flowplan

/-! ## Resolved names -/

namespace Registry

/-- There are two built-in passes, known by their names. -/
theorem mem_builtIn_names (name : String) :
    name ∈ builtIn.names ↔
      name = Pass.shuffleEdgeDecoderName ∨ name = Pass.defaultParallelismName := by
  simp [names, builtIn]

/-- The name of a built-in pass finds it, and any other name finds nothing. -/
theorem lookup_builtIn (name : String) :
    builtIn.factories.lookup name =
      if name = Pass.shuffleEdgeDecoderName then some fun _ => Pass.shuffleEdgeDecoder
      else if name = Pass.defaultParallelismName then
        some fun options => Pass.defaultParallelism options.defaultParallelism
      else none := by
  by_cases decoder : name = Pass.shuffleEdgeDecoderName
  · simp [builtIn, decoder]
  · by_cases parallelism : name = Pass.defaultParallelismName
    · subst parallelism
      rfl
    · simp [builtIn, List.lookup_cons, beq_eq_false_iff_ne.mpr decoder,
        beq_eq_false_iff_ne.mpr parallelism, decoder, parallelism]

/-- Names of built-in passes are resolved. -/
theorem resolve_builtIn (options : PassOptions) (names : List String)
    (known : ∀ name ∈ names, name ∈ builtIn.names) :
    ∃ passes, builtIn.resolve options names = .ok passes := by
  induction names with
  | nil => exact ⟨[], rfl⟩
  | cons name rest inductionHypothesis =>
      obtain ⟨later, resolved⟩ :=
        inductionHypothesis fun other member => known other (List.mem_cons_of_mem name member)
      rw [resolve, lookup_builtIn]
      rcases (mem_builtIn_names name).mp (known name List.mem_cons_self) with rfl | rfl
      · exact ⟨_, by rw [if_pos rfl, resolved]; rfl⟩
      · exact ⟨_, by rw [if_neg (by decide), if_pos rfl, resolved]; rfl⟩

/-- The first of some names that were resolved stands for one of the two passes. -/
theorem resolve_cons_cases {options : PassOptions} {name : String} {rest : List String}
    {passes : List Pass} (resolved : builtIn.resolve options (name :: rest) = .ok passes) :
    ∃ later, builtIn.resolve options rest = .ok later ∧
      (name = Pass.shuffleEdgeDecoderName ∧ passes = Pass.shuffleEdgeDecoder :: later ∨
        name = Pass.defaultParallelismName ∧
          passes = Pass.defaultParallelism options.defaultParallelism :: later) := by
  rw [resolve, lookup_builtIn] at resolved
  cases onward : builtIn.resolve options rest with
  | error fault =>
      rw [onward] at resolved
      split at resolved <;> cases resolved
  | ok later =>
      refine ⟨later, rfl, ?_⟩
      rw [onward] at resolved
      by_cases decoder : name = Pass.shuffleEdgeDecoderName
      · rw [if_pos decoder] at resolved
        exact Or.inl ⟨decoder, (Except.ok.inj resolved).symm⟩
      · by_cases parallelism : name = Pass.defaultParallelismName
        · rw [if_neg decoder, if_pos parallelism] at resolved
          exact Or.inr ⟨parallelism, (Except.ok.inj resolved).symm⟩
        · rw [if_neg decoder, if_neg parallelism] at resolved
          cases resolved

end Registry

/-! ## The graph in the end -/

namespace JobGraph

/-- The graph with the changes of the built-in passes of the given names. -/
def furnished (instances : Int) (names : List String) (graph : JobGraph) : JobGraph :=
  { graph with
    vertices :=
      if Pass.defaultParallelismName ∈ names then graph.vertices.map (Vertex.sized instances)
      else graph.vertices
    edges :=
      if Pass.shuffleEdgeDecoderName ∈ names then graph.edges.map Edge.decoded else graph.edges }

variable (instances : Int) (graph : JobGraph) (rest : List String)

/-- To size the vertices first is to have the name of that pass in front. -/
theorem furnished_sized :
    (graph.sized instances).furnished instances rest =
      graph.furnished instances (Pass.defaultParallelismName :: rest) := by
  have other : Pass.shuffleEdgeDecoderName ≠ Pass.defaultParallelismName := by decide
  by_cases later : Pass.defaultParallelismName ∈ rest <;>
    simp [furnished, sized, later, Vertex.sized_comp_sized, other]

/-- To decode the shuffles first is to have the name of that pass in front. -/
theorem furnished_decoded :
    graph.decoded.furnished instances rest =
      graph.furnished instances (Pass.shuffleEdgeDecoderName :: rest) := by
  have other : Pass.defaultParallelismName ≠ Pass.shuffleEdgeDecoderName := by decide
  by_cases later : Pass.shuffleEdgeDecoderName ∈ rest <;>
    simp [furnished, decoded, later, Edge.decoded_comp_decoded, other]

/-- Whatever the names, the changes of built-in passes leave a made graph made. -/
theorem Made.furnished {graph : JobGraph} (made : graph.Made) {instances : Int}
    (positive : 1 ≤ instances) (names : List String) :
    (graph.furnished instances names).Made := by
  by_cases parallelism : Pass.defaultParallelismName ∈ names <;>
    by_cases decoder : Pass.shuffleEdgeDecoderName ∈ names <;>
      simp only [JobGraph.furnished, parallelism, decoder, ↓reduceIte]
  · exact (made.sized positive).decoded
  · exact made.sized positive
  · exact made.decoded
  · exact made

/-- The same names once more change nothing. -/
theorem furnished_furnished (names : List String) :
    (graph.furnished instances names).furnished instances names =
      graph.furnished instances names := by
  by_cases parallelism : Pass.defaultParallelismName ∈ names <;>
    by_cases decoder : Pass.shuffleEdgeDecoderName ∈ names <;>
      simp [furnished, parallelism, decoder, Vertex.sized_comp_sized, Edge.decoded_comp_decoded]

/-- Furnishing a graph gives no edge a pattern and takes none away. -/
theorem patterned_furnished (names : List String) :
    (∀ edge ∈ (graph.furnished instances names).edges,
        edge.bag.has .communicationPattern = true) ↔
      ∀ edge ∈ graph.edges, edge.bag.has .communicationPattern = true := by
  by_cases decoder : Pass.shuffleEdgeDecoderName ∈ names
  · simp only [furnished, decoder, ↓reduceIte, List.forall_mem_map, Edge.has_pattern_decoded]
  · simp only [furnished, decoder, ↓reduceIte]

end JobGraph

/-! ## Turns and runs -/

namespace Pipeline

/-- After the turn of a pass that changes the graph in place, all goes on with the graph changed. -/
theorem runFrom_in_place {pass : Pass} {graph after : JobGraph} (verify : Bool) (index : Nat)
    (rest : List Pass) (statistics : Statistics) (prepared : pass.Prepared graph)
    (applied : pass.apply graph = ⟨after, .same, false⟩) (delivered : pass.Delivered after) :
    runFrom verify index (pass :: rest) .live statistics (.start graph) =
      (runFrom verify (index + 1) rest .live (statistics.endPass index pass.name)
        (.start after)).preceded
        [.moved ⟨index, pass.name, .validating⟩, .moved ⟨index, pass.name, .applying⟩,
          .applied index graph, .moved ⟨index, pass.name, .done⟩] := by
  have made : pass.make (some graph) = .ok (some after) := by
    simp only [Pass.make, applied]
  have accepted : pass.objection verify (pass.apply graph) after = none := by
    rw [pass.objection_of_made verify made]
    exact ⟨fun new => absurd (congrArg Applied.returned applied) new, fun _ => delivered⟩
  have attempted : pass.attempt verify index (.start graph) =
      { events := [.moved ⟨index, pass.name, .validating⟩, .moved ⟨index, pass.name, .applying⟩,
          .applied index graph]
        holding := .start after
        cancels := false
        fault := none } := by
    have onward : (Holding.start graph).after (pass.apply graph) = .start after := by
      rw [applied]
      rfl
    rw [pass.attempt_prepared verify index (.start graph) prepared]
    change Attempt.mk _ ((Holding.start graph).after (pass.apply graph)) (pass.apply graph).cancels
      (pass.objection verify (pass.apply graph)
        ((Holding.start graph).after (pass.apply graph)).current) = _
    rw [onward]
    change Attempt.mk _ _ _ (pass.objection verify (pass.apply graph) after) = _
    rw [accepted, applied]
    rfl
  have looks : Context.live.now = none := rfl
  have later : Context.live.later = .live := rfl
  simp only [runFrom, looks, later, attempted, Bool.false_eq_true, ↓reduceIte]
  rfl

/-- A pass that lacks a prerequisite ends the run. -/
theorem runFrom_unprepared {pass : Pass} {graph : JobGraph} (verify : Bool) (index : Nat)
    (rest : List Pass) (statistics : Statistics) (lacking : ¬ pass.Prepared graph) :
    (runFrom verify index (pass :: rest) .live statistics (.start graph)).outcome =
      .error (.within (.pass pass.name) (.several (pass.unmetPrerequisites graph))) := by
  have looks : Context.live.now = none := rfl
  have attempted := pass.attempt_unprepared verify index (.start graph) lacking
  simp only [runFrom, looks, attempted]
  rfl

variable {instances : Int} {names : List String} {passes : List Pass} {graph : JobGraph}

/-- A run of built-in passes comes to the furnished graph if the decoding pass, where it is asked
for, finds a pattern on every edge. -/
theorem runFrom_furnishes (positive : 1 ≤ instances)
    (resolved : Registry.builtIn.resolve ⟨instances⟩ names = .ok passes) (verify : Bool)
    (index : Nat) (statistics : Statistics) (made : graph.Made)
    (fit : Pass.shuffleEdgeDecoderName ∈ names →
      ∀ edge ∈ graph.edges, edge.bag.has .communicationPattern = true) :
    let run := runFrom verify index passes .live statistics (.start graph)
    run.outcome = .ok (graph.furnished instances names, .same) ∧ run.context = .live := by
  induction names generalizing passes index statistics graph with
  | nil =>
      cases resolved
      exact ⟨by simp [runFrom, Holding.start, JobGraph.furnished], rfl⟩
  | cons name rest inductionHypothesis =>
      obtain ⟨later, onward, ⟨rfl, rfl⟩ | ⟨rfl, rfl⟩⟩ := Registry.resolve_cons_cases resolved
      · have patterned := fit List.mem_cons_self
        have prepared := (Pass.shuffleEdgeDecoder_prepared_iff made.sound).mpr patterned
        rw [runFrom_in_place verify index later statistics prepared
          (Pass.shuffleEdgeDecoder_apply made.sound) (Pass.shuffleEdgeDecoder_delivered graph),
          ← graph.furnished_decoded]
        refine inductionHypothesis onward (index + 1) _ made.decoded fun _ => ?_
        simpa only [JobGraph.decoded, List.forall_mem_map, Edge.has_pattern_decoded] using patterned
      · rw [runFrom_in_place verify index later statistics
          (Pass.defaultParallelism_prepared instances graph)
          (Pass.defaultParallelism_apply made.sound positive)
          (Pass.defaultParallelism_delivered made.sound instances), ← graph.furnished_sized]
        exact inductionHypothesis onward (index + 1) _ (made.sized positive)
          fun asked => fit (List.mem_cons_of_mem _ asked)

/-- A run of built-in passes fails in the first turn of the decoding pass if an edge lacks a
pattern, and reports the edges that do. -/
theorem runFrom_lacking (positive : 1 ≤ instances)
    (resolved : Registry.builtIn.resolve ⟨instances⟩ names = .ok passes) (verify : Bool)
    (index : Nat) (statistics : Statistics) (made : graph.Made)
    (asked : Pass.shuffleEdgeDecoderName ∈ names)
    (lacking : ¬ ∀ edge ∈ graph.edges, edge.bag.has .communicationPattern = true) :
    (runFrom verify index passes .live statistics (.start graph)).outcome =
      .error (.within (.pass Pass.shuffleEdgeDecoderName)
        (.several (Pass.shuffleEdgeDecoder.unmetPrerequisites graph))) := by
  induction names generalizing passes index statistics graph with
  | nil => cases asked
  | cons name rest inductionHypothesis =>
      obtain ⟨later, onward, ⟨rfl, rfl⟩ | ⟨rfl, rfl⟩⟩ := Registry.resolve_cons_cases resolved
      · apply runFrom_unprepared
        rwa [Pass.shuffleEdgeDecoder_prepared_iff made.sound]
      · have askedLater : Pass.shuffleEdgeDecoderName ∈ rest :=
          (List.mem_cons.mp asked).resolve_left (by decide)
        have sameUnmet : Pass.shuffleEdgeDecoder.unmetPrerequisites (graph.sized instances) =
            Pass.shuffleEdgeDecoder.unmetPrerequisites graph := by
          rw [Pass.shuffleEdgeDecoder_unmet (made.sized positive).sound,
            Pass.shuffleEdgeDecoder_unmet made.sound]
          rfl
        rw [runFrom_in_place verify index later statistics
          (Pass.defaultParallelism_prepared instances graph)
          (Pass.defaultParallelism_apply made.sound positive)
          (Pass.defaultParallelism_delivered made.sound instances), ← sameUnmet]
        exact inductionHypothesis onward (index + 1) _ (made.sized positive) askedLater lacking

/-- What a whole run of built-in passes comes to, where no pattern is missing. -/
theorem run_furnishes (positive : 1 ≤ instances)
    (resolved : Registry.builtIn.resolve ⟨instances⟩ names = .ok passes) (verify : Bool)
    (statistics : Statistics) (made : graph.Made)
    (fit : Pass.shuffleEdgeDecoderName ∈ names →
      ∀ edge ∈ graph.edges, edge.bag.has .communicationPattern = true) :
    let run := Pipeline.run ⟨passes, verify⟩ .live statistics (some graph)
    run.outcome = .ok (graph.furnished instances names, .same) ∧ run.context = .live := by
  simp only [run, made.sound.intact.valid]
  exact runFrom_furnishes positive resolved verify 0 _ made fit

/-- How a whole run of built-in passes fails. -/
theorem run_lacking (positive : 1 ≤ instances)
    (resolved : Registry.builtIn.resolve ⟨instances⟩ names = .ok passes) (verify : Bool)
    (statistics : Statistics) (made : graph.Made)
    (asked : Pass.shuffleEdgeDecoderName ∈ names)
    (lacking : ¬ ∀ edge ∈ graph.edges, edge.bag.has .communicationPattern = true) :
    (Pipeline.run ⟨passes, verify⟩ .live statistics (some graph)).outcome =
      .error (.within (.pass Pass.shuffleEdgeDecoderName)
        (.several (Pass.shuffleEdgeDecoder.unmetPrerequisites graph))) := by
  simp only [run, made.sound.intact.valid]
  exact runFrom_lacking positive resolved verify 0 _ made asked lacking

end Pipeline

namespace JobGraph

/-- A graph differs from another one in what the built-in passes of the given names add to it: a
parallelism on the vertices without any value of that kind, and the decoder of raw bytes on the
edges with the typed pattern of shuffles. Under every other kind its elements hold what they
held. -/
structure Annotates (graph : JobGraph) (instances : Int) (names : List String) (after : JobGraph) :
    Prop where
  alike : graph.Alike after
  transforms : after.vertices.map Vertex.transform = graph.vertices.map Vertex.transform
  vertices : ∀ (position : Nat) (vertex now : Vertex), graph.vertices[position]? = some vertex →
    after.vertices[position]? = some now → ∀ kind, now.bag.get? kind =
      if kind = .parallelism ∧ vertex.bag.get? .parallelism = none ∧
          Pass.defaultParallelismName ∈ names then
        some (.parallelism instances)
      else vertex.bag.get? kind
  edges : ∀ (position : Nat) (edge now : Edge), graph.edges[position]? = some edge →
    after.edges[position]? = some now → ∀ kind, now.bag.get? kind =
      if kind = .decoder ∧ edge.pattern? = some .shuffle ∧
          Pass.shuffleEdgeDecoderName ∈ names then
        some .bytesDecoder
      else edge.bag.get? kind

/-- The changes of built-in passes add what their names say, and nothing else. -/
theorem furnished_annotates (instances : Int) (names : List String) (graph : JobGraph) :
    graph.Annotates instances names (graph.furnished instances names) := by
  constructor
  case alike =>
    refine ⟨rfl, rfl, rfl, ?_, ?_⟩
    · by_cases asked : Pass.defaultParallelismName ∈ names <;>
        simp [furnished, asked, Node.id, Function.comp_def, Vertex.id_sized]
    · by_cases asked : Pass.shuffleEdgeDecoderName ∈ names <;>
        simp [furnished, asked, Arc.link, Function.comp_def, Edge.link_decoded]
  case transforms =>
    by_cases asked : Pass.defaultParallelismName ∈ names <;>
      simp [furnished, asked, Function.comp_def, Vertex.transform_sized]
  case vertices =>
    intro position vertex now stands standsNow kind
    by_cases asked : Pass.defaultParallelismName ∈ names
    · simp only [furnished, asked, ↓reduceIte, List.getElem?_map, stands, Option.map_some,
        Option.some.injEq] at standsNow
      subst standsNow
      simp only [vertex.get?_sized, asked, and_true]
    · simp only [furnished, asked, ↓reduceIte, stands, Option.some.injEq] at standsNow
      simp only [← standsNow, asked, and_false, ↓reduceIte]
  case edges =>
    intro position edge now stands standsNow kind
    by_cases asked : Pass.shuffleEdgeDecoderName ∈ names
    · simp only [furnished, asked, ↓reduceIte, List.getElem?_map, stands, Option.map_some,
        Option.some.injEq] at standsNow
      subst standsNow
      simp only [edge.get?_decoded, Edge.isShuffle, decide_eq_true_eq, asked, and_true]
    · simp only [furnished, asked, ↓reduceIte, stands, Option.some.injEq] at standsNow
      simp only [← standsNow, asked, and_false, ↓reduceIte]

end JobGraph

/-- A pipeline of built-in passes, of any names in any order and with any repetitions, succeeds
exactly if the decoding pass is not among them or every edge holds some value for its pattern.

It comes to the graph given, with what the passes named add to it. So all that matters is the set of
the names, for the fault of a run that fails as well, and another run changes nothing. -/
theorem built_in_passes_by_names (graph : JobGraph) (made : graph.Made) (names : List String)
    (known : ∀ name ∈ names, name ∈ Registry.builtIn.names) (instances : Int)
    (positive : 1 ≤ instances) (verify : Bool) (statistics : Statistics) :
    ∃ passes, Registry.builtIn.resolve ⟨instances⟩ names = .ok passes ∧
      let outcome := (Pipeline.run ⟨passes, verify⟩ .live statistics (some graph)).outcome
      ((∃ result, outcome = .ok result) ↔
          Pass.shuffleEdgeDecoderName ∉ names ∨
            ∀ edge ∈ graph.edges, edge.bag.has .communicationPattern = true) ∧
        (∀ after lineage, outcome = .ok (after, lineage) →
          lineage = .same ∧ graph.Annotates instances names after ∧
            ∀ otherStatistics,
              (Pipeline.run ⟨passes, verify⟩ .live otherStatistics (some after)).outcome =
                .ok (after, .same)) ∧
        ∀ others otherPasses otherVerify otherStatistics,
          (∀ name, name ∈ others ↔ name ∈ names) →
            Registry.builtIn.resolve ⟨instances⟩ others = .ok otherPasses →
              (Pipeline.run ⟨otherPasses, otherVerify⟩ .live otherStatistics
                (some graph)).outcome = outcome := by
  obtain ⟨passes, resolved⟩ := Registry.resolve_builtIn ⟨instances⟩ names known
  refine ⟨passes, resolved, ?_⟩
  by_cases fit : Pass.shuffleEdgeDecoderName ∈ names →
      ∀ edge ∈ graph.edges, edge.bag.has .communicationPattern = true
  · have comes := (Pipeline.run_furnishes positive resolved verify statistics made fit).1
    refine ⟨⟨fun _ => Decidable.imp_iff_not_or.mp fit, fun _ => ⟨_, comes⟩⟩, ?_, ?_⟩
    · intro after lineage isOutcome
      obtain ⟨rfl, rfl⟩ := Prod.mk.inj (Except.ok.inj (comes.symm.trans isOutcome))
      refine ⟨rfl, graph.furnished_annotates instances names, ?_⟩
      intro otherStatistics
      have again := (Pipeline.run_furnishes positive resolved verify otherStatistics
        (made.furnished positive names) fun asked =>
          (graph.patterned_furnished instances names).mpr (fit asked)).1
      rwa [graph.furnished_furnished] at again
    · intro others otherPasses otherVerify otherStatistics same otherResolved
      have alike : graph.furnished instances others = graph.furnished instances names := by
        simp only [JobGraph.furnished, same]
      rw [comes, ← alike]
      exact (Pipeline.run_furnishes positive otherResolved otherVerify otherStatistics made
        fun asked => fit ((same _).mp asked)).1
  · obtain ⟨asked, lacking⟩ := Classical.not_imp.mp fit
    have fails := Pipeline.run_lacking positive resolved verify statistics made asked lacking
    refine ⟨⟨?_, fun either => absurd (Decidable.imp_iff_not_or.mpr either) fit⟩, ?_, ?_⟩
    · rintro ⟨result, succeeds⟩
      cases fails.symm.trans succeeds
    · intro after lineage succeeds
      cases fails.symm.trans succeeds
    · intro others otherPasses otherVerify otherStatistics same otherResolved
      rw [fails]
      exact Pipeline.run_lacking positive otherResolved otherVerify otherStatistics made
        ((same _).mpr asked) lacking

/-- The decoding pass named twice around the other one. -/
theorem twoStages_furnished :
    ∃ passes, Registry.builtIn.resolve ⟨4⟩ [Pass.shuffleEdgeDecoderName,
        Pass.defaultParallelismName, Pass.shuffleEdgeDecoderName] = .ok passes ∧
      ∃ after, (Pipeline.run ⟨passes, true⟩ .live .fresh (some twoStages)).outcome =
          .ok (after, .same) ∧
        twoStages.Annotates 4 [Pass.shuffleEdgeDecoderName, Pass.defaultParallelismName,
          Pass.shuffleEdgeDecoderName] after := by
  obtain ⟨passes, resolved, succeeds, annotates, _⟩ := built_in_passes_by_names twoStages
    twoStages_made [Pass.shuffleEdgeDecoderName, Pass.defaultParallelismName,
      Pass.shuffleEdgeDecoderName] (by simp [Registry.mem_builtIn_names]) 4 (by decide) true .fresh
  obtain ⟨⟨after, lineage⟩, comes⟩ := succeeds.mpr (Or.inr (by decide))
  obtain ⟨rfl, added, _⟩ := annotates after lineage comes
  exact ⟨passes, resolved, after, comes, added⟩

end Flowplan
