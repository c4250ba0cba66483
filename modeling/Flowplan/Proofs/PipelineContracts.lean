import Flowplan.Proofs.FaithfulPasses
import Flowplan.Proofs.PipelineRuns

/-!
# The contracts of passes

A pipeline keeps three promises to its passes and its user. A pass is applied to valid graphs only,
on which its prerequisites hold. A pass that is done has delivered its product, if that is verified.
And a pass that fails before it is applied leaves everything as the pass before it did.

The first promise does not come from the checks alone, for a graph handed back as it was given is
not validated again. It is an invariant of the standings of a run: faithful passes keep the shape of
the graph, and validity depends on the shape (`Dag.Alike.validate_eq`).
-/

namespace Flowplan

/-- What a faithful pass makes of a valid graph is valid, validated again or not. -/
theorem Pass.Succeeds.sound {pass : Pass} {verify : Bool} {graph next : JobGraph}
    (succeeds : pass.Succeeds verify graph next) (faithful : pass.Faithful)
    (valid : graph.validate = .ok ()) (whole : graph.Whole) :
    next.validate = .ok () ∧ next.Whole := by
  have alike := faithful.keeps graph
  have made := succeeds.made
  unfold Pass.make at made
  cases returned : (pass.apply graph).returned with
  | same =>
      obtain rfl : (pass.apply graph).given = next := by simpa [returned] using made
      exact ⟨alike.validate_eq.trans valid, alike.whole whole⟩
  | rebuilt =>
      obtain rfl : (pass.apply graph).given = next := by simpa [returned] using made
      exact ⟨succeeds.valid (by simp [returned]), alike.whole whole⟩
  | other another =>
      obtain rfl : another = next := by simpa [returned] using made
      exact ⟨succeeds.valid (by simp [returned]), faithful.whole graph another returned⟩
  | nothing => simp [returned] at made
  | failed fault => simp [returned] at made
  | brokeOff breakage => simp [returned] at made

namespace Pass

variable {pass : Pass} {graph : JobGraph}

/-- A prepared pass finds its prerequisites on all elements of a whole graph that it visits. -/
theorem Prepared.has (prepared : pass.Prepared graph) (whole : graph.Whole) :
    ∀ kind ∈ pass.prerequisites, ∀ element, graph.Owns element →
      element.bag.target = kind.target → pass.Visits element → element.bag.has kind = true := by
  intro kind needed element owned
  exact prepared kind needed element (JobGraph.mem_elements_of_owns whole owned)

/-- A pass that delivered has its product on all elements of a whole graph that it promised it
on. -/
theorem Delivered.has (delivered : pass.Delivered graph) (whole : graph.Whole) :
    ∀ element, graph.Owns element → element.bag.target = pass.produces.target →
      pass.Promises element → element.bag.has pass.produces = true := by
  intro element owned
  exact delivered element (JobGraph.mem_elements_of_owns whole owned)

end Pass

namespace Pipeline

namespace ComesTo

variable {pipeline : Pipeline} {context : Context} {statistics : Statistics}
  {given : Option JobGraph} {standing : Standing}

/-- The graph come to is valid at every standing of a run of faithful passes. -/
theorem sound (faithful : ∀ pass ∈ pipeline.passes, pass.Faithful)
    (whole : ∀ graph : JobGraph, given = some graph → graph.Whole)
    (came : pipeline.ComesTo context statistics given standing) :
    standing.holding.current.validate = .ok () ∧ standing.holding.current.Whole := by
  induction came with
  | start isGiven valid => exact ⟨valid, whole _ isGiven⟩
  | next came turn live prepared succeeds inductionHypothesis =>
      obtain ⟨valid, wholeBefore⟩ := inductionHypothesis
      have next := succeeds.sound (faithful _ (List.mem_of_getElem? turn)) valid wholeBefore
      rw [← Holding.after_current succeeds.made] at next
      exact next

/-- The passes in front of a standing have had their turns with success. -/
theorem passed {index : Nat} (came : pipeline.ComesTo context statistics given standing)
    (before : index < standing.index) :
    ∃ earlier pass made, pipeline.ComesTo context statistics given earlier ∧
      earlier.index = index ∧ pipeline.passes[index]? = some pass ∧
      pass.Succeeds pipeline.verify earlier.holding.current made ∧
      (index, earlier.holding.current) ∈ Event.applications standing.events := by
  induction came with
  | start isGiven valid => exact absurd before (Nat.not_lt_zero index)
  | @next standing pass made came turn live prepared succeeds inductionHypothesis =>
      obtain earlier | rfl := Nat.lt_succ_iff_lt_or_eq.mp before
      · obtain ⟨past, passThen, madeThen, cameThen, place, turnThen, succeeded, applied⟩ :=
          inductionHypothesis earlier
        refine ⟨past, passThen, madeThen, cameThen, place, turnThen, succeeded, ?_⟩
        rw [Standing.advance, Event.applications_append]
        exact List.mem_append_left _ applied
      · refine ⟨standing, pass, made, came, rfl, turn, succeeds, ?_⟩
        rw [Standing.advance, Event.applications_append]
        exact List.mem_append_right _ (List.mem_singleton.mpr rfl)

/-- The applications on the way to a standing were those of prepared passes, to the graph come to
then. -/
theorem applied_prepared {index : Nat} {received : JobGraph}
    (came : pipeline.ComesTo context statistics given standing)
    (applied : (index, received) ∈ Event.applications standing.events) :
    ∃ earlier pass, pipeline.ComesTo context statistics given earlier ∧
      earlier.holding.current = received ∧ pipeline.passes[index]? = some pass ∧
      pass.Prepared received := by
  induction came with
  | start isGiven valid => simp [Standing.start, pendings_applications] at applied
  | @next standing pass made came turn live prepared succeeds inductionHypothesis =>
      rw [Standing.advance, Event.applications_append, List.mem_append] at applied
      obtain before | now := applied
      · exact inductionHypothesis before
      · obtain ⟨rfl, rfl⟩ := Prod.mk.inj (List.mem_singleton.mp now)
        exact ⟨standing, pass, came, rfl, turn, prepared⟩

end ComesTo

end Pipeline

namespace Standing.Stops

variable {pipeline : Pipeline} {standing : Standing} {run : Run}

/-- Stopping adds events behind those of the standing. -/
theorem events_eq (stops : standing.Stops pipeline run) :
    ∃ tail, run.events = standing.events ++ tail := by
  cases stops with
  | completed atEnd => exact ⟨[], (List.append_nil _).symm⟩
  | interrupted turn ended => exact ⟨_, rfl⟩
  | unprepared turn live lacking => exact ⟨_, rfl⟩
  | rejected turn live prepared objection => exact ⟨_, rfl⟩

/-- A run that stops without applying the pass in turn leaves the graphs as they stand. -/
theorem holding_eq (stops : standing.Stops pipeline run)
    (unapplied : (standing.index, .applying) ∉ run.reports) :
    run.holding = some standing.holding := by
  cases stops with
  | completed atEnd => rfl
  | interrupted turn ended => rfl
  | unprepared turn live lacking => rfl
  | rejected turn live prepared objection =>
      refine absurd ?_ unapplied
      rw [Run.reports, Event.reports_append]
      exact List.mem_append_right _ (.tail _ (.head _))

/-- Whatever a run has applied was applied on the way to the standing where it stops, or there. -/
theorem applied_cases {index : Nat} {received : JobGraph} (stops : standing.Stops pipeline run)
    (applied : (index, received) ∈ run.applications) :
    (index, received) ∈ Event.applications standing.events ∨
      standing.index = index ∧ standing.holding.current = received ∧
        ∃ pass, pipeline.passes[index]? = some pass ∧ pass.Prepared received := by
  cases stops with
  | completed atEnd => exact Or.inl applied
  | interrupted turn ended =>
      rw [Run.applications, Event.applications_append, List.mem_append] at applied
      exact Or.inl (applied.resolve_right List.not_mem_nil)
  | unprepared turn live lacking =>
      rw [Run.applications, Event.applications_append, List.mem_append] at applied
      exact Or.inl (applied.resolve_right List.not_mem_nil)
  | rejected turn live prepared objection =>
      rw [Run.applications, Event.applications_append, List.mem_append] at applied
      obtain before | now := applied
      · exact Or.inl before
      · obtain ⟨rfl, rfl⟩ := Prod.mk.inj (List.mem_singleton.mp now)
        exact Or.inr ⟨rfl, rfl, _, turn, prepared⟩

end Standing.Stops

namespace Pipeline

section Run

variable {pipeline : Pipeline} {context : Context} {statistics : Statistics}
  {given : Option JobGraph} {index : Nat}

/-- A run in which more is told than that passes are pending comes to a standing where it stops. -/
theorem run_stops_of_told {state : PassState} (told : (index, state) ∈
      (pipeline.run context statistics given).reports) (started : state ≠ .pending) :
    ∃ last, pipeline.ComesTo context statistics given last ∧
      last.Stops pipeline (pipeline.run context statistics given) := by
  obtain ⟨fault, invalid⟩ | stops := pipeline.run_cases context statistics given
  · rw [pipeline.run_refused context statistics invalid] at told
    simp [refused, Run.reports, pendings_reports, mem_announcements_iff, started] at told
  · exact stops

/-- Every application in a run is that of a prepared pass to the graph come to. -/
theorem run_applied {received : JobGraph}
    (applied : (index, received) ∈ (pipeline.run context statistics given).applications) :
    ∃ standing pass, pipeline.ComesTo context statistics given standing ∧
      standing.holding.current = received ∧ pipeline.passes[index]? = some pass ∧
      pass.Prepared received := by
  obtain ⟨fault, invalid⟩ | ⟨last, came, stops⟩ := pipeline.run_cases context statistics given
  · rw [pipeline.run_refused context statistics invalid] at applied
    simp [refused, Run.applications, pendings_applications] at applied
  · obtain before | ⟨_, current, pass, turn, prepared⟩ := stops.applied_cases applied
    · exact came.applied_prepared before
    · exact ⟨last, pass, came, current, turn, prepared⟩

/-- A pass that is done has succeeded on the graph it was applied to. -/
theorem run_done (done : (index, .done) ∈ (pipeline.run context statistics given).reports) :
    ∃ standing pass made, pipeline.ComesTo context statistics given standing ∧
      pipeline.passes[index]? = some pass ∧
      pass.Succeeds pipeline.verify standing.holding.current made ∧
      (index, standing.holding.current) ∈
        (pipeline.run context statistics given).applications := by
  obtain ⟨last, came, stops⟩ := run_stops_of_told done (by decide)
  obtain ⟨states, course⟩ := came.course stops
  have unfinished : .done ∉ states := by
    have failing : ∀ listed ∈ failures, .done ∉ listed := by decide
    obtain rfl | ⟨_, listed⟩ := course.ending
    · exact List.not_mem_nil
    · exact failing states listed
  -- the pass that ends a run is not done, so this one had its turn before
  rw [course.told, mem_told_iff] at done
  have before : index < last.index := by simpa [unfinished] using done
  obtain ⟨earlier, pass, made, cameEarlier, _, turn, succeeds, applied⟩ := came.passed before
  refine ⟨earlier, pass, made, cameEarlier, turn, succeeds, ?_⟩
  obtain ⟨tail, events⟩ := stops.events_eq
  rw [Run.applications, events, Event.applications_append]
  exact List.mem_append_left _ applied

/-- A run in which a pass fails without being applied leaves the graphs as they stood in front of
that pass. -/
theorem run_untouched
    (failed : (index, .failed) ∈ (pipeline.run context statistics given).reports)
    (unapplied : (index, .applying) ∉ (pipeline.run context statistics given).reports) :
    ∃ standing, pipeline.ComesTo context statistics given standing ∧ standing.index = index ∧
      (pipeline.run context statistics given).holding = some standing.holding := by
  obtain ⟨last, came, stops⟩ := run_stops_of_told failed (by decide)
  obtain ⟨states, course⟩ := came.course stops
  rw [course.told, mem_told_iff] at failed
  obtain ⟨rfl, _⟩ : index = last.index ∧ .failed ∈ states := by simpa using failed
  exact ⟨last, came, rfl, stops.holding_eq unapplied⟩

end Run

/-- A run of faithful passes keeps the contracts. Every graph that a pass is applied to is valid,
and on it the prerequisites of the pass hold. If products are verified, a pass that is done has made
a graph on which its product is where it was promised. If a pass fails without being applied, the
graphs are what the pass before it has left, and for the first pass they are what was given. -/
theorem run_keeps_contracts (pipeline : Pipeline) (context : Context) (statistics : Statistics)
    (graph : JobGraph) (whole : graph.Whole)
    (faithful : ∀ pass ∈ pipeline.passes, pass.Faithful) :
    let run := pipeline.run context statistics (some graph)
    (∀ index received, (index, received) ∈ run.applications →
      ∃ pass, pipeline.passes[index]? = some pass ∧ received.validate = .ok () ∧
        ∀ kind ∈ pass.prerequisites, ∀ element, JobGraph.Owns received element →
          element.bag.target = kind.target → pass.Visits element →
            element.bag.has kind = true) ∧
    (pipeline.verify = true → ∀ index, (index, .done) ∈ run.reports →
      ∃ pass received next, pipeline.passes[index]? = some pass ∧
        (index, received) ∈ run.applications ∧ pass.make (some received) = .ok (some next) ∧
        ∀ element, JobGraph.Owns next element → element.bag.target = pass.produces.target →
          pass.Promises element → element.bag.has pass.produces = true) ∧
    ∀ index, (index, .failed) ∈ run.reports → (index, .applying) ∉ run.reports →
      (index = 0 → run.holding = some (.start graph)) ∧
      ∀ earlier, index = earlier + 1 →
        ∃ before pass, pipeline.ComesTo context statistics (some graph) before ∧
          before.index = earlier ∧ pipeline.passes[earlier]? = some pass ∧
          run.holding = some (before.holding.after (pass.apply before.holding.current)) := by
  intro run
  have allSound : ∀ {standing}, pipeline.ComesTo context statistics (some graph) standing →
      standing.holding.current.validate = .ok () ∧ standing.holding.current.Whole := by
    intro standing came
    refine came.sound faithful ?_
    rintro _ ⟨⟩
    exact whole
  refine ⟨?_, ?_, ?_⟩
  · intro index received applied
    obtain ⟨standing, pass, came, rfl, turn, prepared⟩ := run_applied applied
    obtain ⟨valid, whole⟩ := allSound came
    exact ⟨pass, turn, valid, prepared.has whole⟩
  · intro verify index done
    obtain ⟨standing, pass, next, came, turn, succeeds, applied⟩ := run_done done
    obtain ⟨valid, whole⟩ := allSound came
    have passes := succeeds.sound (faithful pass (List.mem_of_getElem? turn)) valid whole
    exact ⟨pass, standing.holding.current, next, turn, applied, succeeds.made,
      (succeeds.delivered verify).has passes.2⟩
  · intro index failed unapplied
    obtain ⟨last, came, rfl, left⟩ := run_untouched failed unapplied
    cases came with
    | start isGiven valid =>
        obtain rfl := Option.some.inj isGiven
        exact ⟨fun _ => left, fun earlier before => by cases before⟩
    | @next before pass made came turn live prepared succeeds =>
        refine ⟨fun first => absurd first (Nat.succ_ne_zero before.index), ?_⟩
        rintro _ ⟨⟩
        exact ⟨before, pass, came, rfl, turn, left⟩

end Pipeline

/-- Two vertices with an edge between them, whose pattern nobody has set. -/
def unpatterned : JobGraph where
  vertices := [.bare "read" none, .bare "write" none]
  edges := [.bare "move" "read" "write"]
  ids := ["read", "write"]
  links := [⟨"move", "read", "write"⟩]
  order := [0, 1]

/-- The work of a pass which sets the parallelism of all vertices anew, and hands back another graph
over the same elements. -/
def resizingSteps : List Step :=
  [.set .vertices (some (.parallelism 4)), .rebuild]

/-- A pass that works by these steps. -/
def resizing : Pass where
  name := "resizing"
  produces := .parallelism
  prerequisites := [.parallelism]
  visits := none
  promises := none
  apply := Script.apply resizingSteps

/-- The last pass of this pipeline needs the patterns of edges. -/
def decodingPipeline : Pipeline where
  passes := [.defaultParallelism 2, resizing, .shuffleEdgeDecoder]
  verify := true

/-- The pass in the middle gets a valid graph, and all vertices hold its product in the graph that
it makes. The last pass fails before it is applied, since a pattern is missing. -/
theorem decodingPipeline_contracts :
    unpatterned.Whole ∧ (∀ pass ∈ decodingPipeline.passes, pass.Faithful) ∧
    let run := decodingPipeline.run .live .fresh (some unpatterned)
    (∃ received next, (1, received) ∈ run.applications ∧ received.validate = .ok () ∧
      resizing.make (some received) = .ok (some next) ∧
      ∀ element, JobGraph.Owns next element → element.bag.target = .vertex →
        element.bag.has .parallelism = true) ∧
    (2, .failed) ∈ run.reports ∧ (2, .applying) ∉ run.reports ∧
    ∃ before pass, decodingPipeline.ComesTo .live .fresh (some unpatterned) before ∧
      before.index = 1 ∧ decodingPipeline.passes[1]? = some pass ∧
      run.holding = some (before.holding.after (pass.apply before.holding.current)) := by
  have whole : unpatterned.Whole := by decide
  have faithful : ∀ pass ∈ decodingPipeline.passes, pass.Faithful := by
    simp only [decodingPipeline, List.forall_mem_cons]
    exact ⟨Pass.defaultParallelism_faithful 2, Pass.faithful_of_script resizingSteps rfl,
      Pass.shuffleEdgeDecoder_faithful, by simp⟩
  obtain ⟨prepared, delivered, left⟩ :=
    decodingPipeline.run_keeps_contracts .live .fresh unpatterned whole faithful
  refine ⟨whole, faithful, ?_, by decide +kernel, by decide +kernel,
    (left 2 (by decide +kernel) (by decide +kernel)).2 1 rfl⟩
  obtain ⟨pass, received, next, turn, applied, made, holds⟩ := delivered rfl 1 (by decide +kernel)
  obtain rfl : resizing = pass := Option.some.inj turn
  obtain ⟨_, _, valid, _⟩ := prepared 1 received applied
  refine ⟨received, next, applied, valid, made, ?_⟩
  intro element owned annotates
  exact holds element owned annotates (by simp [Pass.Promises, resizing])

end Flowplan
