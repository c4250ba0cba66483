import Flowplan.Proofs.PipelineRuns

/-!
# The statistics of a run

The record of a run has one place for each pass of the pipeline, and the passes that are done fill
the places from the front (`Statistics.Notes`). Nothing removes the places of the passes that were
never done. So the names in the record are those of the passes that are done exactly if all of them
are; otherwise empty names follow.
-/

namespace Flowplan

namespace Statistics

/-- The first passes of a pipeline are noted as ended, and no others. -/
structure Notes (statistics : Statistics) (passes : List Pass) (ended : Nat) : Prop where
  bounded : ended ≤ passes.length
  names : statistics.passNames =
    (passes.take ended).map Pass.name ++ List.replicate (passes.length - ended) ""
  times : statistics.measured =
    List.replicate ended true ++ List.replicate (passes.length - ended) false

/-- At the start of a pipeline no pass is noted as ended. -/
theorem fresh_notes (passes : List Pass) : (fresh.start passes.length).Notes passes 0 where
  bounded := Nat.zero_le _
  names := by simp [fresh, start]
  times := by simp [fresh, start]

/-- Filling the first empty place behind the filled ones. -/
theorem set_first_empty {α : Type} {filled : List α} {position : Nat} (empty value : α)
    (count : Nat) (first : filled.length = position) :
    (filled ++ List.replicate (count + 1) empty).set position value =
      filled ++ [value] ++ List.replicate count empty := by
  subst first
  simp [List.replicate_succ]

variable {statistics : Statistics} {passes : List Pass} {ended : Nat}

/-- The statistics have one place for each pass of the pipeline. -/
theorem Notes.length_measured (notes : statistics.Notes passes ended) :
    statistics.measured.length = passes.length := by
  have bounded := notes.bounded
  rw [notes.times, List.length_append, List.length_replicate, List.length_replicate]
  omega

/-- The end of the next pass is noted behind those before it. -/
theorem Notes.endPass (notes : statistics.Notes passes ended) {pass : Pass}
    (turn : passes[ended]? = some pass) :
    (statistics.endPass ended pass.name).Notes passes (ended + 1) := by
  obtain ⟨inside, rfl⟩ := List.getElem?_eq_some_iff.mp turn
  have known : ¬ ((ended : Int) < 0 ∨ (statistics.measured.length : Int) ≤ ended) := by
    rw [notes.length_measured]
    omega
  have left : passes.length - ended = passes.length - (ended + 1) + 1 := by omega
  have names : ((passes.take ended).map Pass.name).length = ended := by
    rw [List.length_map, List.length_take]
    omega
  refine ⟨inside, ?_, ?_⟩
  · simp only [Statistics.endPass, if_neg known, Int.toNat_natCast, notes.names, left,
      List.take_succ_eq_append_getElem inside, List.map_append]
    exact set_first_empty _ _ _ names
  · have more : List.replicate (ended + 1) true = List.replicate ended true ++ [true] :=
      List.replicate_succ'
    simp only [Statistics.endPass, if_neg known, Int.toNat_natCast]
    rw [notes.times, left, more]
    exact set_first_empty _ _ _ List.length_replicate

end Statistics

/-! ## Passes that are done -/

/-- The names of the passes that events tell to be done, in order. -/
def Event.doneNames (events : List Event) : List String :=
  ((events.filterMap transition?).filter fun transition => transition.state = .done).map
    Transition.pass

/-- The names of the passes that an observer of the run is told to be done, in order. -/
def Run.doneNames (run : Run) : List String :=
  Event.doneNames run.events

/-- The passes told to be done by events in two parts are those of the first and then those of the
second. -/
theorem Event.doneNames_append (front back : List Event) :
    doneNames (front ++ back) = doneNames front ++ doneNames back := by
  simp [doneNames]

namespace Pipeline

/-- Passes that are announced are not told to be done. -/
theorem pendings_doneNames (passes : List Pass) : Event.doneNames (pendings passes) = [] := by
  simp only [Event.doneNames, List.map_eq_nil_iff, List.filter_eq_nil_iff, List.mem_filterMap]
  rintro transition ⟨event, member, told⟩
  obtain ⟨index, _, rfl⟩ := List.mem_mapIdx.mp member
  obtain rfl := Option.some.inj told
  simp

namespace ComesTo

variable {pipeline : Pipeline} {context : Context} {given : Option JobGraph} {standing : Standing}

/-- The passes in front of a standing are noted in its record. -/
theorem notes (came : pipeline.ComesTo context .fresh given standing) :
    standing.statistics.Notes pipeline.passes standing.index := by
  induction came with
  | start isGiven valid => exact Statistics.fresh_notes pipeline.passes
  | next came turn live prepared succeeds inductionHypothesis =>
      exact inductionHypothesis.endPass turn

/-- The passes in front of a standing are told to be done. -/
theorem doneNames_eq {statistics : Statistics}
    (came : pipeline.ComesTo context statistics given standing) :
    Event.doneNames standing.events = (pipeline.passes.take standing.index).map Pass.name := by
  induction came with
  | start isGiven valid => simpa [Standing.start] using pendings_doneNames pipeline.passes
  | next came turn live prepared succeeds inductionHypothesis =>
      obtain ⟨inside, rfl⟩ := List.getElem?_eq_some_iff.mp turn
      simp only [Standing.advance, Event.doneNames_append, inductionHypothesis,
        List.take_succ_eq_append_getElem inside, List.map_append]
      rfl

end ComesTo

end Pipeline

/-- Where a run stops, its record is that of the standing, and no further pass is done. -/
theorem Standing.Stops.unnoted {pipeline : Pipeline} {standing : Standing} {run : Run}
    (stops : standing.Stops pipeline run) :
    run.statistics = standing.statistics ∧
      run.doneNames = Event.doneNames standing.events := by
  cases stops with
  | completed atEnd => exact ⟨rfl, rfl⟩
  | interrupted turn ended =>
      exact ⟨rfl, (Event.doneNames_append _ _).trans (List.append_nil _)⟩
  | unprepared turn live lacking =>
      exact ⟨rfl, (Event.doneNames_append _ _).trans (List.append_nil _)⟩
  | rejected turn live prepared objection =>
      exact ⟨rfl, (Event.doneNames_append _ _).trans (List.append_nil _)⟩

namespace Pipeline

/-- The passes that are done are noted in the record of every run. A run has a result exactly if the
graph given is valid and all passes are done. -/
theorem run_notes (pipeline : Pipeline) (context : Context) (given : Option JobGraph) :
    let run := pipeline.run context .fresh given
    ∃ ended, run.statistics.Notes pipeline.passes ended ∧
      run.doneNames = (pipeline.passes.take ended).map Pass.name ∧
      ((∃ result, run.outcome = .ok result) ↔
        validate? given = .ok () ∧ ended = pipeline.passes.length) := by
  intro run
  obtain ⟨fault, invalid⟩ | ⟨last, came, stops⟩ := pipeline.run_cases context .fresh given
  · have refusal : run = pipeline.refused context .fresh given fault :=
      pipeline.run_refused context .fresh invalid
    rw [refusal]
    refine ⟨0, Statistics.fresh_notes pipeline.passes, pendings_doneNames pipeline.passes, ?_⟩
    simp [refused, invalid]
  · obtain ⟨record, names⟩ := stops.unnoted
    obtain ⟨_, course⟩ := came.course stops
    exact ⟨last.index, record ▸ came.notes, names.trans came.doneNames_eq, course.success⟩

/-- The record of every run that starts from a fresh one. The names of the passes that are done
stand in front, in the order of the pipeline, each with a time. A place without a name and without a
time follows for every other pass of the pipeline. So there are as many times as names, and the
names are those of the passes that are done exactly if all passes are. -/
theorem run_statistics (pipeline : Pipeline) (context : Context) (given : Option JobGraph) :
    let run := pipeline.run context .fresh given
    let count := pipeline.passes.length
    ∃ ended, ended ≤ count ∧
      run.doneNames = (pipeline.passes.take ended).map Pass.name ∧
      run.statistics.passNames = run.doneNames ++ List.replicate (count - ended) "" ∧
      run.statistics.measured =
        List.replicate ended true ++ List.replicate (count - ended) false ∧
      run.statistics.runtimes = run.statistics.passNames.length ∧
      (run.statistics.passNames = run.doneNames ↔ ended = count) ∧
      ((∃ result, run.outcome = .ok result) ↔ validate? given = .ok () ∧ ended = count) := by
  intro run count
  obtain ⟨ended, notes, done, success⟩ := pipeline.run_notes context given
  have bounded : ended ≤ count := notes.bounded
  have names : run.statistics.passNames = run.doneNames ++ List.replicate (count - ended) "" := by
    rw [notes.names, ← done]
  refine ⟨ended, bounded, done, names, notes.times, ?_, ?_, success⟩
  · have places : run.statistics.measured.length = count := notes.length_measured
    rw [Statistics.runtimes, places, notes.names, List.length_append, List.length_map,
      List.length_take, List.length_replicate]
    omega
  · rw [names, List.append_right_eq_self, List.replicate_eq_nil_iff]
    omega

end Pipeline

/-- The second pass of this pipeline is never done, and its place in the record stays. -/
theorem withdrawnPipeline_statistics :
    let run := withdrawnPipeline.run .live .fresh (some ⟨[], [], [], [], []⟩)
    run.doneNames = ["withdrawing"] ∧ run.statistics.passNames = ["withdrawing", ""] ∧
      run.statistics.runtimes = 2 ∧ run.statistics.passNames ≠ run.doneNames := by
  decide +kernel

end Flowplan
