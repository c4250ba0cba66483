import Flowplan.Proofs.PassTurns
import Mathlib.Data.List.Flatten

/-!
# Runs of a pipeline

A run is followed from pass to pass. `Standing` is what there is when a run is about to look at its
context before a pass, and `Pipeline.ComesTo` says which standings a run comes to: the first one if
the graph given is valid, and from each one the next if the context is live and the pass in turn
succeeds. From every standing the run goes on as `Standing.goOn` says, and at the last one it stops
in one of four ways (`Standing.Stops`).

All that is known about a run follows from these two: what a standing has seen is proved along
`ComesTo`, and what the end adds by the four ways to stop.
-/

namespace Flowplan

/-- Where a run stands when it is about to look at its context before a pass. -/
structure Standing where
  /-- The index of the pass whose turn it is. -/
  index : Nat
  context : Context
  statistics : Statistics
  holding : Holding
  /-- What has happened so far. -/
  events : List Event

namespace Standing

/-- The standing of a run that has only announced its passes. -/
def start (pipeline : Pipeline) (context : Context) (statistics : Statistics) (graph : JobGraph) :
    Standing where
  index := 0
  context := context
  statistics := statistics.start pipeline.passes.length
  holding := .start graph
  events := Pipeline.pendings pipeline.passes

/-- The standing after the pass in turn went through all its states. The context has been looked at
once more, and the pass may have canceled it. -/
def advance (standing : Standing) (pass : Pass) : Standing where
  index := standing.index + 1
  context :=
    if (pass.apply standing.holding.current).cancels then standing.context.later.cancel
    else standing.context.later
  statistics := standing.statistics.endPass standing.index pass.name
  holding := standing.holding.after (pass.apply standing.holding.current)
  events := standing.events ++
    [.moved ⟨standing.index, pass.name, .validating⟩, .moved ⟨standing.index, pass.name, .applying⟩,
      .applied standing.index standing.holding.current, .moved ⟨standing.index, pass.name, .done⟩]

end Standing

/-- The standings that a run of a pipeline comes to. -/
inductive Pipeline.ComesTo (pipeline : Pipeline) (context : Context) (statistics : Statistics)
    (given : Option JobGraph) : Standing → Prop
  | start {graph : JobGraph} (isGiven : given = some graph) (valid : graph.validate = .ok ()) :
      ComesTo pipeline context statistics given (.start pipeline context statistics graph)
  | next {standing : Standing} {pass : Pass} {made : JobGraph}
      (came : ComesTo pipeline context statistics given standing)
      (turn : pipeline.passes[standing.index]? = some pass)
      (live : standing.context.now = none)
      (prepared : pass.Prepared standing.holding.current)
      (succeeds : pass.Succeeds pipeline.verify standing.holding.current made) :
      ComesTo pipeline context statistics given (standing.advance pass)

namespace Standing

/-- The run that has come to a standing. -/
def goOn (standing : Standing) (pipeline : Pipeline) : Run :=
  (Pipeline.runFrom pipeline.verify standing.index (pipeline.passes.drop standing.index)
    standing.context standing.statistics standing.holding).preceded standing.events

/-- How a run stops at a standing. -/
inductive Stops (pipeline : Pipeline) (standing : Standing) : Run → Prop
  /-- All passes have had their turn. -/
  | completed (atEnd : standing.index = pipeline.passes.length) :
      Stops pipeline standing
        { events := standing.events
          statistics := standing.statistics
          context := standing.context
          holding := some standing.holding
          outcome := .ok (standing.holding.current, standing.holding.lineage) }
  /-- The context is done. -/
  | interrupted {pass : Pass} {cause : Interruption}
      (turn : pipeline.passes[standing.index]? = some pass)
      (ended : standing.context.now = some cause) :
      Stops pipeline standing
        { events := standing.events ++ [.moved ⟨standing.index, pass.name, .failed⟩]
          statistics := standing.statistics
          context := standing.context.later
          holding := some standing.holding
          outcome := .error (.interrupted cause) }
  /-- The pass in turn lacks a prerequisite. -/
  | unprepared {pass : Pass}
      (turn : pipeline.passes[standing.index]? = some pass)
      (live : standing.context.now = none)
      (lacking : ¬ pass.Prepared standing.holding.current) :
      Stops pipeline standing
        { events := standing.events ++
            [.moved ⟨standing.index, pass.name, .validating⟩,
              .moved ⟨standing.index, pass.name, .failed⟩,
              .reported pass.name (.several (pass.unmetPrerequisites standing.holding.current))]
          statistics := standing.statistics
          context := standing.context.later
          holding := some standing.holding
          outcome := .error (.within (.pass pass.name)
            (.several (pass.unmetPrerequisites standing.holding.current))) }
  /-- The pass in turn was applied, and what it did is not accepted. -/
  | rejected {pass : Pass} {fault : Fault}
      (turn : pipeline.passes[standing.index]? = some pass)
      (live : standing.context.now = none)
      (prepared : pass.Prepared standing.holding.current)
      (objection : pass.objection pipeline.verify (pass.apply standing.holding.current)
        (standing.advance pass).holding.current = some fault) :
      Stops pipeline standing
        { events := standing.events ++
            [.moved ⟨standing.index, pass.name, .validating⟩,
              .moved ⟨standing.index, pass.name, .applying⟩,
              .applied standing.index standing.holding.current,
              .moved ⟨standing.index, pass.name, .failed⟩, .reported pass.name fault]
          statistics := standing.statistics
          context := (standing.advance pass).context
          holding := some (standing.advance pass).holding
          outcome := .error (.within (.pass pass.name) fault) }

/-! ## Going on from a standing -/

variable {pipeline : Pipeline} {standing : Standing} {pass : Pass}

/-- The pass in turn is the first one of those that are left. -/
theorem drop_of_turn (turn : pipeline.passes[standing.index]? = some pass) :
    pipeline.passes.drop standing.index = pass :: pipeline.passes.drop (standing.index + 1) := by
  obtain ⟨inside, rfl⟩ := List.getElem?_eq_some_iff.mp turn
  exact List.drop_eq_getElem_cons inside

/-- If the pass in turn succeeds, the run goes on from the next standing. -/
theorem goOn_advance {made : JobGraph} (turn : pipeline.passes[standing.index]? = some pass)
    (live : standing.context.now = none) (prepared : pass.Prepared standing.holding.current)
    (succeeds : pass.Succeeds pipeline.verify standing.holding.current made) :
    standing.goOn pipeline = (standing.advance pass).goOn pipeline := by
  have accepted := (pass.objection_none_iff pipeline.verify standing.holding).mpr ⟨made, succeeds⟩
  simp only [goOn, drop_of_turn turn, Pipeline.runFrom, live,
    pass.attempt_prepared pipeline.verify standing.index standing.holding prepared, accepted,
    advance, Run.preceded, List.append_assoc, List.cons_append, List.nil_append]

/-- A run without further passes stops, and is complete. -/
theorem stops_completed (atEnd : standing.index = pipeline.passes.length) :
    standing.Stops pipeline (standing.goOn pipeline) := by
  have nothing : pipeline.passes.drop standing.index = [] :=
    List.drop_of_length_le (Nat.le_of_eq atEnd.symm)
  simp only [goOn, nothing, Pipeline.runFrom, Run.preceded, List.append_nil]
  exact .completed atEnd

/-- A run whose context has ended reports that the pass in turn failed, and does nothing else. -/
theorem goOn_interrupted {cause : Interruption}
    (turn : pipeline.passes[standing.index]? = some pass)
    (ended : standing.context.now = some cause) :
    standing.goOn pipeline =
      { events := standing.events ++ [.moved ⟨standing.index, pass.name, .failed⟩]
        statistics := standing.statistics
        context := standing.context.later
        holding := some standing.holding
        outcome := .error (.interrupted cause) } := by
  simp only [goOn, drop_of_turn turn, Pipeline.runFrom, ended, Run.preceded]

/-- A run stops at a pass for which the graph is not prepared. -/
theorem stops_unprepared (turn : pipeline.passes[standing.index]? = some pass)
    (live : standing.context.now = none) (lacking : ¬ pass.Prepared standing.holding.current) :
    standing.Stops pipeline (standing.goOn pipeline) := by
  simp only [goOn, drop_of_turn turn, Pipeline.runFrom, live,
    pass.attempt_unprepared pipeline.verify standing.index standing.holding lacking,
    Run.preceded, List.cons_append, List.nil_append, Bool.false_eq_true, if_false]
  exact .unprepared turn live lacking

/-- A run stops at a pass whose graph the pipeline objects to. -/
theorem stops_rejected (turn : pipeline.passes[standing.index]? = some pass)
    (live : standing.context.now = none) (prepared : pass.Prepared standing.holding.current)
    (failing : ¬ ∃ made, pass.Succeeds pipeline.verify standing.holding.current made) :
    standing.Stops pipeline (standing.goOn pipeline) := by
  rw [← pass.objection_none_iff pipeline.verify standing.holding] at failing
  obtain ⟨fault, objection⟩ := Option.ne_none_iff_exists'.mp failing
  simp only [goOn, drop_of_turn turn, Pipeline.runFrom, live,
    pass.attempt_prepared pipeline.verify standing.index standing.holding prepared, objection,
    Run.preceded, List.cons_append, List.nil_append]
  exact .rejected turn live prepared objection

end Standing

namespace Pipeline.ComesTo

variable {pipeline : Pipeline} {context : Context} {statistics : Statistics}
  {given : Option JobGraph} {standing : Standing}

/-- Standings are in front of a pass, or behind the last one. -/
theorem index_le (came : pipeline.ComesTo context statistics given standing) :
    standing.index ≤ pipeline.passes.length := by
  cases came with
  | start isGiven valid => exact Nat.zero_le _
  | next came turn live prepared succeeds =>
      obtain ⟨inside, _⟩ := List.getElem?_eq_some_iff.mp turn
      exact inside

/-- A run goes on from every standing that it comes to. -/
theorem run_eq (came : pipeline.ComesTo context statistics given standing) :
    pipeline.run context statistics given = standing.goOn pipeline := by
  induction came with
  | start isGiven valid =>
      simp only [run, isGiven, valid, Standing.goOn, Standing.start, List.drop_zero]
  | next came turn live prepared succeeds inductionHypothesis =>
      rw [inductionHypothesis, Standing.goOn_advance turn live prepared succeeds]

/-- From a standing that a run comes to it comes to one where it stops. -/
theorem stops (came : pipeline.ComesTo context statistics given standing) :
    ∃ last, pipeline.ComesTo context statistics given last ∧
      last.Stops pipeline (pipeline.run context statistics given) := by
  -- by induction on the number of passes left
  generalize left : pipeline.passes.length - standing.index = count
  induction count generalizing standing with
  | zero =>
      have atEnd : standing.index = pipeline.passes.length := by
        have bound := came.index_le
        omega
      exact ⟨standing, came, came.run_eq ▸ Standing.stops_completed atEnd⟩
  | succ count inductionHypothesis =>
      obtain ⟨pass, turn⟩ : ∃ pass, pipeline.passes[standing.index]? = some pass :=
        ⟨_, List.getElem?_eq_getElem (by omega)⟩
      cases look : standing.context.now with
      | some cause =>
          refine ⟨standing, came, ?_⟩
          rw [came.run_eq, Standing.goOn_interrupted turn look]
          exact .interrupted turn look
      | none =>
          by_cases prepared : pass.Prepared standing.holding.current
          · by_cases succeeds : ∃ made,
                pass.Succeeds pipeline.verify standing.holding.current made
            · obtain ⟨made, succeeds⟩ := succeeds
              refine inductionHypothesis (came.next turn look prepared succeeds) ?_
              simp only [Standing.advance]
              omega
            · exact ⟨standing, came,
                came.run_eq ▸ Standing.stops_rejected turn look prepared succeeds⟩
          · exact ⟨standing, came, came.run_eq ▸ Standing.stops_unprepared turn look prepared⟩

/-- A run comes to a standing only if the graph given is valid. -/
theorem given_valid (came : pipeline.ComesTo context statistics given standing) :
    validate? given = .ok () := by
  induction came with
  | start isGiven valid => rw [isGiven, validate?, valid]
  | next _ _ _ _ _ inductionHypothesis => exact inductionHypothesis

end Pipeline.ComesTo

/-- What is left of a run that refuses the graph given. -/
def Pipeline.refused (pipeline : Pipeline) (context : Context) (statistics : Statistics)
    (given : Option JobGraph) (fault : Fault) : Run where
  events := pendings pipeline.passes
  statistics := statistics.start pipeline.passes.length
  context := context
  holding := given.map .start
  outcome := .error (.within .inputGraph fault)

/-- An invalid graph is refused before any pass. -/
theorem Pipeline.run_refused {given : Option JobGraph} {fault : Fault} (pipeline : Pipeline)
    (context : Context) (statistics : Statistics) (invalid : validate? given = .error fault) :
    pipeline.run context statistics given = pipeline.refused context statistics given fault := by
  cases given with
  | none =>
      cases invalid
      rfl
  | some graph =>
      have refusal : graph.validate = .error fault := invalid
      simp only [run, refusal, refused]

/-- A run refuses the graph given, or it comes to a standing where it stops. -/
theorem Pipeline.run_cases (pipeline : Pipeline) (context : Context) (statistics : Statistics)
    (given : Option JobGraph) :
    (∃ fault, validate? given = .error fault) ∨
      ∃ last, pipeline.ComesTo context statistics given last ∧
        last.Stops pipeline (pipeline.run context statistics given) := by
  cases given with
  | none => exact Or.inl ⟨_, rfl⟩
  | some graph =>
      cases validity : graph.validate with
      | error fault => exact Or.inl ⟨fault, validity⟩
      | ok _ => exact Or.inr (ComesTo.start rfl validity).stops

/-! ## Reports and applications -/

/-- The index and the state that a transition tells of. -/
def Transition.report (transition : Transition) : Nat × PassState :=
  (transition.index, transition.state)

namespace Event

/-- The pass that was applied, by index, and the graph that it was applied to. -/
def application? : Event → Option (Nat × JobGraph)
  | applied index graph => some (index, graph)
  | _ => none

/-- The indices and states that an observer of events is told, in order. -/
def reports (events : List Event) : List (Nat × PassState) :=
  (events.filterMap transition?).map Transition.report

/-- The applications of passes among events, in order. -/
def applications (events : List Event) : List (Nat × JobGraph) :=
  events.filterMap application?

/-- What events in two parts tell is what the first part tells and then what the second one does. -/
theorem reports_append (front back : List Event) :
    reports (front ++ back) = reports front ++ reports back := by
  simp [reports]

/-- The applications among events in two parts are those of the first and then those of the
second. -/
theorem applications_append (front back : List Event) :
    applications (front ++ back) = applications front ++ applications back := by
  simp [applications]

end Event

namespace Run

/-- What an observer of the run is told. -/
def reports (run : Run) : List (Nat × PassState) :=
  Event.reports run.events

/-- The applications of passes in the run. -/
def applications (run : Run) : List (Nat × JobGraph) :=
  Event.applications run.events

end Run

namespace Pipeline

/-- What is told when a number of passes wait for their turns. -/
def announcements (count : Nat) : List (Nat × PassState) :=
  (List.range count).map fun index => (index, .pending)

/-- What is told of a number of passes which went through all their states. -/
def rounds (count : Nat) : List (Nat × PassState) :=
  (List.range count).flatMap fun index => [(index, .validating), (index, .applying), (index, .done)]

/-- At the start all passes are told to wait for their turns. -/
theorem pendings_reports (passes : List Pass) :
    Event.reports (pendings passes) = announcements passes.length := by
  have told : ∀ (listed : List Pass) (offset : Nat),
      Event.reports (listed.mapIdx fun index pass =>
        .moved ⟨index + offset, pass.name, .pending⟩) =
          (List.range listed.length).map fun index => (index + offset, .pending) := by
    intro listed
    induction listed with
    | nil => exact fun _ => rfl
    | cons pass rest inductionHypothesis =>
        intro offset
        have later := inductionHypothesis (offset + 1)
        simp only [Event.reports] at later ⊢
        simp [List.mapIdx_cons, List.range_succ_eq_map, Event.transition?, Transition.report, later,
          Nat.add_assoc, Nat.add_comm 1]
  exact told passes 0

/-- Announcing passes applies none. -/
theorem pendings_applications (passes : List Pass) :
    Event.applications (pendings passes) = [] := by
  simp only [Event.applications, List.filterMap_eq_nil_iff]
  intro event member
  obtain ⟨index, inside, rfl⟩ := List.mem_mapIdx.mp member
  rfl

/-- One more pass goes through its three states behind the others. -/
theorem rounds_succ (count : Nat) :
    rounds (count + 1) =
      rounds count ++ [(count, .validating), (count, .applying), (count, .done)] := by
  simp [rounds, List.range_succ]

/-- Exactly the passes of the pipeline are announced, as pending. -/
theorem mem_announcements_iff (count index : Nat) (state : PassState) :
    (index, state) ∈ announcements count ↔ index < count ∧ state = .pending := by
  constructor
  · intro member
    obtain ⟨_, inside, same⟩ := List.mem_map.mp member
    obtain ⟨rfl, rfl⟩ := Prod.mk.inj same
    exact ⟨List.mem_range.mp inside, rfl⟩
  · rintro ⟨inside, rfl⟩
    exact List.mem_map.mpr ⟨index, List.mem_range.mpr inside, rfl⟩

/-- Exactly the finished passes have gone through the three states. -/
theorem mem_rounds_iff (count index : Nat) (state : PassState) :
    (index, state) ∈ rounds count ↔
      index < count ∧ (state = .validating ∨ state = .applying ∨ state = .done) := by
  simp only [rounds, List.mem_flatMap, List.mem_range, List.mem_cons, Prod.mk.injEq,
    List.not_mem_nil, or_false]
  constructor
  · rintro ⟨_, inside, ⟨rfl, states⟩ | ⟨rfl, states⟩ | ⟨rfl, states⟩⟩
    · exact ⟨inside, Or.inl states⟩
    · exact ⟨inside, Or.inr (Or.inl states)⟩
    · exact ⟨inside, Or.inr (Or.inr states)⟩
  · rintro ⟨inside, states⟩
    exact ⟨index, inside, by simpa using states⟩

/-- What is told when some passes have finished and the next one has gone through some states. -/
theorem mem_told_iff (count finished index : Nat) (states : List PassState) (state : PassState) :
    (index, state) ∈ announcements count ++ rounds finished ++ states.map (finished, ·) ↔
      (index < count ∧ state = .pending) ∨
        (index < finished ∧ (state = .validating ∨ state = .applying ∨ state = .done)) ∨
          (index = finished ∧ state ∈ states) := by
  simp only [List.mem_append, mem_announcements_iff, mem_rounds_iff, or_assoc, List.mem_map,
    Prod.mk.injEq, exists_eq_right_right]
  simp only [and_comm, eq_comm]

namespace ComesTo

variable {pipeline : Pipeline} {context : Context} {statistics : Statistics}
  {given : Option JobGraph} {standing : Standing}

/-- On the way to a standing all passes were announced, and those before it went through all their
states. -/
theorem reports_eq (came : pipeline.ComesTo context statistics given standing) :
    Event.reports standing.events =
      announcements pipeline.passes.length ++ rounds standing.index := by
  induction came with
  | start isGiven valid =>
      simpa [Standing.start, rounds] using pendings_reports pipeline.passes
  | next came turn live prepared succeeds inductionHypothesis =>
      simp only [Standing.advance, Event.reports_append, inductionHypothesis, rounds_succ,
        List.append_assoc]
      rfl

/-- On the way to a standing the passes before it were applied, in order. -/
theorem applications_eq (came : pipeline.ComesTo context statistics given standing) :
    (Event.applications standing.events).map Prod.fst = List.range standing.index := by
  induction came with
  | start isGiven valid => simp [Standing.start, pendings_applications]
  | next came turn live prepared succeeds inductionHypothesis =>
      simp only [Standing.advance, Event.applications_append, List.map_append, inductionHypothesis,
        List.range_succ]
      rfl

/-- A run that comes to a pass under a context that is done stops there, with the error of the
context. -/
theorem interruption {cause : Interruption}
    (came : pipeline.ComesTo context statistics given standing)
    (inside : standing.index < pipeline.passes.length)
    (ended : standing.context.now = some cause) :
    (standing.index, .failed) ∈ (pipeline.run context statistics given).reports ∧
      (pipeline.run context statistics given).outcome = .error (.interrupted cause) := by
  have turn := List.getElem?_eq_getElem inside
  rw [came.run_eq, Standing.goOn_interrupted turn ended]
  refine ⟨?_, rfl⟩
  rw [Run.reports, Event.reports_append]
  exact List.mem_append_right _ (List.mem_singleton.mpr rfl)

end ComesTo

/-- The states in which the pass that ends a run may have been. -/
def failures : List (List PassState) :=
  [[.failed], [.validating, .failed], [.validating, .applying, .failed]]

/-- A run in which the passes before an index have finished, and the pass of that index has gone
through the states given. -/
structure Course (pipeline : Pipeline) (context : Context) (statistics : Statistics)
    (given : Option JobGraph) (run : Run) (finished : Nat) (states : List PassState) : Prop where
  told : run.reports =
    announcements pipeline.passes.length ++ rounds finished ++ states.map (finished, ·)
  bounded : finished ≤ pipeline.passes.length
  ending : states = [] ∨ finished < pipeline.passes.length ∧ states ∈ failures
  success : (∃ result, run.outcome = .ok result) ↔
    validate? given = .ok () ∧ finished = pipeline.passes.length
  /-- A pass fails at once exactly if the error is that of the context. -/
  atOnce : states = [.failed] ↔ ∃ cause, run.outcome = .error (.interrupted cause)
  looked : states = [.failed] → ∃ standing cause,
    pipeline.ComesTo context statistics given standing ∧ standing.index = finished ∧
      standing.context.now = some cause
  applied : run.applications.map Prod.fst =
    List.range (if .applying ∈ states then finished + 1 else finished)

namespace ComesTo

variable {pipeline : Pipeline} {context : Context} {statistics : Statistics}
  {given : Option JobGraph} {standing : Standing} {run : Run}

/-- The course of a run in which the pass in turn fails. -/
theorem failed_course {tail : List Event} {states : List PassState} {fault : Fault}
    (came : pipeline.ComesTo context statistics given standing)
    (inside : standing.index < pipeline.passes.length) (listed : states ∈ failures)
    (events : run.events = standing.events ++ tail) (outcome : run.outcome = .error fault)
    (told : Event.reports tail = states.map (standing.index, ·))
    (applied : (Event.applications tail).map Prod.fst =
      if .applying ∈ states then [standing.index] else [])
    (atOnce : states = [.failed] ↔ ∃ cause, fault = .interrupted cause)
    (looked : states = [.failed] → ∃ cause, standing.context.now = some cause) :
    pipeline.Course context statistics given run standing.index states where
  told := by rw [Run.reports, events, Event.reports_append, came.reports_eq, told]
  bounded := came.index_le
  ending := Or.inr ⟨inside, listed⟩
  success := by
    have short : standing.index ≠ pipeline.passes.length := Nat.ne_of_lt inside
    simp [outcome, short]
  atOnce := by simpa [outcome] using atOnce
  looked alone := by
    obtain ⟨cause, ended⟩ := looked alone
    exact ⟨standing, cause, came, rfl, ended⟩
  applied := by
    rw [Run.applications, events, Event.applications_append, List.map_append, came.applications_eq,
      applied]
    split
    · exact List.range_succ.symm
    · exact List.append_nil _

/-- The course of a run that stops at a standing. -/
theorem course (came : pipeline.ComesTo context statistics given standing)
    (stops : standing.Stops pipeline run) :
    ∃ states, pipeline.Course context statistics given run standing.index states := by
  cases stops with
  | completed atEnd =>
      exact ⟨[], {
        told := by simp [Run.reports, came.reports_eq]
        bounded := came.index_le
        ending := Or.inl rfl
        success := by simp [came.given_valid, atEnd]
        atOnce := by simp
        looked := by simp
        applied := by simpa [Run.applications] using came.applications_eq }⟩
  | @interrupted pass cause turn ended =>
      obtain ⟨inside, _⟩ := List.getElem?_eq_some_iff.mp turn
      exact ⟨[.failed], came.failed_course inside (by decide) rfl rfl rfl rfl
        ⟨fun _ => ⟨cause, rfl⟩, fun _ => rfl⟩ fun _ => ⟨cause, ended⟩⟩
  | unprepared turn live lacking =>
      obtain ⟨inside, _⟩ := List.getElem?_eq_some_iff.mp turn
      exact ⟨[.validating, .failed],
        came.failed_course inside (by decide) rfl rfl rfl rfl (by simp) (by simp)⟩
  | rejected turn live prepared objection =>
      obtain ⟨inside, _⟩ := List.getElem?_eq_some_iff.mp turn
      exact ⟨[.validating, .applying, .failed],
        came.failed_course inside (by decide) rfl rfl rfl rfl (by simp) (by simp)⟩

end ComesTo

/-- Every run takes such a course. -/
theorem exists_course (pipeline : Pipeline) (context : Context) (statistics : Statistics)
    (given : Option JobGraph) :
    ∃ finished states, pipeline.Course context statistics given
      (pipeline.run context statistics given) finished states := by
  obtain ⟨fault, invalid⟩ | ⟨last, came, stops⟩ := pipeline.run_cases context statistics given
  · refine ⟨0, [], ?_⟩
    rw [pipeline.run_refused context statistics invalid]
    exact {
      told := by simp [refused, Run.reports, pendings_reports, rounds]
      bounded := Nat.zero_le _
      ending := Or.inl rfl
      success := by simp [refused, invalid]
      atOnce := by simp [refused]
      looked := by simp
      applied := by simp [refused, Run.applications, pendings_applications] }
  · exact ⟨last.index, came.course stops⟩

namespace Course

variable {pipeline : Pipeline} {context : Context} {statistics : Statistics}
  {given : Option JobGraph} {finished : Nat} {states : List PassState}

/-- The passes applied are those reported as applying. -/
theorem applied_iff {run : Run}
    (course : pipeline.Course context statistics given run finished states) (index : Nat) :
    index ∈ run.applications.map Prod.fst ↔ (index, .applying) ∈ run.reports := by
  rw [course.applied, course.told, mem_told_iff, List.mem_range]
  by_cases applying : .applying ∈ states
  · rw [if_pos applying, Nat.lt_succ_iff_lt_or_eq]
    simp [applying]
  · simp [applying]

/-- A context that is done is seen by the first pass that has not finished. -/
theorem stopped (course : pipeline.Course context statistics given
      (pipeline.run context statistics given) finished states)
    {standing : Standing} {cause : Interruption}
    (came : pipeline.ComesTo context statistics given standing)
    (inside : standing.index < pipeline.passes.length)
    (ended : standing.context.now = some cause) :
    standing.index = finished ∧
      (pipeline.run context statistics given).outcome = .error (.interrupted cause) := by
  obtain ⟨failed, outcome⟩ := came.interruption inside ended
  rw [course.told, mem_told_iff] at failed
  have place : standing.index = finished ∧ .failed ∈ states := by simpa using failed
  exact ⟨place.1, outcome⟩

/-- The pass that ends a run fails at once exactly if the run sees there that its context is
done. -/
theorem lone_iff (course : pipeline.Course context statistics given
      (pipeline.run context statistics given) finished states) :
    states = [.failed] ↔
      ∃ standing cause, pipeline.ComesTo context statistics given standing ∧
        standing.index = finished ∧ finished < pipeline.passes.length ∧
        standing.context.now = some cause := by
  constructor
  · intro alone
    obtain ⟨standing, cause, came, place, ended⟩ := course.looked alone
    obtain nothing | ⟨inside, _⟩ := course.ending
    · simp [alone] at nothing
    · exact ⟨standing, cause, came, place, inside, ended⟩
  · rintro ⟨standing, cause, came, place, inside, ended⟩
    exact course.atOnce.mpr ⟨cause, (course.stopped came (place ▸ inside) ended).2⟩

end Course

/-- The reports of every run take one course: all passes are announced, some go through all their
states, and then the run is over or the next pass fails. The run has a result exactly if the graph
given is valid and all passes went through. The next pass fails at once exactly if the run has come
to it and sees there that its context is done, and then the error is that of the context. A graph
that is not valid is refused before the first pass. The passes which are applied are those reported
as applying, each once and in order. -/
theorem run_course (pipeline : Pipeline) (context : Context) (statistics : Statistics)
    (given : Option JobGraph) :
    let run := pipeline.run context statistics given
    let count := pipeline.passes.length
    (∃ finished states,
      run.reports = announcements count ++ rounds finished ++ states.map (finished, ·) ∧
      finished ≤ count ∧
      (states = [] ∨ finished < count ∧ states ∈ failures) ∧
      ((∃ result, run.outcome = .ok result) ↔ validate? given = .ok () ∧ finished = count) ∧
      (states = [.failed] ↔
        ∃ standing cause, pipeline.ComesTo context statistics given standing ∧
          standing.index = finished ∧ finished < count ∧ standing.context.now = some cause) ∧
      ∀ standing cause, pipeline.ComesTo context statistics given standing →
        standing.index < count → standing.context.now = some cause →
          standing.index = finished ∧ run.outcome = .error (.interrupted cause)) ∧
    (∀ fault, validate? given = .error fault →
      run.reports = announcements count ∧ run.outcome = .error (.within .inputGraph fault)) ∧
    (run.applications.map Prod.fst).Pairwise (· < ·) ∧
    ∀ index, index ∈ run.applications.map Prod.fst ↔ (index, .applying) ∈ run.reports := by
  intro run count
  obtain ⟨finished, states, course⟩ := pipeline.exists_course context statistics given
  refine ⟨⟨finished, states, course.told, course.bounded, course.ending, course.success,
    course.lone_iff, fun _ _ => course.stopped⟩, ?_, ?_, course.applied_iff⟩
  · intro fault invalid
    have refusal : run = pipeline.refused context statistics given fault :=
      pipeline.run_refused context statistics invalid
    rw [refusal]
    exact ⟨pendings_reports pipeline.passes, rfl⟩
  · rw [course.applied]
    exact List.pairwise_lt_range

end Pipeline

/-- A pass which does nothing but cancel the context. -/
def withdrawing : Pass where
  name := "withdrawing"
  produces := .parallelism
  prerequisites := []
  visits := none
  promises := none
  apply graph := ⟨graph, .same, true⟩

/-- Two passes, the first of which cancels the context before the second one has its turn. -/
def withdrawnPipeline : Pipeline := ⟨[withdrawing, withdrawing], false⟩

/-- The first pass is done and has canceled the context, so the second one fails before anything
else is told of it. -/
theorem withdrawnPipeline_course :
    let run := withdrawnPipeline.run .live .fresh (some ⟨[], [], [], [], []⟩)
    (1, .failed) ∈ run.reports ∧ (1, .validating) ∉ run.reports ∧
      ∃ standing cause,
        withdrawnPipeline.ComesTo .live .fresh (some ⟨[], [], [], [], []⟩) standing ∧
          standing.index = 1 ∧ standing.context.now = some cause := by
  intro run
  have failed : (1, .failed) ∈ run.reports := by decide +kernel
  have unchecked : (1, .validating) ∉ run.reports := by decide +kernel
  obtain ⟨⟨finished, states, (told : run.reports = _), _, ending, _, alone, _⟩, _⟩ :=
    withdrawnPipeline.run_course .live .fresh (some ⟨[], [], [], [], []⟩)
  have states_iff : ∀ state, (1, state) ∈ run.reports ↔ _ :=
    fun state => told ▸ Pipeline.mem_told_iff _ finished 1 states state
  obtain ⟨rfl, fails⟩ : 1 = finished ∧ .failed ∈ states := by
    simpa using (states_iff .failed).mp failed
  have first : .validating ∉ states := by
    intro validating
    exact unchecked ((states_iff .validating).mpr (Or.inr (Or.inr ⟨rfl, validating⟩)))
  have atOnce : ∀ listed ∈ Pipeline.failures, .validating ∉ listed → listed = [.failed] := by
    decide
  have lone : states = [.failed] := by
    obtain rfl | ⟨_, listed⟩ := ending
    · cases fails
    · exact atOnce states listed first
  obtain ⟨standing, cause, came, index, _, ended⟩ := alone.mp lone
  exact ⟨failed, unchecked, standing, cause, came, index, ended⟩

end Flowplan
