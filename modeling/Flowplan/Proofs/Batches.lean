import Flowplan.Compiler.Batch
import Flowplan.Proofs.Compilations

/-!
# Batches, step by step

Whatever the schedule, a batch goes on by three kinds of steps: a job starts, a job draws an
identity, a job ends (`Batch.Step`). A run is a sequence of such steps, with the identities that
were issued on the way (`Batch.Reaches`), and after it every job has come to its end.
-/

namespace Flowplan

/-! ## Identities issued -/

/-- An identity issued in a batch, with the index of the job that drew it. -/
structure Issue where
  job : Nat
  answer : Namespace × String

namespace Issue

/-- The answers that the job at an index was given. -/
def answersOf (index : Nat) (issues : List Issue) : List (Namespace × String) :=
  (issues.filter fun issue => issue.job = index).map answer

/-- What a job was given in two parts is what it was given in the first and then in the second. -/
theorem answersOf_append (index : Nat) (issues issued : List Issue) :
    answersOf index (issues ++ issued) = answersOf index issues ++ answersOf index issued := by
  rw [answersOf, List.filter_append, List.map_append]
  rfl

/-- An identity that a job drew is given to it. -/
theorem answersOf_own (index : Nat) (answer : Namespace × String) :
    answersOf index [⟨index, answer⟩] = [answer] := by
  simp [answersOf]

/-- An identity that a job drew is not given to another one. -/
theorem answersOf_other {index other : Nat} (different : other ≠ index)
    (answer : Namespace × String) : answersOf other [⟨index, answer⟩] = [] := by
  simp [answersOf, different.symm]

/-- A job is given some of all the answers. -/
theorem answersOf_sublist (index : Nat) (issues : List Issue) :
    (answersOf index issues).Sublist (issues.map answer) :=
  List.filter_sublist.map answer

end Issue

/-- The answers that a drawing gets from one source. -/
def Drawing.answers {α : Type} : Drawing α → Source → List (Namespace × String)
  | done _, _ => []
  | draw ns next, source =>
      (ns, (source.draw ns).1) :: (next (source.draw ns).1).answers (source.draw ns).2

namespace Batch

/-- What is issued when the job at an index has its turn. -/
def issuedInTurn (batch : Batch) (index : Nat) : List Issue :=
  match batch.jobs[index]? with
  | some (.drawing (.draw ns _)) => [⟨index, ns, (batch.source.draw ns).1⟩]
  | _ => []

/-- What is issued when a job on the way is worked off. -/
def issuedInDrain (batch : Batch) (index : Nat) : List Issue :=
  match batch.jobs[index]? with
  | some (.drawing rest) => (rest.answers batch.source).map (Issue.mk index)
  | _ => []

/-- What is issued when all that is left of a job is worked off. -/
def issuedInSettle (compiler : Compiler) (batch : Batch) (index : Nat) : List Issue :=
  match batch.jobs[index]? with
  | some (.waiting number) => (batch.begin compiler index number).issuedInDrain index
  | _ => batch.issuedInDrain index

/-- What is issued when jobs are given turns of some sort, one after another. -/
def issuedAlong (turn : Batch → Nat → Batch) (issued : Batch → Nat → List Issue) :
    List Nat → Batch → List Issue
  | [], _ => []
  | index :: rest, batch => issued batch index ++ issuedAlong turn issued rest (turn batch index)

/-- What is issued in a run. -/
def issues (compiler : Compiler) (schedule : Schedule) (batch : Batch) : List Issue :=
  issuedAlong (turn compiler) issuedInTurn schedule batch ++
    issuedAlong (settle compiler) (issuedInSettle compiler) (List.range batch.jobs.length)
      (schedule.foldl (turn compiler) batch)

/-! ## Steps -/

/-- The batch after a draw of the job at an index. -/
def answered (batch : Batch) (index : Nat) (ns : Namespace) (next : String → Drawing Compilation) :
    Batch :=
  { batch with
    source := (batch.source.draw ns).2
    jobs := batch.jobs.set index (.drawing (next (batch.source.draw ns).1)) }

/-- One step of one job, with what is issued in it. -/
inductive Step (compiler : Compiler) (batch : Batch) : List Issue → Batch → Prop
  | begins {index number : Nat} (waits : batch.jobs[index]? = some (.waiting number)) :
      Step compiler batch [] (batch.begin compiler index number)
  | draws {index : Nat} {ns : Namespace} {next : String → Drawing Compilation}
      (asks : batch.jobs[index]? = some (.drawing (.draw ns next))) :
      Step compiler batch [⟨index, ns, (batch.source.draw ns).1⟩] (batch.answered index ns next)
  | ends {index : Nat} {compilation : Compilation}
      (done : batch.jobs[index]? = some (.drawing (.done compilation))) :
      Step compiler batch [] (batch.conclude index compilation)

/-- A batch reaches another one by steps, in which the given identities are issued. -/
inductive Reaches (compiler : Compiler) (batch : Batch) : List Issue → Batch → Prop
  | start : Reaches compiler batch [] batch
  | step {issues issued : List Issue} {middle after : Batch}
      (reached : Reaches compiler batch issues middle) (step : middle.Step compiler issued after) :
      Reaches compiler batch (issues ++ issued) after

variable {compiler : Compiler} {batch after : Batch} {issued : List Issue}

/-- One step reaches the batch it leads to. -/
theorem Step.reaches (step : batch.Step compiler issued after) :
    batch.Reaches compiler issued after :=
  .step .start step

/-- Steps that follow steps reach further, and issue what both issued. -/
theorem Reaches.trans {issues : List Issue} {middle : Batch}
    (first : batch.Reaches compiler issues middle) (second : middle.Reaches compiler issued after) :
    batch.Reaches compiler (issues ++ issued) after := by
  induction second with
  | start => simpa using first
  | step _ step inductionHypothesis => simpa using inductionHypothesis.step step

/-! ## Runs are made of steps -/

/-- A turn of a job consists of steps. -/
theorem turn_reaches (compiler : Compiler) (batch : Batch) (index : Nat) :
    batch.Reaches compiler (batch.issuedInTurn index) (batch.turn compiler index) := by
  unfold turn issuedInTurn
  cases stands : batch.jobs[index]? with
  | none => exact .start
  | some job =>
      cases job with
      | waiting number =>
          dsimp only
          split
          · exact (Step.begins stands).reaches
          · exact .start
      | drawing rest =>
          cases rest with
          | done compilation => exact (Step.ends stands).reaches
          | draw ns next => exact (Step.draws stands).reaches
      | compiled plan => exact .start
      | failed => exact .start

/-- How a job stood does not matter for the batch after its end. -/
theorem conclude_answered (batch : Batch) (index : Nat) (ns : Namespace)
    (next : String → Drawing Compilation) (source : Source) (compilation : Compilation) :
    { batch.answered index ns next with source := source }.conclude index compilation =
      { batch with source := source }.conclude index compilation := by
  unfold conclude answered
  cases compilation.outcome with
  | ok plan => simp only [List.set_set]
  | error fault => simp only [List.set_set]

/-- A job on the way is worked off by steps. -/
theorem drain_reaches_of_drawing (compiler : Compiler) {batch : Batch} {index : Nat}
    {rest : Drawing Compilation} (stands : batch.jobs[index]? = some (.drawing rest)) :
    batch.Reaches compiler ((rest.answers batch.source).map (Issue.mk index))
      ({ batch with source := (rest.run batch.source).2 }.conclude index
        (rest.run batch.source).1) := by
  induction rest generalizing batch with
  | done compilation => exact (Step.ends stands).reaches
  | draw ns next inductionHypothesis =>
      obtain ⟨inside, _⟩ := List.getElem?_eq_some_iff.mp stands
      have standsNext : (batch.answered index ns next).jobs[index]? =
          some (.drawing (next (batch.source.draw ns).1)) :=
        List.getElem?_set_self inside
      have onward := inductionHypothesis _ standsNext
      rw [conclude_answered] at onward
      exact (Step.draws stands).reaches.trans onward

/-- A job on its way is worked off by steps. -/
theorem drain_reaches (compiler : Compiler) (batch : Batch) (index : Nat) :
    batch.Reaches compiler (batch.issuedInDrain index) (batch.drain index) := by
  unfold drain issuedInDrain
  cases stands : batch.jobs[index]? with
  | none => exact .start
  | some job =>
      cases job with
      | waiting number => exact .start
      | drawing rest => exact drain_reaches_of_drawing compiler stands
      | compiled plan => exact .start
      | failed => exact .start

/-- Whatever is left of a job is worked off by steps. -/
theorem settle_reaches (compiler : Compiler) (batch : Batch) (index : Nat) :
    batch.Reaches compiler (batch.issuedInSettle compiler index) (batch.settle compiler index) := by
  have drained := drain_reaches compiler batch index
  unfold settle issuedInSettle
  cases stands : batch.jobs[index]? with
  | none => exact drained
  | some job =>
      cases job with
      | waiting number =>
          exact (Step.begins stands).reaches.trans (drain_reaches compiler _ index)
      | drawing rest => exact drained
      | compiled plan => exact drained
      | failed => exact drained

/-- Turns one after another consist of steps if every single turn does. -/
theorem along_reaches {turn : Batch → Nat → Batch} {issued : Batch → Nat → List Issue}
    (reaches : ∀ (batch : Batch) (index : Nat),
      batch.Reaches compiler (issued batch index) (turn batch index))
    (indices : List Nat) (batch : Batch) :
    batch.Reaches compiler (issuedAlong turn issued indices batch) (indices.foldl turn batch) := by
  induction indices generalizing batch with
  | nil => exact .start
  | cons index rest inductionHypothesis =>
      exact (reaches batch index).trans (inductionHypothesis (turn batch index))

/-- A run is a sequence of steps. -/
theorem run_reaches (compiler : Compiler) (schedule : Schedule) (batch : Batch) :
    batch.Reaches compiler (batch.issues compiler schedule) (batch.run compiler schedule) :=
  (along_reaches (turn_reaches compiler) schedule batch).trans
    (along_reaches (settle_reaches compiler) (List.range batch.jobs.length)
      (schedule.foldl (turn compiler) batch))

/-! ## The end of all jobs -/

end Batch

/-- Whether a job has come to its end. -/
def Job.isOver : Job → Bool
  | compiled _ => true
  | failed => true
  | _ => false

namespace Batch

/-- Concluding a job puts one that is over in its place, and touches no other job. -/
theorem conclude_jobs (batch : Batch) (index : Nat) (compilation : Compilation) :
    ∃ job : Job, job.isOver = true ∧
      (batch.conclude index compilation).jobs = batch.jobs.set index job := by
  unfold conclude
  cases compilation.outcome with
  | ok plan => exact ⟨.compiled plan, rfl, rfl⟩
  | error fault => exact ⟨.failed, rfl, rfl⟩

/-- No step adds a job or takes one away. -/
theorem Step.length_eq {compiler : Compiler} {batch after : Batch} {issued : List Issue}
    (step : batch.Step compiler issued after) : after.jobs.length = batch.jobs.length := by
  cases step with
  | begins waits => exact List.length_set
  | draws asks => exact List.length_set
  | ends done =>
      obtain ⟨job, _, jobs⟩ := batch.conclude_jobs _ _
      rw [jobs, List.length_set]

/-- Steps neither add nor remove jobs. -/
theorem Reaches.length_eq {compiler : Compiler} {batch after : Batch} {issues : List Issue}
    (reached : batch.Reaches compiler issues after) : after.jobs.length = batch.jobs.length := by
  induction reached with
  | start => rfl
  | step _ step inductionHypothesis => exact step.length_eq.trans inductionHypothesis

/-- Working off a job brings it to its end, and leaves the others where they are. -/
theorem drain_jobs (batch : Batch) (index : Nat)
    (started : ∀ number, batch.jobs[index]? ≠ some (.waiting number)) :
    (∀ job ∈ (batch.drain index).jobs[index]?, job.isOver = true) ∧
      ∀ other, other ≠ index → (batch.drain index).jobs[other]? = batch.jobs[other]? := by
  unfold drain
  cases stands : batch.jobs[index]? with
  | none => simp [stands]
  | some job =>
      cases job with
      | waiting number => exact absurd stands (started number)
      | drawing rest =>
          obtain ⟨inside, _⟩ := List.getElem?_eq_some_iff.mp stands
          obtain ⟨job, isOver, jobs⟩ := conclude_jobs
            { batch with source := (rest.run batch.source).2 } index (rest.run batch.source).1
          dsimp only at jobs ⊢
          rw [jobs, List.getElem?_set_self inside]
          constructor
          · rintro _ ⟨⟩
            exact isOver
          · intro other different
            exact List.getElem?_set_ne different.symm
      | compiled plan =>
          dsimp only
          rw [stands]
          exact ⟨by rintro _ ⟨⟩; rfl, fun _ _ => rfl⟩
      | failed =>
          dsimp only
          rw [stands]
          exact ⟨by rintro _ ⟨⟩; rfl, fun _ _ => rfl⟩

/-- A job that was settled is over, and all other jobs are as they were. -/
theorem settle_jobs (compiler : Compiler) (batch : Batch) (index : Nat) :
    (∀ job ∈ (batch.settle compiler index).jobs[index]?, job.isOver = true) ∧
      ∀ other, other ≠ index → (batch.settle compiler index).jobs[other]? = batch.jobs[other]? := by
  by_cases waits : ∃ number, batch.jobs[index]? = some (.waiting number)
  · obtain ⟨number, waits⟩ := waits
    obtain ⟨inside, _⟩ := List.getElem?_eq_some_iff.mp waits
    have begun : ∀ number', (batch.begin compiler index number).jobs[index]? ≠
        some (.waiting number') := by
      intro number'
      simp [begin, List.getElem?_set_self inside]
    have settled :
        batch.settle compiler index = (batch.begin compiler index number).drain index := by
      simp only [settle, waits]
    obtain ⟨isOver, others⟩ := drain_jobs _ index begun
    rw [settled]
    refine ⟨isOver, ?_⟩
    intro other different
    rw [others other different]
    exact List.getElem?_set_ne different.symm
  · have started : ∀ number, batch.jobs[index]? ≠ some (.waiting number) :=
      fun number stands => waits ⟨number, stands⟩
    have settled : batch.settle compiler index = batch.drain index := by
      unfold settle
      split
      next number stands => exact absurd stands (started number)
      next => rfl
    rw [settled]
    exact batch.drain_jobs index started

/-- After the jobs up to a place were worked off, all of them have come to their ends. -/
theorem settleAll_over (compiler : Compiler) (batch : Batch) (count : Nat) :
    ∀ index < count, ∀ job ∈ ((List.range count).foldl (settle compiler) batch).jobs[index]?,
      job.isOver = true := by
  induction count with
  | zero => exact fun index less => absurd less (Nat.not_lt_zero index)
  | succ count inductionHypothesis =>
      intro index less
      rw [List.range_succ, List.foldl_append, List.foldl_cons, List.foldl_nil]
      obtain ⟨isOver, others⟩ := settle_jobs compiler
        ((List.range count).foldl (settle compiler) batch) count
      by_cases last : index = count
      · exact last ▸ isOver
      · rw [others index last]
        exact inductionHypothesis index (by omega)

/-- All jobs have come to their ends after a run. -/
theorem run_over (compiler : Compiler) (schedule : Schedule) (batch : Batch) :
    ∀ job ∈ (batch.run compiler schedule).jobs, job.isOver = true := by
  intro job member
  obtain ⟨index, stands⟩ := List.mem_iff_getElem?.mp member
  obtain ⟨inside, _⟩ := List.getElem?_eq_some_iff.mp stands
  rw [(run_reaches compiler schedule batch).length_eq] at inside
  exact settleAll_over compiler _ _ index inside job stands

end Batch

end Flowplan
