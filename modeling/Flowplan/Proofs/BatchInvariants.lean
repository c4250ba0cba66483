import Flowplan.Proofs.Batches

/-!
# Batches as long as nothing fails

As long as nothing has failed, the context is live and every job stands where it would stand alone,
had it been given its share of the identities issued (`Batch.Proper`). It does not matter how the
shares are mixed, nor that the jobs before it have stored values: the graphs listed have no elements
in common (`Workspace.Apart`).

The first failure ends this, and it is the failure of a job that would fail alone as well
(`Batch.Fails`). From then on nothing is known about the jobs but that the batch fails
(`Batch.Lost`).
-/

namespace Flowplan

/-! ## Graphs apart from one another -/

namespace Workspace

/-- No graph listed has elements in common with what is listed at another place. -/
def Apart (workspace : Workspace) (numbers : List Nat) : Prop :=
  ∀ index other number otherNumber : Nat, index ≠ other → numbers[index]? = some number →
    numbers[other]? = some otherNumber → workspace.body? number = workspace.body? otherNumber →
      workspace.graph? otherNumber = none

/-- An update of a graph does not change which elements a number stands for. -/
theorem body?_update (workspace : Workspace) (number : Nat) (graph : Option JobGraph) :
    (workspace.update number graph).body? = workspace.body? := by
  funext other
  unfold update
  split <;> rfl

/-- Changing a graph changes no graph but those over the same elements. -/
theorem graph?_update {workspace : Workspace} {number other : Nat} (graph : Option JobGraph)
    (apart : workspace.body? number = workspace.body? other → workspace.graph? other = none) :
    (workspace.update number graph).graph? other = workspace.graph? other := by
  unfold update
  split
  next body changed holds =>
    change ((workspace.body? other).bind fun held => (workspace.bodies.set body changed)[held]?) =
      (workspace.body? other).bind fun held => workspace.bodies[held]?
    cases otherHolds : workspace.body? other with
    | none => rfl
    | some otherBody =>
        rw [Option.bind_some, Option.bind_some]
        by_cases same : body = otherBody
        · subst same
          have none : workspace.bodies[body]? = none := by
            have absent := apart (holds.trans otherHolds.symm)
            rwa [graph?, otherHolds, Option.bind_some] at absent
          rw [List.getElem?_set_self', none]
          rfl
        · exact List.getElem?_set_ne same
  next => rfl

end Workspace

/-! ## Jobs on their own -/

/-- A job for a number stands where it would stand alone under a live context, with the graph as it
was before and the given answers to its draws. -/
inductive Job.Goes (compiler : Compiler) (before now : Workspace) (number : Nat)
    (answers : List (Namespace × String)) : Job → Prop
  | waiting (untouched : now.graph? number = before.graph? number) (unanswered : answers = []) :
      Goes compiler before now number answers (.waiting number)
  | drawing {rest : Drawing Compilation}
      (came : (compiler.compile .live (before.graph? number)).Comes answers rest) :
      Goes compiler before now number answers (.drawing rest)
  | compiled {compilation : Compilation} {plan : Plan}
      (came : (compiler.compile .live (before.graph? number)).Comes answers (.done compilation))
      (succeeds : compilation.outcome = .ok plan) :
      Goes compiler before now number answers (.compiled plan)

namespace Batch

/-- A batch in which nothing has failed. -/
structure Proper (compiler : Compiler) (before : Workspace) (numbers : List Nat)
    (issues : List Issue) (batch : Batch) : Prop where
  live : batch.context = .live
  unfailed : batch.failure = none
  bodies : batch.workspace.body? = before.body?
  length_eq : batch.jobs.length = numbers.length
  goes : ∀ (index number : Nat) (job : Job), numbers[index]? = some number →
    batch.jobs[index]? = some job →
      job.Goes compiler before batch.workspace number (Issue.answersOf index issues)

/-- A batch that has failed, or with a job that has nothing left to do but to fail. -/
def Lost (batch : Batch) : Prop :=
  batch.failure.isSome = true ∨ ∃ (index : Nat) (compilation : Compilation) (fault : Fault),
    batch.jobs[index]? = some (.drawing (.done compilation)) ∧ compilation.outcome = .error fault

/-- One of the graphs listed cannot be compiled with some of the identities issued. -/
def Fails (compiler : Compiler) (before : Workspace) (numbers : List Nat) (issues : List Issue) :
    Prop :=
  ∃ number ∈ numbers, ∃ answers compilation fault,
    (compiler.compile .live (before.graph? number)).Comes answers (.done compilation) ∧
      answers.Sublist (issues.map Issue.answer) ∧ compilation.outcome = .error fault

variable {compiler : Compiler} {before : Workspace} {numbers : List Nat}
  {issues issued : List Issue} {batch after : Batch}

/-- A batch that starts under a live context is proper, as nothing has been done yet. -/
theorem start_proper (compiler : Compiler) (workspace : Workspace) (source : Source)
    (numbers : List Nat) :
    (start workspace .live source numbers).Proper compiler workspace numbers [] where
  live := rfl
  unfailed := rfl
  bodies := rfl
  length_eq := List.length_map _
  goes := by
    intro index number job listed stands
    simp only [start, List.getElem?_map, listed, Option.map_some, Option.some.injEq] at stands
    exact stands ▸ .waiting rfl rfl

/-! ## After the first failure -/

/-- A graph that cannot be compiled with some identities still cannot when more are issued. -/
theorem Fails.more (fails : Fails compiler before numbers issues) (issued : List Issue) :
    Fails compiler before numbers (issues ++ issued) := by
  obtain ⟨number, listed, answers, compilation, fault, came, given, failed⟩ := fails
  refine ⟨number, listed, answers, compilation, fault, came, given.trans ?_, failed⟩
  exact (List.sublist_append_left issues issued).map Issue.answer

/-- A batch that is lost stays lost. -/
theorem Lost.step (lost : batch.Lost) (step : batch.Step compiler issued after) : after.Lost := by
  have stays : ∀ {index other : Nat} {job now : Job} {compilation : Compilation},
      batch.jobs[index]? = some job → batch.jobs[other]? = some (.drawing (.done compilation)) →
      job ≠ .drawing (.done compilation) →
      (batch.jobs.set index now)[other]? = some (.drawing (.done compilation)) := by
    intro index other job now compilation stands done different
    rw [List.getElem?_set_ne]
    · exact done
    · rintro rfl
      exact different (Option.some.inj (stands.symm.trans done))
  cases lost with
  | inl failed =>
      refine Or.inl ?_
      cases step with
      | begins waits => exact failed
      | draws asks => exact failed
      | ends done =>
          unfold conclude
          split
          · exact failed
          · simp
  | inr failing =>
      obtain ⟨index, compilation, fault, done, failed⟩ := failing
      cases step with
      | begins waits => exact Or.inr ⟨index, compilation, fault, stays waits done nofun, failed⟩
      | draws asks => exact Or.inr ⟨index, compilation, fault, stays asks done nofun, failed⟩
      | @ends other ending otherDone =>
          cases outcome : ending.outcome with
          | error cause =>
              refine Or.inl ?_
              simp only [conclude, outcome]
              cases batch.failure <;> rfl
          | ok plan =>
              refine Or.inr ⟨index, compilation, fault, ?_, failed⟩
              simp only [conclude, outcome]
              refine stays otherDone done ?_
              rintro ⟨⟩
              cases outcome.symm.trans failed

/-! ## Steps without failure -/

namespace Proper

/-- One job goes on, and the others stay where they are. -/
theorem set (proper : batch.Proper compiler before numbers issues) {index number : Nat}
    {job : Job} (listed : numbers[index]? = some number) (live : after.context = .live)
    (unfailed : after.failure = none) (bodies : after.workspace.body? = before.body?)
    (jobs : after.jobs = batch.jobs.set index job)
    (goes : job.Goes compiler before after.workspace number
      (Issue.answersOf index (issues ++ issued)))
    (others : ∀ (other otherNumber : Nat) (otherJob : Job), other ≠ index →
      numbers[other]? = some otherNumber →
      otherJob.Goes compiler before batch.workspace otherNumber (Issue.answersOf other issues) →
      otherJob.Goes compiler before after.workspace otherNumber
        (Issue.answersOf other (issues ++ issued))) :
    after.Proper compiler before numbers (issues ++ issued) where
  live := live
  unfailed := unfailed
  bodies := bodies
  length_eq := by rw [jobs, List.length_set, proper.length_eq]
  goes := by
    intro other otherNumber otherJob otherListed stands
    rw [jobs] at stands
    by_cases same : other = index
    · subst same
      obtain rfl : number = otherNumber := Option.some.inj (listed.symm.trans otherListed)
      obtain ⟨inside, isJob⟩ := List.getElem?_eq_some_iff.mp stands
      rw [List.getElem_set_self] at isJob
      exact isJob ▸ goes
    · rw [List.getElem?_set_ne (Ne.symm same)] at stands
      exact others other otherNumber otherJob same otherListed
        (proper.goes other otherNumber otherJob otherListed stands)

/-- Every job is listed. -/
theorem listed (proper : batch.Proper compiler before numbers issues) {index : Nat} {job : Job}
    (stands : batch.jobs[index]? = some job) :
    ∃ number, numbers[index]? = some number ∧
      job.Goes compiler before batch.workspace number (Issue.answersOf index issues) := by
  obtain ⟨inside, _⟩ := List.getElem?_eq_some_iff.mp stands
  rw [proper.length_eq] at inside
  exact ⟨_, List.getElem?_eq_getElem inside,
    proper.goes index _ job (List.getElem?_eq_getElem inside) stands⟩

/-- A job that starts applies its passes to the graph that was listed. It has failed if it cannot
be lowered. -/
theorem begins (proper : batch.Proper compiler before numbers issues)
    (honest : ∀ pass ∈ compiler.passes, pass.Honest)
    (made : ∀ number ∈ numbers, ∀ graph ∈ before.graph? number, graph.Made)
    (apart : before.Apart numbers) {index number : Nat}
    (waits : batch.jobs[index]? = some (.waiting number)) :
    (batch.begin compiler index number).Proper compiler before numbers (issues ++ []) ∨
      (batch.begin compiler index number).Lost ∧
        Fails compiler before numbers (issues ++ []) := by
  obtain ⟨inside, _⟩ := List.getElem?_eq_some_iff.mp waits
  obtain ⟨_, listed, goes⟩ := proper.listed waits
  cases goes with
  | waiting untouched unanswered =>
      have member := List.mem_of_getElem? listed
      have jobs : (batch.begin compiler index number).jobs = batch.jobs.set index
          (.drawing (compiler.compile .live (before.graph? number))) := by
        simp only [begin, proper.live, untouched]
        rfl
      cases prepared : (compiler.prepare .live (before.graph? number)).outcome with
      | error fault =>
          obtain ⟨compilation, isFailure, failed⟩ := Compiler.compile_failed prepared
          refine Or.inr ⟨Or.inr ⟨index, compilation, fault, ?_, failed⟩, ?_⟩
          · rw [jobs, isFailure]
            exact List.getElem?_set_self inside
          · exact ⟨number, member, [], compilation, fault, isFailure ▸ .start _,
              List.nil_sublist _, failed⟩
      | ok graph =>
          refine Or.inl (proper.set listed ?_ proper.unfailed ?_ jobs ?_ ?_)
          · simp only [begin, proper.live, untouched]
            exact (Compiler.prepare_ok honest (made number member) prepared).2
          · exact (batch.workspace.body?_update number _).trans proper.bodies
          · rw [List.append_nil, unanswered]
            exact .drawing (.start _)
          · intro other otherNumber otherJob different otherListed goes
            rw [List.append_nil]
            cases goes with
            | drawing came => exact .drawing came
            | compiled came succeeds => exact .compiled came succeeds
            | waiting otherUntouched otherUnanswered =>
                refine .waiting (Eq.trans ?_ otherUntouched) otherUnanswered
                refine Workspace.graph?_update _ ?_
                intro shared
                rw [proper.bodies] at shared
                rw [otherUntouched]
                exact apart index other number otherNumber different.symm listed otherListed shared

/-- A job that draws is given one more answer. -/
theorem draws (proper : batch.Proper compiler before numbers issues) {index : Nat}
    {ns : Namespace} {next : String → Drawing Compilation}
    (asks : batch.jobs[index]? = some (.drawing (.draw ns next))) :
    (batch.answered index ns next).Proper compiler before numbers
      (issues ++ [⟨index, ns, (batch.source.draw ns).1⟩]) := by
  obtain ⟨number, listed, goes⟩ := proper.listed asks
  refine proper.set listed proper.live proper.unfailed proper.bodies rfl ?_ ?_
  · cases goes with
    | drawing came =>
        rw [Issue.answersOf_append, Issue.answersOf_own]
        exact .drawing (came.further _)
  · intro other otherNumber otherJob different _ otherGoes
    rw [Issue.answersOf_append, Issue.answersOf_other different, List.append_nil]
    exact otherGoes

/-- A job ends with its plan, or it has failed. -/
theorem ends (proper : batch.Proper compiler before numbers issues) {index : Nat}
    {compilation : Compilation}
    (done : batch.jobs[index]? = some (.drawing (.done compilation))) :
    (batch.conclude index compilation).Proper compiler before numbers (issues ++ []) ∨
      (batch.conclude index compilation).Lost ∧
        Fails compiler before numbers (issues ++ []) := by
  obtain ⟨number, listed, goes⟩ := proper.listed done
  cases goes with
  | drawing came =>
      unfold conclude
      cases outcome : compilation.outcome with
      | error fault =>
          refine Or.inr ⟨Or.inl ?_, number, List.mem_of_getElem? listed, _, compilation, fault,
            came, ?_, outcome⟩
          · simp
          · rw [List.append_nil]
            exact Issue.answersOf_sublist index issues
      | ok plan =>
          refine Or.inl (proper.set listed proper.live proper.unfailed proper.bodies rfl ?_ ?_)
          · rw [List.append_nil]
            exact .compiled came outcome
          · intro other otherNumber otherJob _ _ otherGoes
            rw [List.append_nil]
            exact otherGoes

end Proper

/-- Wherever a batch under a live context comes to, nothing has failed, or a job failed that cannot
be compiled at all. -/
theorem Reaches.proper_or_lost {workspace : Workspace} {source : Source}
    (reached : (Batch.start workspace .live source numbers).Reaches compiler issues after)
    (honest : ∀ pass ∈ compiler.passes, pass.Honest)
    (made : ∀ number ∈ numbers, ∀ graph ∈ workspace.graph? number, graph.Made)
    (apart : workspace.Apart numbers) :
    after.Proper compiler workspace numbers issues ∨
      after.Lost ∧ Fails compiler workspace numbers issues := by
  induction reached with
  | start => exact Or.inl (start_proper compiler workspace source numbers)
  | step _ step inductionHypothesis =>
      cases inductionHypothesis with
      | inr lost => exact Or.inr ⟨lost.1.step step, lost.2.more _⟩
      | inl proper =>
          cases step with
          | begins waits => exact proper.begins honest made apart waits
          | draws asks => exact Or.inl (proper.draws asks)
          | ends done => exact proper.ends done

/-- The identities issued on the way come from the source, one after another. -/
theorem Reaches.gives (reached : batch.Reaches compiler issues after) :
    batch.source.Gives (issues.map Issue.answer) after.source := by
  induction reached with
  | start => exact .start
  | step _ step inductionHypothesis =>
      cases step with
      | begins waits =>
          rw [List.append_nil]
          exact inductionHypothesis
      | draws asks =>
          rw [List.map_append]
          exact inductionHypothesis.next _
      | @ends index compilation done =>
          have same : ∀ batch : Batch,
              (batch.conclude index compilation).source = batch.source := by
            intro batch
            unfold conclude
            split <;> rfl
          rw [List.append_nil, same]
          exact inductionHypothesis

end Batch

end Flowplan
