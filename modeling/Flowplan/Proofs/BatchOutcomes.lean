import Flowplan.Proofs.BatchInvariants
import Flowplan.Proofs.DefaultCompilations
import Mathlib.Data.List.Forall2

/-!
# Outcomes of batches

A batch in which a graph is listed twice is refused before anything is done, with the least place
that repeats an earlier one. Otherwise each job of a batch has the outcome it has alone, whatever
the schedule: either all of them compile, to plans that share no identity and have the structure
they have alone, or the batch fails.
-/

namespace Flowplan

/-! ## Graphs listed twice -/

namespace Workspace

/-- A graph is listed at two places, at the first one before the second one. -/
def Twice (workspace : Workspace) (numbers : List Nat) (first second : Nat) : Prop :=
  first < second ∧ ∃ number, numbers[first]? = some number ∧ numbers[second]? = some number ∧
    (workspace.graph? number).isSome = true

/-- The least place at which a graph is listed again, and the first place at which it is. -/
structure Repeats (workspace : Workspace) (numbers : List Nat) (first second : Nat) : Prop where
  twice : workspace.Twice numbers first second
  least : ∀ third fourth, workspace.Twice numbers third fourth → second ≤ fourth
  earliest : ∀ third, workspace.Twice numbers third second → first ≤ third

/-- Graphs under different numbers of a list have no elements in common. -/
def Separate (workspace : Workspace) (numbers : List Nat) : Prop :=
  ∀ first ∈ numbers, ∀ second ∈ numbers, (workspace.graph? first).isSome = true →
    workspace.body? first = workspace.body? second → first = second

instance (workspace : Workspace) (numbers : List Nat) : Decidable (workspace.Separate numbers) :=
  inferInstanceAs (Decidable (∀ first ∈ numbers, ∀ second ∈ numbers, _))

variable {workspace : Workspace} {numbers : List Nat}

/-- Graphs that are separate by their numbers are apart by their places, if none is listed twice. -/
theorem Separate.apart (separate : workspace.Separate numbers)
    (once : ∀ first second, ¬ workspace.Twice numbers first second) : workspace.Apart numbers := by
  intro index other number otherNumber different listed otherListed shared
  by_contra present
  have isGraph : (workspace.graph? otherNumber).isSome = true :=
    Option.isSome_iff_ne_none.mpr present
  obtain rfl := separate otherNumber (List.mem_of_getElem? otherListed) number
    (List.mem_of_getElem? listed) isGraph shared.symm
  cases Nat.lt_or_gt_of_ne different with
  | inl before => exact once index other ⟨before, _, listed, otherListed, isGraph⟩
  | inr behind => exact once other index ⟨behind, _, otherListed, listed, isGraph⟩

/-- What stands at the places of a list with one more value. -/
theorem getElem?_concat_iff {α : Type} (list : List α) (last value : α) (place : Nat) :
    (list ++ [last])[place]? = some value ↔
      list[place]? = some value ∨ place = list.length ∧ last = value := by
  rw [List.getElem?_append]
  split
  · rename_i inside
    have before : place ≠ list.length := by omega
    simp [before]
  · rename_i outside
    rw [List.getElem?_eq_none (Nat.le_of_not_lt outside), List.getElem?_singleton]
    have here : place - list.length = 0 ↔ place = list.length := by omega
    simp [here]

/-- Whether something is listed twice shows up to the second place. -/
theorem twice_append_iff {front : List Nat} (rest : List Nat) {first second : Nat}
    (inside : second < front.length) :
    workspace.Twice (front ++ rest) first second ↔ workspace.Twice front first second := by
  unfold Twice
  constructor
  · rintro ⟨before, listed⟩
    rw [List.getElem?_append_left inside, List.getElem?_append_left (by omega)] at listed
    exact ⟨before, listed⟩
  · rintro ⟨before, listed⟩
    rw [List.getElem?_append_left inside, List.getElem?_append_left (by omega)]
    exact ⟨before, listed⟩

/-- A graph is listed again right behind the front of a list exactly if it is in this front. -/
theorem twice_behind_iff (front rest : List Nat) (number first : Nat) :
    workspace.Twice (front ++ number :: rest) first front.length ↔
      front[first]? = some number ∧ (workspace.graph? number).isSome = true := by
  unfold Twice
  constructor
  · rintro ⟨before, one, listed, listedAgain, isGraph⟩
    rw [List.getElem?_append_left before] at listed
    rw [List.getElem?_append_right (Nat.le_refl _), Nat.sub_self] at listedAgain
    obtain rfl : number = one := Option.some.inj listedAgain
    exact ⟨listed, isGraph⟩
  · rintro ⟨listed, isGraph⟩
    obtain ⟨before, _⟩ := List.getElem?_eq_some_iff.mp listed
    refine ⟨before, number, ?_, ?_, isGraph⟩
    · rwa [List.getElem?_append_left before]
    · rw [List.getElem?_append_right (Nat.le_refl _), Nat.sub_self]
      rfl

/-- What the search for a repetition knows of the places behind it: no graph is listed there twice,
and the place of every graph is known. -/
structure Knows (workspace : Workspace) (front : List Nat) (known : List (Nat × Nat)) : Prop where
  places : ∀ number place : Nat, known.lookup number = some place ↔
    front[place]? = some number ∧ (workspace.graph? number).isSome = true
  once : ∀ first second, ¬ workspace.Twice front first second

namespace Knows

variable {front : List Nat} {known : List (Nat × Nat)} {number : Nat}

/-- Nothing has to be known of no places. -/
theorem start (workspace : Workspace) : workspace.Knows [] [] :=
  ⟨by simp, by simp [Twice]⟩

/-- No graph is listed twice one place further on, unless it is listed before. -/
theorem once_more (knows : workspace.Knows front known)
    (new : ∀ first : Nat, front[first]? = some number → (workspace.graph? number).isSome ≠ true)
    (first second : Nat) : ¬ workspace.Twice (front ++ [number]) first second := by
  intro twice
  obtain ⟨before, _, _, listedAgain, _⟩ := id twice
  obtain ⟨inside, _⟩ := List.getElem?_eq_some_iff.mp listedAgain
  rw [List.length_append, List.length_singleton] at inside
  by_cases last : second = front.length
  · subst last
    obtain ⟨listed, isGraph⟩ := (twice_behind_iff front [] number first).mp twice
    exact new first listed isGraph
  · exact knows.once first second ((twice_append_iff [number] (by omega)).mp twice)

/-- A number without a graph is passed over. -/
theorem skip (knows : workspace.Knows front known)
    (missing : (workspace.graph? number).isSome ≠ true) :
    workspace.Knows (front ++ [number]) known := by
  refine ⟨?_, knows.once_more fun _ _ => missing⟩
  intro asked place
  rw [knows.places, getElem?_concat_iff]
  constructor
  · exact fun listed => ⟨Or.inl listed.1, listed.2⟩
  · rintro ⟨listed | ⟨_, rfl⟩, isGraph⟩
    · exact ⟨listed, isGraph⟩
    · exact absurd isGraph missing

/-- The place of a graph that was not listed before is noted. -/
theorem note (knows : workspace.Knows front known)
    (present : (workspace.graph? number).isSome = true) (new : known.lookup number = none) :
    workspace.Knows (front ++ [number]) ((number, front.length) :: known) := by
  have unlisted : ∀ place : Nat, front[place]? ≠ some number := by
    intro place listed
    cases ((knows.places number place).mpr ⟨listed, present⟩).symm.trans new
  refine ⟨?_, knows.once_more fun first listed => absurd listed (unlisted first)⟩
  intro asked place
  rw [List.lookup_cons, getElem?_concat_iff]
  by_cases same : asked = number
  · subst same
    simp [unlisted place, present, eq_comm]
  · simp [beq_eq_false_iff_ne.mpr same, Ne.symm same, knows.places]

/-- A graph that was listed before is the first one to be repeated. -/
theorem repeats (knows : workspace.Knows front known) {first : Nat}
    (found : known.lookup number = some first) (rest : List Nat) :
    workspace.Repeats (front ++ number :: rest) first front.length where
  twice := (twice_behind_iff front rest number first).mpr ((knows.places number first).mp found)
  least := by
    intro third fourth twice
    by_contra less
    exact knows.once third fourth
      ((twice_append_iff (number :: rest) (Nat.lt_of_not_le less)).mp twice)
  earliest := by
    intro third twice
    have same := (knows.places number third).mpr
      ((twice_behind_iff front rest number third).mp twice)
    exact Nat.le_of_eq (Option.some.inj (found.symm.trans same))

/-- The search finds the first repetition, if there is one. -/
theorem sharedFrom?_cases (knows : workspace.Knows front known) (rest : List Nat) :
    (workspace.sharedFrom? known front.length rest = none ∧
        ∀ first second, ¬ workspace.Twice (front ++ rest) first second) ∨
      ∃ first second, workspace.sharedFrom? known front.length rest = some (first, second) ∧
        workspace.Repeats (front ++ rest) first second := by
  induction rest generalizing known front with
  | nil => exact Or.inl ⟨rfl, by simpa using knows.once⟩
  | cons number rest inductionHypothesis =>
      have longer : front.length + 1 = (front ++ [number]).length := by simp
      rw [sharedFrom?]
      cases present : (workspace.graph? number).isSome with
      | false =>
          rw [if_pos (by simpa using present), List.append_cons, longer]
          exact inductionHypothesis (knows.skip (by simp [present]))
      | true =>
          rw [if_neg (by simpa [Option.isSome_iff_ne_none] using present)]
          cases found : known.lookup number with
          | some first => exact Or.inr ⟨first, front.length, rfl, knows.repeats found rest⟩
          | none =>
              dsimp only
              rw [List.append_cons, longer]
              exact inductionHypothesis (knows.note present found)

end Knows

/-- Either no graph is listed twice and none is found, or the least repetition is found. -/
theorem shared?_cases (workspace : Workspace) (numbers : List Nat) :
    (workspace.shared? numbers = none ∧
        ∀ first second, ¬ workspace.Twice numbers first second) ∨
      ∃ first second, workspace.shared? numbers = some (first, second) ∧
        workspace.Repeats numbers first second :=
  (Knows.start workspace).sharedFrom?_cases numbers

end Workspace

/-- What compiling the graph of a number comes to if it is compiled alone, under a live context. -/
def Compiler.alone (compiler : Compiler) (workspace : Workspace) (number : Nat) (source : Source) :
    Except Fault Plan :=
  ((compiler.compile .live (workspace.graph? number)).run source).1.outcome

/-! ## After a run -/

/-- Jobs that have plans are told by them. -/
theorem Job.eq_map_compiled {jobs : List Job}
    (compiled : ∀ job ∈ jobs, ∃ plan, job = .compiled plan) :
    jobs = (jobs.filterMap Job.plan?).map .compiled := by
  induction jobs with
  | nil => rfl
  | cons job rest inductionHypothesis =>
      obtain ⟨plan, rfl⟩ := compiled job List.mem_cons_self
      have later := inductionHypothesis fun other member =>
        compiled other (List.mem_cons_of_mem _ member)
      have read : (Job.compiled plan).plan? = some plan := rfl
      rw [List.filterMap_cons_some read, List.map_cons, ← later]

namespace Batch

variable {compiler : Compiler} {before : Workspace} {numbers : List Nat} {issues : List Issue}
  {batch : Batch}

/-- How many identities of a namespace are drawn in a run. -/
def drawn (compiler : Compiler) (schedule : Schedule) (batch : Batch) (ns : Namespace) : Nat :=
  ((batch.issues compiler schedule).map fun issue => issue.answer.1).count ns

/-- The plans of a batch, in the order of the numbers: each one was compiled with the identities
issued to its job. -/
structure Yields (compiler : Compiler) (before : Workspace) (numbers : List Nat)
    (issues : List Issue) (plans : List Plan) : Prop where
  length_eq : plans.length = numbers.length
  compiled : ∀ (index number : Nat) (plan : Plan), numbers[index]? = some number →
    plans[index]? = some plan → ∃ compilation,
      (compiler.compile .live (before.graph? number)).Comes (Issue.answersOf index issues)
        (.done compilation) ∧ compilation.outcome = .ok plan

/-- If nothing has failed in the end, there is a plan for every number listed. -/
theorem Proper.yields (proper : batch.Proper compiler before numbers issues)
    (finished : ∀ job ∈ batch.jobs, job.isOver = true) :
    ∃ plans, batch.outcome = .ok plans ∧ Yields compiler before numbers issues plans := by
  have compiled : ∀ job ∈ batch.jobs, ∃ plan, job = .compiled plan := by
    intro job member
    obtain ⟨index, stands⟩ := List.mem_iff_getElem?.mp member
    obtain ⟨number, _, goes⟩ := proper.listed stands
    cases goes with
    | waiting untouched unanswered => cases finished _ member
    | drawing came => cases finished _ member
    | compiled came succeeds => exact ⟨_, rfl⟩
  have jobs := Job.eq_map_compiled compiled
  refine ⟨batch.jobs.filterMap Job.plan?, by simp only [outcome, proper.unfailed], ?_, ?_⟩
  · rw [← proper.length_eq, jobs, List.length_map, ← jobs]
  · intro index number plan listed isPlan
    have stands : batch.jobs[index]? = some (.compiled plan) := by
      rw [jobs, List.getElem?_map, isPlan, Option.map_some]
    cases proper.goes index number _ listed stands with
    | compiled came succeeds => exact ⟨_, came, succeeds⟩

/-- A lost batch has failed in the end. -/
theorem Lost.outcome_error (lost : batch.Lost) (finished : ∀ job ∈ batch.jobs, job.isOver = true) :
    ∃ fault, batch.outcome = .error fault := by
  cases lost with
  | inl failed =>
      obtain ⟨fault, isFault⟩ := Option.isSome_iff_exists.mp failed
      exact ⟨fault, by simp only [outcome, isFault]⟩
  | inr failing =>
      obtain ⟨index, compilation, _, stands, _⟩ := failing
      cases finished _ (List.mem_of_getElem? stands)

/-- Jobs that were issued distinct identities have none in common. -/
theorem answersOf_disjoint (distinct : ((issues.map Issue.answer).map Prod.snd).Nodup)
    {index other : Nat} (different : index ≠ other) {id : String}
    (drew : id ∈ (Issue.answersOf index issues).map Prod.snd) :
    id ∉ (Issue.answersOf other issues).map Prod.snd := by
  intro otherDrew
  simp only [Issue.answersOf, List.map_map, List.mem_map, List.mem_filter, Function.comp_apply,
    decide_eq_true_eq] at drew otherDrew
  obtain ⟨issue, ⟨member, rfl⟩, rfl⟩ := drew
  obtain ⟨otherIssue, ⟨otherMember, rfl⟩, same⟩ := otherDrew
  rw [List.map_map] at distinct
  have one := List.inj_on_of_nodup_map distinct member otherMember same.symm
  exact different (congrArg Issue.job one)

/-! ## Jobs in a batch and alone -/

section Alone

variable (honest : ∀ pass ∈ compiler.passes, pass.Honest)
  (made : ∀ number ∈ numbers, ∀ graph ∈ before.graph? number, graph.Made)
  {source after : Source} (gave : source.Gives (issues.map Issue.answer) after)
  (bounded : ∀ ns, ((issues.map Issue.answer).map Prod.fst).count ns < 2 ^ 64)

include honest made gave bounded

/-- A job that fails in a batch fails alone. -/
theorem Fails.alone (fails : Fails compiler before numbers issues) :
    ∃ number ∈ numbers, ∀ other, ∃ fault, compiler.alone before number other = .error fault := by
  obtain ⟨number, listed, answers, compilation, fault, came, part, failed⟩ := fails
  refine ⟨number, listed, ?_⟩
  intro other
  cases Compiler.compile_alone honest (made number listed) came gave bounded part other with
  | inl succeeds =>
      obtain ⟨_, _, succeeded, _⟩ := succeeds
      cases failed.symm.trans succeeded
  | inr fails =>
      obtain ⟨_, own, _, ownFails⟩ := fails
      exact ⟨own, ownFails⟩

/-- The plans of a batch have the structure they have alone. -/
theorem Yields.alone {plans : List Plan} (yields : Yields compiler before numbers issues plans) :
    List.Forall₂ (fun number plan => ∀ other, ∃ own,
      compiler.alone before number other = .ok own ∧
        plan.structureBytes = own.structureBytes) numbers plans := by
  refine List.forall₂_iff_get.mpr ⟨yields.length_eq.symm, ?_⟩
  intro index inside insidePlans other
  obtain ⟨compilation, came, succeeded⟩ := yields.compiled index _ _
    (List.getElem?_eq_getElem inside) (List.getElem?_eq_getElem insidePlans)
  cases Compiler.compile_alone honest (made _ (List.getElem_mem inside)) came gave bounded
    (Issue.answersOf_sublist index issues) other with
  | inl both =>
      obtain ⟨plan, own, isPlan, isOwn, bytes⟩ := both
      obtain rfl := Except.ok.inj (succeeded.symm.trans isPlan)
      exact ⟨own, isOwn, bytes⟩
  | inr fails =>
      obtain ⟨_, _, failed, _⟩ := fails
      cases succeeded.symm.trans failed

/-- No two identities of the plans of a batch are the same. -/
theorem Yields.identities_distinct {plans : List Plan}
    (yields : Yields compiler before numbers issues plans) :
    (plans.flatMap Plan.identities).Nodup := by
  have distinct := gave.distinct fun ns => Nat.le_of_lt (bounded ns)
  have drew : ∀ (index : Nat) (inside : index < plans.length),
      (plans[index]).identities.Perm ((Issue.answersOf index issues).map Prod.snd) := by
    intro index inside
    have listed : index < numbers.length := yields.length_eq ▸ inside
    obtain ⟨compilation, came, succeeded⟩ := yields.compiled index _ _
      (List.getElem?_eq_getElem listed) (List.getElem?_eq_getElem inside)
    exact Compiler.compile_identities honest (made _ (List.getElem_mem listed)) came succeeded
  refine List.nodup_flatMap.mpr ⟨?_, List.pairwise_iff_getElem.mpr ?_⟩
  · intro plan member
    obtain ⟨index, inside, rfl⟩ := List.getElem_of_mem member
    have part := (Issue.answersOf_sublist index issues).map Prod.snd
    exact (drew index inside).nodup_iff.mpr (distinct.sublist part)
  · intro index other inside otherInside before id first second
    exact answersOf_disjoint distinct (Nat.ne_of_lt before)
      ((drew index inside).mem_iff.mp first) ((drew other otherInside).mem_iff.mp second)

end Alone

/-- Under a live context, either every job of a run compiles as it does alone, to plans without a
common identity, or the run fails, and a job fails alone. -/
theorem run_cases (compiler : Compiler) (honest : ∀ pass ∈ compiler.passes, pass.Honest)
    (schedule : Schedule) (workspace : Workspace) (source : Source) (numbers : List Nat)
    (made : ∀ number ∈ numbers, ∀ graph ∈ workspace.graph? number, graph.Made)
    (apart : workspace.Apart numbers)
    (bounded : ∀ ns, (start workspace .live source numbers).drawn compiler schedule ns < 2 ^ 64) :
    let outcome := ((start workspace .live source numbers).run compiler schedule).outcome
    (∃ plans, outcome = .ok plans ∧
        List.Forall₂ (fun number plan => ∀ other, ∃ own,
          compiler.alone workspace number other = .ok own ∧
            plan.structureBytes = own.structureBytes) numbers plans ∧
        (plans.flatMap Plan.identities).Nodup) ∨
      (∃ fault, outcome = .error fault) ∧ ∃ number ∈ numbers, ∀ other, ∃ fault,
        compiler.alone workspace number other = .error fault := by
  have reached := run_reaches compiler schedule (start workspace .live source numbers)
  have finished := run_over compiler schedule (start workspace .live source numbers)
  have counted : ∀ ns, ((((start workspace .live source numbers).issues compiler schedule).map
      Issue.answer).map Prod.fst).count ns < 2 ^ 64 := by
    intro ns
    rw [List.map_map]
    exact bounded ns
  cases reached.proper_or_lost honest made apart with
  | inl proper =>
      obtain ⟨plans, succeeds, yields⟩ := proper.yields finished
      exact Or.inl ⟨plans, succeeds, yields.alone honest made reached.gives counted,
        yields.identities_distinct honest made reached.gives counted⟩
  | inr failing =>
      exact Or.inr ⟨failing.1.outcome_error finished,
        failing.2.alone honest made reached.gives counted⟩

end Batch

/-- Batches are refused if a graph is listed twice, and otherwise do what their jobs do alone.

If a graph is listed twice, the fault names the least place that repeats an earlier one and the
first place of that graph; nothing is stored and no identity is drawn. Otherwise, under a live
context and whatever the schedule, it depends on the jobs: if each of them compiles alone, there is
a plan for every entry, in the order of the list and with the digested bytes it has alone, and all
identities of all plans are distinct; and if one of them fails alone, there are no plans. It does
not matter which source a job takes its identities from when it is compiled alone. -/
theorem batches_compile_as_alone (compiler : Compiler)
    (honest : ∀ pass ∈ compiler.passes, pass.Honest) (schedule : Schedule) (workspace : Workspace)
    (source : Source) (numbers : List Nat)
    (made : ∀ number ∈ numbers, ∀ graph ∈ workspace.graph? number, graph.Made)
    (separate : workspace.Separate numbers) :
    (∀ context, (∃ first second, workspace.Twice numbers first second) →
        ∃ first second, workspace.Repeats numbers first second ∧
          (compiler.compileAll schedule context workspace source numbers).2 =
            .error (.sharedGraph first second) ∧
          (compiler.compileAll schedule context workspace source numbers).1.workspace = workspace ∧
          (compiler.compileAll schedule context workspace source numbers).1.source = source) ∧
      ((∀ first second, ¬ workspace.Twice numbers first second) →
        (∀ ns, (Batch.start workspace .live source numbers).drawn compiler schedule ns < 2 ^ 64) →
        ((∀ number ∈ numbers, ∃ other own, compiler.alone workspace number other = .ok own) →
          ∃ plans, (compiler.compileAll schedule .live workspace source numbers).2 = .ok plans ∧
            List.Forall₂ (fun number plan => ∀ other, ∃ own,
              compiler.alone workspace number other = .ok own ∧
                plan.structureBytes = own.structureBytes) numbers plans ∧
            (plans.flatMap Plan.identities).Nodup) ∧
        ((∃ number ∈ numbers, ∃ other fault,
            compiler.alone workspace number other = .error fault) →
          ∃ fault, (compiler.compileAll schedule .live workspace source numbers).2 =
            .error fault)) := by
  cases workspace.shared?_cases numbers with
  | inr repeated =>
      obtain ⟨first, second, found, repeats⟩ := repeated
      constructor
      · intro context _
        simp only [Compiler.compileAll, found]
        exact ⟨first, second, repeats, rfl, rfl, rfl⟩
      · exact fun once => absurd repeats.twice (once first second)
  | inl unrepeated =>
      obtain ⟨unfound, once⟩ := unrepeated
      constructor
      · rintro context ⟨first, second, twice⟩
        exact absurd twice (once first second)
      · intro _ bounded
        simp only [Compiler.compileAll, unfound]
        cases Batch.run_cases compiler honest schedule workspace source numbers made
          (separate.apart once) bounded with
        | inl succeeds =>
            obtain ⟨plans, isPlans, alone, distinct⟩ := succeeds
            refine ⟨fun _ => ⟨plans, isPlans, alone, distinct⟩, ?_⟩
            rintro ⟨number, listed, other, fault, failed⟩
            obtain ⟨index, inside, rfl⟩ := List.getElem_of_mem listed
            obtain ⟨own, succeeded, _⟩ := (List.forall₂_iff_get.mp alone).2 index inside
              ((List.forall₂_iff_get.mp alone).1 ▸ inside) other
            cases failed.symm.trans succeeded
        | inr fails =>
            obtain ⟨failed, number, listed, alone⟩ := fails
            refine ⟨?_, fun _ => failed⟩
            intro compile
            obtain ⟨other, own, succeeded⟩ := compile number listed
            obtain ⟨fault, ownFailed⟩ := alone other
            cases ownFailed.symm.trans succeeded

/-- Two graphs of their own under the numbers 0 and 2, and none under the number 1. -/
def twoJobs : Workspace := ((Workspace.empty.add (some twoStages)).add none).add (some twoStages)

/-- The work of a pass which encodes shuffles, and hands back another graph over the same
elements. -/
def encodingSteps : List Step :=
  [.set .shuffles (some (.encoder "json")), .rebuild]

/-- A pass that works by these steps. -/
def encoding : Pass where
  name := "encoding"
  produces := .encoder
  prerequisites := [.communicationPattern]
  visits := none
  promises := some Element.isShuffle
  apply := Script.apply encodingSteps

/-- The strict compiler with a scripted pass of its own behind the default ones. -/
def encodingCompiler : Compiler :=
  { strictCompiler with passes := strictCompiler.passes ++ [encoding] }

/-- A list with repetitions is refused. Two jobs whose draws are interleaved give two plans without
a common identity, with the passes that settings choose as well as with a pass of one's own. -/
theorem twoJobs_compiled :
    (∃ first second, twoJobs.Repeats [0, 1, 2, 1, 0] first second ∧
        (strictCompiler.compileAll [0, 1] .live twoJobs (.start "s") [0, 1, 2, 1, 0]).2 =
          .error (.sharedGraph first second)) ∧
      ∀ compiler ∈ [strictCompiler, encodingCompiler],
        ∃ plans, (compiler.compileAll [0, 1, 1, 0, 1] .live twoJobs (.start "s") [0, 2]).2 =
          .ok plans ∧ plans.length = 2 ∧ (plans.flatMap Plan.identities).Nodup := by
  have isNew : Compiler.new (some strictCompiler.settings) = .ok strictCompiler := rfl
  have strictHonest : ∀ pass ∈ strictCompiler.passes, pass.Honest := Compiler.new_honest isNew
  have encodingHonest : ∀ pass ∈ encodingCompiler.passes, pass.Honest :=
    List.forall_mem_append.mpr
      ⟨strictHonest, List.forall_mem_singleton.mpr (Pass.honest_of_script encodingSteps rfl)⟩
  have made : ∀ numbers : List Nat, ∀ number ∈ numbers, ∀ graph ∈ twoJobs.graph? number,
      graph.Made := by
    intro _ number _ graph held
    obtain ⟨body, _, stands⟩ := Option.bind_eq_some_iff.mp held
    have same : graph ∈ [twoStages, twoStages] := List.mem_of_getElem? stands
    obtain rfl : graph = twoStages := by simpa using same
    exact twoStages_made
  constructor
  · obtain ⟨refused, _⟩ := batches_compile_as_alone strictCompiler strictHonest [0, 1] twoJobs
      (.start "s") [0, 1, 2, 1, 0] (made _) (by decide +kernel)
    obtain ⟨first, second, repeats, outcome, _⟩ :=
      refused .live ⟨0, 4, by decide, 0, rfl, rfl, by decide +kernel⟩
    exact ⟨first, second, repeats, outcome⟩
  · have once : ∀ first second, ¬ twoJobs.Twice [0, 2] first second := by
      rintro first second ⟨before, number, listed, listedAgain, _⟩
      have bound := (List.getElem?_eq_some_iff.mp listedAgain).1
      obtain ⟨rfl, rfl⟩ : first = 0 ∧ second = 1 := by
        simp only [List.length_cons, List.length_nil] at bound
        omega
      cases listed.trans listedAgain.symm
    have few : ∀ ns, ∀ compiler ∈ [strictCompiler, encodingCompiler],
        (Batch.start twoJobs .live (.start "s") [0, 2]).drawn compiler [0, 1, 1, 0, 1] ns <
          2 ^ 64 := by
      intro ns
      cases ns <;> decide +kernel
    have succeeds : ∀ compiler ∈ [strictCompiler, encodingCompiler], ∀ number ∈ [0, 2],
        (compiler.alone twoJobs number (.start "t")).isOk = true := by
      decide +kernel
    have honest : ∀ compiler ∈ [strictCompiler, encodingCompiler],
        ∀ pass ∈ compiler.passes, pass.Honest := by
      simp only [List.forall_mem_cons]
      exact ⟨strictHonest, encodingHonest, nofun⟩
    intro compiler listed
    obtain ⟨_, compiles⟩ := batches_compile_as_alone compiler (honest compiler listed)
      [0, 1, 1, 0, 1] twoJobs (.start "s") [0, 2] (made _) (by decide +kernel)
    have compileAlone : ∀ number ∈ [0, 2], ∃ other own,
        compiler.alone twoJobs number other = .ok own :=
      fun number numberIn => ⟨.start "t", exists_ok (succeeds compiler listed number numberIn)⟩
    obtain ⟨plans, isPlans, alone, distinct⟩ :=
      (compiles once fun ns => few ns compiler listed).1 compileAlone
    exact ⟨plans, isPlans, alone.length_eq.symm, distinct⟩

end Flowplan
