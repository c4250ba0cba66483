import Flowplan.Proofs.EdgeOrders

/-!
# Graphs that can be lowered

Whether there is a plan of a graph is decided by the graph alone: by its patterns, its components
and, for a strict lowering, by what the shuffles between two components hold
(`JobGraph.Plannable`). A lowering that fails with a conflict names a kind under which two shuffles
hold different values.
-/

namespace Flowplan

namespace JobGraph

/-- Any two shuffles between the same components hold equal values of the given kinds, wherever
both hold one. -/
def Agrees (graph : JobGraph) (kinds : List Kind) : Prop :=
  ∀ left ∈ graph.edges, ∀ right ∈ graph.edges, left.isShuffle = true → right.isShuffle = true →
    graph.Joined left.source right.source → graph.Joined left.destination right.destination →
      ∀ kind ∈ kinds, ∀ one two, left.bag.get? kind = some one →
        right.bag.get? kind = some two → one = two

/-- What a lowering asks of a graph. -/
structure Plannable (graph : JobGraph) (strict : Bool) : Prop where
  patterned : ∀ edge ∈ graph.edges, edge.pattern? ≠ none
  outside : ∀ edge ∈ graph.edges, ¬ graph.Encloses edge
  free : ¬ graph.Entangled
  agrees : strict = true → graph.Agrees Kind.carried

end JobGraph

/-! ## Stages of a plan -/

namespace Group

/-- A stage has the parallelism of its members. -/
theorem drawStages_parallelism (groups : List Group) (ids : List String) (source : Source) :
    ∀ stage ∈ ((drawStages groups ids).run source).1,
      stage.parallelism = parallelism stage.members := by
  induction groups generalizing ids source with
  | nil => exact fun _ member => nomatch member
  | cons group rest inductionHypothesis =>
      cases ids with
      | nil => exact fun _ member => nomatch member
      | cons id later =>
          rw [run_drawStages_cons]
          intro stage member
          rcases List.mem_cons.mp member with rfl | behind
          · rfl
          · exact inductionHypothesis later _ stage behind

/-- A stage runs with the parallelism of its members. -/
theorem draw_parallelism (groups : List Group) (source : Source) :
    ∀ stage ∈ ((draw groups).run source).1, stage.parallelism = parallelism stage.members := by
  rw [run_draw]
  exact drawStages_parallelism groups _ _

end Group

/-- Once every edge has a pattern, a lowering draws stages that fit the graph and run with the
parallelism of their members, and goes on with them. -/
theorem JobGraph.Sound.staged {graph : JobGraph} (sound : graph.Sound)
    (patterned : ∀ edge ∈ graph.edges, edge.pattern? ≠ none) (source : Source) :
    ∃ (staging : Staging) (sets : DisjointSets) (id : String),
      staging.Fits sets graph ∧ staging.Numbered source ∧
      (∀ stage ∈ staging.stages, stage.parallelism = Group.parallelism stage.members) ∧
      ((lower false (some graph)).run source).1 = staging.lowered false sets graph.arrivals id := by
  obtain ⟨gathering, walked, isWalked⟩ := Gathering.lower_of_patterned false sound patterned
  obtain ⟨groups, isPlaced, fits, numbered⟩ := walked.stages sound source
  refine ⟨_, gathering.groups, (((Group.draw groups).run source).2.draw .plan).1, fits, numbered,
    Group.draw_parallelism groups source, ?_⟩
  rw [isWalked, Gathering.run_lower gathering false source groups isPlaced, walked.edges]

/-- A plan has the stages drawn for the graph, with stage edges that record its shuffles. -/
theorem Plan.records_of_lower {graph : JobGraph} (sound : graph.Sound) {strict : Bool}
    {source : Source} {plan : Plan}
    (lowered : ((lower strict (some graph)).run source).1.outcome = .ok plan) :
    ∃ staging sets, plan.Realizes staging sets graph ∧
      staging.Records sets graph.arrivals plan.stageGraph.edges ∧
      ∀ stage ∈ plan.stages, stage.parallelism = Group.parallelism stage.members := by
  have lenient := ((lower_ok_iff strict (some graph) source plan).mp lowered).1
  obtain ⟨staging, sets, id, fits, _, sized, continues⟩ :=
    sound.staged (patterned_of_lower sound lowered) source
  rw [continues] at lenient
  have realizes := Plan.realizes_of_lowered sound fits lenient
  refine ⟨staging, sets, realizes, (Plan.records_of_lowered sound fits lenient).1, ?_⟩
  exact fun stage stageIn => sized stage (realizes.stages_perm.mem_iff.mp stageIn)

/-! ## Success -/

/-- The edges agree between the stages exactly if the shuffles agree between the components. -/
theorem Plan.Realizes.agree_iff {plan : Plan} {staging : Staging} {sets : DisjointSets}
    {graph : JobGraph} (realizes : plan.Realizes staging sets graph) (sound : graph.Sound) :
    staging.Agree sets graph.arrivals ↔ graph.Agrees Kind.carried := by
  have completes := realizes.completes
  constructor
  · intro agree left leftIn right rightIn leftShuffles rightShuffles sources destinations
    obtain ⟨leftSource, leftDestination⟩ := sound.ends_known left leftIn
    obtain ⟨rightSource, rightDestination⟩ := sound.ends_known right rightIn
    obtain ⟨first, ofSource⟩ := realizes.splits.stageOf?_known sound left.source leftSource
    obtain ⟨second, ofDestination⟩ :=
      realizes.splits.stageOf?_known sound left.destination leftDestination
    obtain ⟨firstIn, inFirst⟩ := (realizes.splits.stageOf?_iff sound _ _).mp ofSource
    obtain ⟨secondIn, inSecond⟩ := (realizes.splits.stageOf?_iff sound _ _).mp ofDestination
    have between := completes.crossing?_between sound realizes.distinct
    refine agree left ((sound.mem_arrivals left).mpr leftIn) right
      ((sound.mem_arrivals right).mpr rightIn) (first.id, second.id) ?_ ?_
    · exact (between left leftIn first second firstIn secondIn).mpr
        ⟨leftShuffles, inFirst, inSecond⟩
    · refine (between right rightIn first second firstIn secondIn).mpr ⟨rightShuffles, ?_, ?_⟩
      · exact (realizes.splits.joined first firstIn _ inFirst _ rightSource).mpr sources
      · exact (realizes.splits.joined second secondIn _ inSecond _ rightDestination).mpr
          destinations
  · intro agrees left leftArrives right rightArrives ends leftCrosses rightCrosses
    have leftIn := (sound.mem_arrivals left).mp leftArrives
    have rightIn := (sound.mem_arrivals right).mp rightArrives
    obtain ⟨leftShuffles, first, firstIn, second, secondIn, inFirst, inSecond, rfl⟩ :=
      (completes.crossing?_iff sound left leftIn ends).mp leftCrosses
    obtain ⟨rightShuffles, alsoFirst, alsoSecond⟩ := (completes.crossing?_between sound
      realizes.distinct right rightIn first second firstIn secondIn).mp rightCrosses
    obtain ⟨rightSource, rightDestination⟩ := sound.ends_known right rightIn
    exact agrees left leftIn right rightIn leftShuffles rightShuffles
      ((realizes.splits.joined first firstIn _ inFirst _ rightSource).mp alsoFirst)
      ((realizes.splits.joined second secondIn _ inSecond _ rightDestination).mp alsoSecond)

/-- A lowering succeeds exactly on the graphs it can plan. -/
theorem lower_ok_iff_plannable {graph : JobGraph} (sound : graph.Sound)
    (bound : graph.size < 2 ^ 64) (strict : Bool) (source : Source) :
    (∃ plan, ((lower strict (some graph)).run source).1.outcome = .ok plan) ↔
      graph.Plannable strict := by
  constructor
  · rintro ⟨plan, lowered⟩
    have patterned := patterned_of_lower sound lowered
    obtain ⟨staging, sets, id, fits, numbered, _, continues⟩ := sound.staged patterned source
    obtain ⟨lenient, quiet⟩ := (lower_ok_iff strict (some graph) source plan).mp lowered
    rw [continues] at lenient quiet
    obtain ⟨outside, free, _⟩ := (fits.lowered_ok_iff sound numbered id).mp ⟨plan, lenient⟩
    refine ⟨patterned, outside, free, ?_⟩
    intro isStrict
    rw [(Plan.records_of_lowered sound fits lenient).2] at quiet
    exact ((Plan.realizes_of_lowered sound fits lenient).agree_iff sound).mp
      ((staging.no_clash_iff sets _).mp (quiet isStrict))
  · intro plannable
    obtain ⟨staging, sets, id, fits, numbered, _, continues⟩ :=
      sound.staged plannable.patterned source
    -- there are no more stages than vertices, so the numbers of the stages do not come round
    have distinct := numbered.distinct
      (Nat.le_of_lt (Nat.lt_of_le_of_lt fits.splits.length_le bound))
    obtain ⟨plan, lenient⟩ := (fits.lowered_ok_iff sound numbered id).mpr
      ⟨plannable.outside, plannable.free, distinct⟩
    refine ⟨plan, (lower_ok_iff strict (some graph) source plan).mpr ?_⟩
    rw [continues]
    refine ⟨lenient, ?_⟩
    intro isStrict
    rw [(Plan.records_of_lowered sound fits lenient).2]
    exact (staging.no_clash_iff sets _).mpr
      (((Plan.realizes_of_lowered sound fits lenient).agree_iff sound).mpr
        (plannable.agrees isStrict))

/-! ## Conflicts -/

/-- No verdict is about a conflict. -/
theorem JobGraph.Verdict.no_conflict {graph : JobGraph} {fault : Fault}
    (verdict : graph.Verdict (.error fault)) : fault.find? Fault.isConflict = none := by
  cases verdict with
  | patternMissing _ _ reported _ => simp [reported, Fault.find?, Fault.isConflict]
  | shuffleInside _ _ _ _ _ reported _ => simp [reported, Fault.find?, Fault.isConflict]
  | cyclic _ _ _ reported _ => simp [reported, Fault.find?, Fault.isConflict]

/-- A lenient lowering does not fail for a conflict. -/
theorem lower_no_conflict {graph : JobGraph} (sound : graph.Sound) (bound : graph.size < 2 ^ 64)
    {source : Source} {fault : Fault}
    (failed : ((lower false (some graph)).run source).1.outcome = .error fault) :
    fault.find? Fault.isConflict = none := by
  rcases first_or_none (fun edge : Edge => edge.pattern? = none) graph.arrivals with
    ⟨edge, first⟩ | patterned
  · rw [Gathering.lower_of_missing false sound edge first] at failed
    cases failed
    simp [Gathering.patternMissing, Fault.find?, Fault.isConflict]
  · have allPatterned : ∀ edge ∈ graph.edges, edge.pattern? ≠ none :=
      fun edge member => patterned edge ((sound.mem_arrivals edge).mpr member)
    obtain ⟨gathering, walked, isWalked⟩ := Gathering.lower_of_patterned false sound allPatterned
    have verdict := walked.verdict sound bound allPatterned source
    rw [← isWalked, failed] at verdict
    exact verdict.no_conflict

/-- A conflict that a lenient lowering reports is between two shuffles with different values of a
kind that stage edges carry. -/
theorem conflict_of_lower {graph : JobGraph} (sound : graph.Sound) {source : Source}
    {conflict : Conflict}
    (reported : conflict ∈ ((lower false (some graph)).run source).1.conflicts) :
    conflict.kind ∈ Kind.carried ∧ conflict.previous ≠ conflict.next ∧
      ∃ left ∈ graph.edges, ∃ right ∈ graph.edges, left.isShuffle = true ∧
        right.isShuffle = true ∧ left.bag.get? conflict.kind = some conflict.previous ∧
        right.bag.get? conflict.kind = some conflict.next := by
  rcases first_or_none (fun edge : Edge => edge.pattern? = none) graph.arrivals with
    ⟨edge, first⟩ | patterned
  · rw [Gathering.lower_of_missing false sound edge first] at reported
    exact nomatch reported
  · obtain ⟨staging, sets, id, fits, _, _, continues⟩ := sound.staged
      (fun edge member => patterned edge ((sound.mem_arrivals edge).mpr member)) source
    rw [continues] at reported
    have suits := fits.arrivals_suit sound
    have clashes := (staging.records_nil sets).reported graph.arrivals suits reported
    obtain ⟨left, leftArrives, right, rightArrives, ends, leftCrosses, rightCrosses, kind, carried,
      one, two, leftHeld, rightHeld, different, rfl⟩ := Staging.mem_clashesAlong clashes
    rw [List.nil_append] at leftArrives rightArrives
    have shuffles : ∀ edge ∈ graph.arrivals, staging.crossing? sets edge = some ends →
        edge.isShuffle = true := by
      intro edge arrives crosses
      refine (suits edge arrives).shuffles (Bool.eq_false_of_not_eq_true fun together => ?_)
      rw [Staging.crossing?, if_pos together] at crosses
      cases crosses
    exact ⟨carried, different, left, (sound.mem_arrivals left).mp leftArrives, right,
      (sound.mem_arrivals right).mp rightArrives, shuffles left leftArrives leftCrosses,
      shuffles right rightArrives rightCrosses, leftHeld, rightHeld⟩

/-- A fault that holds a conflict is one that a lenient lowering reports. -/
theorem lower_fault_cases {graph : JobGraph} (sound : graph.Sound) (bound : graph.size < 2 ^ 64)
    {strict : Bool} {source : Source} {fault : Fault}
    (failed : ((lower strict (some graph)).run source).1.outcome = .error fault) :
    fault.find? Fault.isConflict = none ∨
      ∃ conflict ∈ ((lower false (some graph)).run source).1.conflicts, fault = conflict.fault := by
  cases strict with
  | false => exact Or.inl (lower_no_conflict sound bound failed)
  | true =>
      rw [lower_enforced] at failed
      cases conflicts : ((lower false (some graph)).run source).1.conflicts with
      | nil =>
          rw [Lowered.enforced_of_none conflicts] at failed
          exact Or.inl (lower_no_conflict sound bound failed)
      | cons conflict others =>
          rw [Lowered.enforced_of_some conflicts] at failed
          exact Or.inr ⟨conflict, List.mem_cons_self, (Except.error.inj failed).symm⟩

end Flowplan
