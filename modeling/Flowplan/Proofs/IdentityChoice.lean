import Flowplan.Proofs.Answers
import Flowplan.Proofs.Plans
import Flowplan.Proofs.Renamings

/-!
# The choice of identities

A lowering takes the identities of its stages, tasks and plan from the answers to its draws. Two
lists of fresh answers lead to two plans that differ by a renaming, or to two faults that differ in
nothing but the identities they name: the answers of the one can be exchanged for those of the
other. The answers of a source are fresh as long as it does not run out of numbers, so two sources
decide nothing but the identities.
-/

namespace Flowplan

/-! ## Stages under other answers -/

namespace Group

variable (names : Renaming)

/-- A stage under other identities is the stage drawn with them. -/
theorem stage_rename (group : Group) (id : String) (tasks : List String) :
    (group.stage id tasks).rename names = group.stage (names.stage id) (tasks.map names.task) := by
  simp only [stage, Stage.rename, List.map_map, List.zip_map_left]
  rfl

/-- Stages of exchanged identities are renamed stages. -/
theorem drawStages_rename {groups : List Group} {ids : List String}
    {answers others : List (Namespace × String)} {stages renamed : List Stage}
    (came : (drawStages groups ids).Comes answers (.done stages))
    (otherCame : (drawStages groups (ids.map names.stage)).Comes others (.done renamed))
    (exchanged : (answers.map Prod.snd).map names.task = others.map Prod.snd) :
    renamed = stages.map (Stage.rename names) := by
  induction groups generalizing ids answers others stages renamed with
  | nil =>
      obtain ⟨rfl, same⟩ := Drawing.Comes.done_inv came
      obtain ⟨rfl, otherSame⟩ := Drawing.Comes.done_inv otherCame
      cases same
      cases otherSame
      rfl
  | cons group rest inductionHypothesis =>
      cases ids with
      | nil =>
          obtain ⟨rfl, same⟩ := Drawing.Comes.done_inv came
          obtain ⟨rfl, otherSame⟩ := Drawing.Comes.done_inv otherCame
          cases same
          cases otherSame
          rfl
      | cons id later =>
          obtain ⟨_, _, tasks, rfl, first, onward⟩ := Drawing.Comes.bind_inv came
          obtain ⟨_, _, _, rfl, second, last⟩ := Drawing.Comes.bind_inv onward
          obtain ⟨rfl, same⟩ := Drawing.Comes.done_inv last
          cases same
          obtain ⟨_, _, otherTasks, rfl, otherFirst, otherOnward⟩ :=
            Drawing.Comes.bind_inv otherCame
          obtain ⟨_, _, _, rfl, otherSecond, otherLast⟩ := Drawing.Comes.bind_inv otherOnward
          obtain ⟨rfl, otherSame⟩ := Drawing.Comes.done_inv otherLast
          cases otherSame
          obtain ⟨rfl, asMany⟩ := Drawing.Comes.many_inv first
          obtain ⟨rfl, otherAsMany⟩ := Drawing.Comes.many_inv otherFirst
          simp only [List.append_nil, List.map_append] at exchanged
          obtain ⟨here, behind⟩ := List.append_inj exchanged (by simp [asMany, otherAsMany])
          have renamedTasks : tasks.map names.task = otherTasks := by
            simpa [Function.comp_def] using here
          rw [List.map_cons, stage_rename, renamedTasks,
            inductionHypothesis second otherSecond behind]

end Group

/-- Stages drawn with fresh answers are renamed to those drawn with other fresh ones. -/
theorem Group.draw_rename {groups : List Group} {answers others : List (Namespace × String)}
    {staging other : Staging} (came : (draw groups).Comes answers (.done staging.stages))
    (otherCame : (draw groups).Comes others (.done other.stages))
    (distinct : (answers.map Prod.snd).Nodup) (otherDistinct : (others.map Prod.snd).Nodup) :
    ∃ names, other = staging.rename names := by
  obtain ⟨_, tasks, ids, rfl, first, onward⟩ := Drawing.Comes.bind_inv came
  obtain ⟨_, otherTasks, otherIds, rfl, otherFirst, otherOnward⟩ :=
    Drawing.Comes.bind_inv otherCame
  obtain ⟨rfl, asMany⟩ := Drawing.Comes.many_inv first
  obtain ⟨rfl, otherAsMany⟩ := Drawing.Comes.many_inv otherFirst
  rw [List.map_append, List.nodup_append] at distinct otherDistinct
  have stageIds : ∀ list : List String,
      (list.map (Prod.mk Namespace.stage)).map Prod.snd = list := by simp
  rw [stageIds] at distinct otherDistinct
  obtain ⟨_, members, staffed, isTasks⟩ := drawStages_comes asMany onward
  obtain ⟨_, otherMembers, otherStaffed, otherIsTasks⟩ := drawStages_comes otherAsMany otherOnward
  have sameCount : (tasks.map Prod.snd).length = (otherTasks.map Prod.snd).length := by
    rw [isTasks, otherIsTasks, List.length_map, List.length_map, List.length_map, List.length_map,
      length_tasks members staffed, length_tasks otherMembers otherStaffed]
  obtain ⟨stage, rfl⟩ := exists_perm_map_eq distinct.1 otherDistinct.1
    (asMany.trans otherAsMany.symm)
  obtain ⟨task, exchanged⟩ := exists_perm_map_eq distinct.2.1 otherDistinct.2.1 sameCount
  have renamed := drawStages_rename ⟨.refl String, stage, .refl String, task⟩ onward otherOnward
    exchanged
  exact ⟨_, congrArg Staging.mk renamed⟩

/-! ## Lowerings with renamed stages -/

namespace Staging

/-- A plan under other identities is the plan of stages under these identities. -/
theorem plan_rename (staging : Staging) (names : Renaming) (stageGraph : StageGraph) (id : String) :
    (staging.rename names).plan (StageGraph.rename names stageGraph) (names.plan id) =
      (staging.plan stageGraph id).rename names := by
  simp only [plan, Plan.rename, assignments_rename, taskVertices_rename]

/-- The ids of stage edges can be exchanged along with those of the stages, since they are distinct
in both graphs. -/
theorem graph_rename {staging : Staging} {names : Renaming} {bundles : List StageEdge}
    {stageGraph other : StageGraph} (formed : staging.graph bundles = .ok stageGraph)
    (otherFormed : (staging.rename names).graph (bundles.map (StageEdge.rename names)) =
      .ok other) :
    ∃ stageEdge, other = StageGraph.rename { names with stageEdge := stageEdge } stageGraph := by
  obtain ⟨intact, vertices, edges⟩ := graph_intact _ _ _ formed
  obtain ⟨otherIntact, otherVertices, otherEdges⟩ := graph_intact _ _ _ otherFormed
  have distinct := intact.distinctLinks
  have otherDistinct := otherIntact.distinctLinks
  rw [intact.linked, List.map_map, edges] at distinct
  rw [otherIntact.linked, List.map_map, otherEdges] at otherDistinct
  obtain ⟨stageEdge, exchanged⟩ := exists_perm_map_eq distinct otherDistinct (by simp)
  have renamed : StageGraph.Renamed { names with stageEdge := stageEdge } stageGraph other :=
    ⟨intact, otherIntact, by rw [otherVertices, vertices]; rfl, by rw [otherEdges, edges]; rfl⟩
  refine ⟨stageEdge, renamed.eq_rename ?_⟩
  rw [edges, otherEdges]
  rw [List.map_map] at exchanged
  exact exchanged

/-- What is left of a lowering goes the same way on renamed stages. -/
theorem lowered_echoes {staging : Staging} {names : Renaming} {sets : DisjointSets}
    {graph : JobGraph} (sound : graph.Sound) (fits : staging.Fits sets graph)
    (renamedFits : (staging.rename names).Fits sets graph) {session other : String}
    (named : staging.Named session) (renamedNamed : (staging.rename names).Named other)
    (distinct : (staging.stages.map Stage.id).Nodup)
    (renamedDistinct : ((staging.rename names).stages.map Stage.id).Nodup) (strict : Bool)
    (id otherId : String) :
    ∃ chosen, Echoes (Plan.rename chosen)
      (staging.lowered strict sets graph.arrivals id).outcome
      ((staging.rename names).lowered strict sets graph.arrivals otherId).outcome := by
  have echoes := bundleAll_echoes names staging strict sets graph.arrivals []
  rw [lowered_outcome, lowered_outcome]
  rw [List.map_nil] at echoes
  generalize bundled : (staging.bundleAll strict sets graph.arrivals []).1 = result at echoes ⊢
  generalize renamedBundled :
    ((staging.rename names).bundleAll strict sets graph.arrivals []).1 = renamedResult at echoes ⊢
  cases echoes with
  | error resembles => exact ⟨names, .error resembles⟩
  | ok bundles =>
      have completes := fits.completes sound strict bundles bundled
      have renamedCompletes := renamedFits.completes sound strict _ renamedBundled
      simp only [Except.bind]
      -- whether the components are entangled is a question about the job graph alone
      rcases completes.named_graph_cases sound named distinct with
        ⟨free, stageGraph, formed⟩ | ⟨entangled, stages, failed⟩
      · rcases renamedCompletes.named_graph_cases sound renamedNamed renamedDistinct with
          ⟨_, renamedGraph, renamedFormed⟩ | ⟨entangled, _⟩
        · obtain ⟨stageEdge, rfl⟩ := graph_rename formed renamedFormed
          rw [formed, renamedFormed]
          refine ⟨{ names with stageEdge := stageEdge, plan := Equiv.swap id otherId }, ?_⟩
          have renamedPlan := staging.plan_rename
            { names with stageEdge := stageEdge, plan := Equiv.swap id otherId } stageGraph id
          rw [Equiv.swap_apply_left] at renamedPlan
          simp only [Except.map]
          exact renamedPlan.symm ▸ .ok _
        · exact absurd entangled free
      · rcases renamedCompletes.named_graph_cases sound renamedNamed renamedDistinct with
          ⟨free, _⟩ | ⟨_, renamedStages, renamedFailed⟩
        · exact absurd entangled free
        · rw [failed, renamedFailed]
          exact ⟨names, .error (.cycle _ _)⟩

end Staging

namespace Staging

/-- Fresh identities name the stages in one session, and differ. -/
theorem named_of_fresh {staging : Staging} {session : String}
    (fresh : Fresh session staging.identities) :
    staging.Named session ∧ (staging.stages.map Stage.id).Nodup := by
  constructor
  · intro stage member
    have drawn : (Namespace.stage, stage.id) ∈ staging.identities :=
      List.mem_append_left _ (List.mem_map.mpr ⟨stage, member, rfl⟩)
    exact fresh.named _ drawn
  · have distinct := fresh.distinct
    rw [identities, List.map_append, List.map_map] at distinct
    exact (List.nodup_append.mp distinct).1

end Staging

/-- After the walk, lowerings with fresh answers are one lowering under two sets of identities. -/
theorem Gathering.Walked.comes_echoes {graph : JobGraph} {gathering : Gathering}
    (walked : Walked graph gathering) (sound : graph.Sound) {strict : Bool}
    {answers others : List (Namespace × String)} {lowered other : Lowered}
    (came : (gathering.lower strict).Comes answers (.done lowered))
    (otherCame : (gathering.lower strict).Comes others (.done other))
    {session otherSession : String}
    (fresh : Fresh session answers) (otherFresh : Fresh otherSession others) :
    ∃ names, Echoes (Plan.rename names) lowered.outcome other.outcome := by
  obtain ⟨groups, isPlaced, fit⟩ := walked.placed sound
  obtain ⟨staging, drawn, last, id, drew, rfl, rfl, _⟩ := lower_comes isPlaced came
  obtain ⟨otherStaging, otherDrawn, otherLast, otherId, otherDrew, rfl, rfl, _⟩ :=
    lower_comes isPlaced otherCame
  have drawnFresh := fresh.sublist (List.sublist_append_left drawn last)
  have otherDrawnFresh := otherFresh.sublist (List.sublist_append_left otherDrawn otherLast)
  obtain ⟨names, rfl⟩ := Group.draw_rename drew otherDrew drawnFresh.distinct
    otherDrawnFresh.distinct
  obtain ⟨members, _, rfl⟩ := Group.draw_comes drew
  obtain ⟨otherMembers, _, rfl⟩ := Group.draw_comes otherDrew
  obtain ⟨named, distinct⟩ := Staging.named_of_fresh drawnFresh
  obtain ⟨otherNamed, otherDistinct⟩ := Staging.named_of_fresh otherDrawnFresh
  rw [walked.edges]
  exact Staging.lowered_echoes sound (fit _ members) (fit _ otherMembers) named otherNamed
    distinct otherDistinct strict id otherId

/-- After the walk, lowerings from two sources are one lowering under two sets of identities. -/
theorem Gathering.Walked.lower_echoes {graph : JobGraph} {gathering : Gathering}
    (walked : Walked graph gathering) (sound : graph.Sound) (strict : Bool) (source other : Source)
    (lasts : source.Lasts (gathering.lower strict)) :
    ∃ names, Echoes (Plan.rename names) ((gathering.lower strict).run source).1.outcome
      ((gathering.lower strict).run other).1.outcome := by
  obtain ⟨answers, came, given, counted⟩ := (gathering.lower strict).run_comes source
  obtain ⟨others, otherCame, otherGiven, _⟩ := (gathering.lower strict).run_comes other
  have bounded : ∀ ns, (answers.map Prod.fst).count ns ≤ 2 ^ 64 := by
    intro ns
    have enough := lasts ns
    rw [counted]
    omega
  obtain ⟨groups, isPlaced, _⟩ := walked.placed sound
  exact walked.comes_echoes sound came otherCame (given.fresh bounded)
    (otherGiven.fresh (lower_bounded isPlaced came otherCame bounded))

/-- The source that identities are taken from decides nothing but the identities.

Lowerings of a graph from two sources both fail, with faults of one type that differ in nothing but
the identities they name, or they both succeed, and one plan is the other under a renaming. Then
both have the same stages in the same order, the same bytes are digested, and the fingerprints are
equal. Since as many identities are drawn from either source, it is enough to know that one of them
does not run out of numbers. -/
theorem identities_irrelevant (graph : JobGraph) (made : graph.Made) (strict : Bool)
    (source other : Source) (lasts : source.Lasts (lower strict (some graph))) :
    (∃ plan names, ((lower strict (some graph)).run source).1.outcome = .ok plan ∧
        ((lower strict (some graph)).run other).1.outcome = .ok (plan.rename names) ∧
        (plan.rename names).stages = plan.stages.map (Stage.rename names) ∧
        (plan.rename names).structureBytes = plan.structureBytes ∧
        (plan.rename names).fingerprint = plan.fingerprint) ∨
      ∃ fault otherFault, ((lower strict (some graph)).run source).1.outcome = .error fault ∧
        ((lower strict (some graph)).run other).1.outcome = .error otherFault ∧
        fault.Resembles otherFault := by
  have sound := made.sound
  rcases first_or_none (fun edge : Edge => edge.pattern? = none) graph.arrivals with
    ⟨edge, first⟩ | patterned
  · rw [Gathering.lower_of_missing strict sound edge first]
    exact Or.inr ⟨_, _, rfl, rfl, .same _⟩
  · obtain ⟨gathering, walked, isWalked⟩ := Gathering.lower_of_patterned strict sound
      fun edge member => patterned edge ((sound.mem_arrivals edge).mpr member)
    rw [isWalked] at lasts ⊢
    obtain ⟨names, echoes⟩ := walked.lower_echoes sound strict source other lasts
    generalize ((gathering.lower strict).run source).1.outcome = result at echoes ⊢
    generalize ((gathering.lower strict).run other).1.outcome = otherResult at echoes ⊢
    cases echoes with
    | error resembles => exact Or.inr ⟨_, _, rfl, rfl, resembles⟩
    | ok plan =>
        have bytes : (plan.rename names).structureBytes = plan.structureBytes := by
          rw [Plan.structureBytes, Plan.structureText_rename, Plan.structureBytes]
        refine Or.inl ⟨plan, names, rfl, rfl, Plan.stages_rename names plan, bytes, ?_⟩
        rw [Plan.fingerprint, bytes, Plan.fingerprint]

/-- A source with another tag and other counters gives the same plan under other identities, and the
same digest. -/
theorem twoStages_renamed :
    ∃ plan names, ((lower true (some twoStages)).run (.start "s")).1.outcome = .ok plan ∧
      ((lower true (some twoStages)).run ⟨"t-1->", 7, 10, 99⟩).1.outcome =
        .ok (plan.rename names) ∧
      (plan.rename names).fingerprint = plan.fingerprint := by
  have lasts : (Source.start "s").Lasts (lower true (some twoStages)) := by
    intro ns
    cases ns <;> decide +kernel
  obtain ⟨plan, lowered⟩ := twoStages_lowered
  rcases identities_irrelevant twoStages twoStages_made true (.start "s") ⟨"t-1->", 7, 10, 99⟩ lasts
    with ⟨same, names, isSame, renamed, _, _, fingerprints⟩ | ⟨fault, _, failed, _⟩
  · exact ⟨same, names, isSame, renamed, fingerprints⟩
  · cases lowered.symm.trans failed

end Flowplan
