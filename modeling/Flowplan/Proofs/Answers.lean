import Flowplan.Proofs.Interleavings
import Flowplan.Proofs.Lowerings

/-!
# Drawings and their answers

A drawing goes on with whatever identities its draws are answered with (`Drawing.Comes`), and a
source answers draws one after another (`Source.Gives`). A drawing that is run alone gets all the
answers of a source; one that shares a source with others gets some of them.

A lowering puts its answers in their places and does nothing else with them: every answer is the
identity of one stage, of one task or of the plan. So whatever is known about the answers is known
about the identities of a plan, wherever the answers came from.
-/

namespace Flowplan

/-! ## Going on with answers -/

namespace Drawing

variable {α β : Type}

/-- A drawing comes to another one when its draws get the given answers, one after another. -/
inductive Comes : Drawing α → List (Namespace × String) → Drawing α → Prop
  | start (drawing : Drawing α) : Comes drawing [] drawing
  | answered {ns : Namespace} {next : String → Drawing α} (id : String)
      {answers : List (Namespace × String)} {rest : Drawing α}
      (onward : Comes (next id) answers rest) : Comes (draw ns next) ((ns, id) :: answers) rest

namespace Comes

variable {drawing : Drawing α} {answers : List (Namespace × String)}

/-- One more draw is answered. -/
theorem further {ns : Namespace} {next : String → Drawing α}
    (came : drawing.Comes answers (draw ns next)) (id : String) :
    drawing.Comes (answers ++ [(ns, id)]) (next id) := by
  generalize stopped : draw ns next = rest at came
  induction came with
  | start drawing =>
      subst stopped
      exact .answered id (.start _)
  | answered first onward inductionHypothesis =>
      exact .answered first (inductionHypothesis stopped)

/-- A finished drawing asks for nothing more. -/
theorem done_inv {value : α} {rest : Drawing α} (came : (done value).Comes answers rest) :
    answers = [] ∧ rest = done value := by
  cases came
  exact ⟨rfl, rfl⟩

/-- A drawing that starts with a draw and came to its end got an answer, and went on with it. -/
theorem draw_inv {ns : Namespace} {next : String → Drawing α} {result : α}
    (came : (draw ns next).Comes answers (done result)) :
    ∃ id later, answers = (ns, id) :: later ∧ (next id).Comes later (done result) := by
  cases came with
  | answered id onward => exact ⟨id, _, rfl, onward⟩

/-- The first part of a drawing gets the first answers, and the second part the others. -/
theorem bind_inv {next : α → Drawing β} {result : β}
    (came : (drawing.bind next).Comes answers (done result)) :
    ∃ before after value, answers = before ++ after ∧ drawing.Comes before (done value) ∧
      (next value).Comes after (done result) := by
  induction drawing generalizing answers with
  | done value => exact ⟨[], answers, value, rfl, .start _, came⟩
  | draw ns rest inductionHypothesis =>
      obtain ⟨id, later, rfl, onward⟩ := draw_inv came
      obtain ⟨before, after, value, rfl, first, second⟩ := inductionHypothesis id onward
      exact ⟨(ns, id) :: before, after, value, rfl, .answered id first, second⟩

/-- Several identities are answered by as many answers. -/
theorem many_inv {ns : Namespace} {count : Nat} {ids : List String}
    (came : (many ns count).Comes answers (done ids)) :
    answers = ids.map (Prod.mk ns) ∧ ids.length = count := by
  induction count generalizing answers ids with
  | zero =>
      obtain ⟨rfl, same⟩ := done_inv came
      cases same
      exact ⟨rfl, rfl⟩
  | succ count inductionHypothesis =>
      obtain ⟨id, later, rfl, onward⟩ := draw_inv came
      obtain ⟨before, after, others, rfl, first, last⟩ := bind_inv onward
      obtain ⟨rfl, same⟩ := done_inv last
      cases same
      obtain ⟨rfl, length⟩ := inductionHypothesis first
      exact ⟨by simp, by rw [List.length_cons, length]⟩

end Comes

end Drawing

/-! ## Answers of a source -/

namespace Source

/-- A source gives answers, one after another, and is left with another state. -/
inductive Gives (source : Source) : List (Namespace × String) → Source → Prop
  | start : Gives source [] source
  | next {answers : List (Namespace × String)} {after : Source}
      (given : Gives source answers after) (ns : Namespace) :
      Gives source (answers ++ [(ns, (after.draw ns).1)]) (after.draw ns).2

namespace Gives

variable {source after : Source} {answers : List (Namespace × String)}

/-- What a source gives in two parts it gives in one. -/
theorem trans (given : source.Gives answers after) {later : List (Namespace × String)}
    {final : Source} (givenLater : after.Gives later final) :
    source.Gives (answers ++ later) final := by
  induction givenLater with
  | start => simpa using given
  | next _ ns inductionHypothesis => simpa using inductionHypothesis.next ns

/-- A source keeps its session tag, and counts the answers of every namespace. -/
theorem counts (given : source.Gives answers after) :
    after.session = source.session ∧ ∀ ns, after.counter ns =
      source.counter ns + UInt64.ofNat ((answers.map Prod.fst).count ns) := by
  induction given with
  | start => exact ⟨rfl, fun ns => (UInt64.add_zero _).symm⟩
  | next given asked inductionHypothesis =>
      rename_i former before
      obtain ⟨session, counters⟩ := inductionHypothesis
      refine ⟨(before.session_advance asked).trans session, ?_⟩
      intro ns
      simp only [draw, before.counter_advance, counters, List.map_append, List.count_append,
        List.map_cons, List.map_nil, List.count_singleton, beq_iff_eq]
      by_cases same : asked = ns
      · rw [if_pos same, if_pos same, UInt64.ofNat_add, UInt64.add_assoc]
        rfl
      · rw [if_neg same, if_neg same, Nat.add_zero]

/-- The answers of a namespace have consecutive numbers. -/
theorem numbered (given : source.Gives answers after) {ns : Namespace} {id : String}
    (member : (ns, id) ∈ answers) :
    ∃ number < (answers.map Prod.fst).count ns,
      id = identity source.session ns (source.counter ns + UInt64.ofNat number) := by
  induction given with
  | start => exact nomatch member
  | next given asked inductionHypothesis =>
      rename_i former before
      obtain ⟨session, counters⟩ := given.counts
      rw [List.map_append, List.count_append]
      rcases List.mem_append.mp member with old | new
      · obtain ⟨number, bound, named⟩ := inductionHypothesis old
        exact ⟨number, by omega, named⟩
      · obtain ⟨rfl, rfl⟩ := Prod.mk.inj (List.mem_singleton.mp new)
        refine ⟨_, ?_, by rw [draw, session, counters]⟩
        simp

/-- As long as no counter comes round, all answers are distinct. -/
theorem distinct (given : source.Gives answers after)
    (bounded : ∀ ns, (answers.map Prod.fst).count ns ≤ 2 ^ 64) :
    (answers.map Prod.snd).Nodup := by
  induction given with
  | start => exact List.nodup_nil
  | next given asked inductionHypothesis =>
      rename_i former before
      have total : ∀ ns, (former.map Prod.fst).count ns + [asked].count ns ≤ 2 ^ 64 := by
        intro ns
        simpa only [List.map_append, List.count_append, List.map_singleton] using bounded ns
      have earlier := inductionHypothesis fun ns => Nat.le_of_add_right_le (total ns)
      rw [List.map_append, List.map_singleton]
      refine List.nodup_append.mpr ⟨earlier, List.nodup_singleton _, ?_⟩
      rintro id old _ new rfl
      obtain ⟨⟨ns, _⟩, member, rfl⟩ := List.mem_map.mp old
      obtain ⟨number, bound, named⟩ := given.numbered member
      obtain ⟨session, counters⟩ := given.counts
      have same := named.symm.trans (List.mem_singleton.mp new)
      rw [draw, session, counters] at same
      obtain ⟨rfl, _, sameNumber⟩ := identity_tells same
      have enough := total ns
      rw [List.count_singleton_self] at enough
      have equal := numbers_injective _ _ _ (by omega) (by omega) sameNumber
      omega

end Gives

end Source

/-- Distinct answers, each of them an identity of its namespace with one session tag. -/
structure Fresh (session : String) (answers : List (Namespace × String)) : Prop where
  distinct : (answers.map Prod.snd).Nodup
  named : ∀ answer ∈ answers, ∃ number, answer.2 = Source.identity session answer.1 number

namespace Fresh

variable {session : String} {answers : List (Namespace × String)}

/-- Some of the answers are as fresh as all of them. -/
theorem sublist (fresh : Fresh session answers) {part : List (Namespace × String)}
    (sublist : part.Sublist answers) : Fresh session part :=
  ⟨fresh.distinct.sublist (sublist.map Prod.snd),
    fun answer member => fresh.named answer (sublist.subset member)⟩

end Fresh

/-- The answers of a source are fresh as long as no counter comes round. -/
theorem Source.Gives.fresh {source after : Source} {answers : List (Namespace × String)}
    (given : source.Gives answers after)
    (bounded : ∀ ns, (answers.map Prod.fst).count ns ≤ 2 ^ 64) : Fresh source.session answers := by
  refine ⟨given.distinct bounded, ?_⟩
  intro answer member
  obtain ⟨number, _, named⟩ := given.numbered member
  exact ⟨_, named⟩

/-- A drawing that is run gets the answers of its source, as many as it draws. -/
theorem Drawing.run_comes {α : Type} (drawing : Drawing α) (source : Source) :
    ∃ answers, drawing.Comes answers (.done (drawing.run source).1) ∧
      source.Gives answers (drawing.run source).2 ∧
      ∀ ns, (answers.map Prod.fst).count ns = drawing.drawn source ns := by
  induction drawing generalizing source with
  | done result => exact ⟨[], .start _, .start, fun _ => rfl⟩
  | draw ns next inductionHypothesis =>
      obtain ⟨answers, came, given, counted⟩ :=
        inductionHypothesis (source.draw ns).1 (source.draw ns).2
      refine ⟨(ns, (source.draw ns).1) :: answers, .answered _ came, ?_, ?_⟩
      · exact Source.Gives.trans (.next .start ns) given
      · intro asked
        rw [List.map_cons, List.count_cons, counted asked, drawn, Nat.add_comm]
        simp only [beq_iff_eq]

/-! ## Answers in their places -/

/-- A stage has one task for each of its members, in the same order. -/
structure Stage.Staffed (stage : Stage) : Prop where
  vertices : stage.tasks.map Task.vertex = stage.memberIds
  owned : ∀ task ∈ stage.tasks, task.stage = stage.id

/-- A staffed stage has as many tasks as members. -/
theorem Stage.Staffed.length_eq {stage : Stage} (staffed : stage.Staffed) :
    stage.tasks.length = stage.members.length := by
  simpa [Stage.memberIds] using congrArg List.length staffed.vertices

/-- Staffed stages have as many tasks as members in all. -/
theorem Stage.length_tasks {stages : List Stage} (staffed : ∀ stage ∈ stages, stage.Staffed) :
    (stages.flatMap Stage.tasks).length = (stages.flatMap Stage.members).length := by
  have sameLengths : ∀ stage ∈ stages, stage.tasks.length = stage.members.length :=
    fun stage member => (staffed stage member).length_eq
  rw [List.length_flatMap, List.map_congr_left sameLengths, ← List.length_flatMap]

/-- The identities of stages and of their tasks, in the order in which they were drawn. -/
def Staging.identities (staging : Staging) : List (Namespace × String) :=
  (staging.stages.map fun stage => (.stage, stage.id)) ++
    (staging.stages.flatMap Stage.tasks).map fun task => (.task, task.id)

/-- Identities are drawn for every stage and for every task. -/
theorem Staging.count_identities (staging : Staging) :
    (staging.identities.map Prod.fst).count .plan = 0 ∧
      (staging.identities.map Prod.fst).count .stage = staging.stages.length ∧
      (staging.identities.map Prod.fst).count .task =
        (staging.stages.flatMap Stage.tasks).length := by
  have namespaces : staging.identities.map Prod.fst =
      List.replicate staging.stages.length .stage ++
        List.replicate (staging.stages.flatMap Stage.tasks).length .task := by
    rw [identities, List.map_append, List.map_map, List.map_map]
    exact congrArg₂ _ List.map_const' List.map_const'
  simp [namespaces, List.count_replicate]

namespace Group

/-- With as many identities as members, the stage of a group has all its tasks. -/
theorem stage_staffed (group : Group) (id : String) {taskIds : List String}
    (enough : taskIds.length = group.members.length) :
    (group.stage id taskIds).Staffed ∧ (group.stage id taskIds).tasks.map Task.id = taskIds := by
  refine ⟨⟨?_, ?_⟩, ?_⟩
  · have vertices : (taskIds.zip group.members).map Prod.snd = group.members :=
      List.map_snd_zip (Nat.le_of_eq enough.symm)
    rw [stage, List.map_map, Stage.memberIds, ← vertices, List.map_map]
    simp only [vertices]
    rfl
  · intro task member
    obtain ⟨_, _, rfl⟩ := List.mem_map.mp member
    rfl
  · rw [stage, List.map_map]
    exact List.map_fst_zip (Nat.le_of_eq enough)

/-- Every group becomes a stage with the next identity. The answers are the identities of the
tasks. -/
theorem drawStages_comes {groups : List Group} {ids : List String}
    {answers : List (Namespace × String)} {stages : List Stage}
    (enough : ids.length = groups.length)
    (came : (drawStages groups ids).Comes answers (.done stages)) :
    stages.map Stage.id = ids ∧ stages.map Stage.members = groups.map Group.members ∧
      (∀ stage ∈ stages, stage.Staffed) ∧
      answers = (stages.flatMap Stage.tasks).map fun task => (.task, task.id) := by
  induction groups generalizing ids answers stages with
  | nil =>
      obtain rfl := List.eq_nil_of_length_eq_zero enough
      obtain ⟨rfl, same⟩ := Drawing.Comes.done_inv came
      cases same
      exact ⟨rfl, rfl, nofun, rfl⟩
  | cons group rest inductionHypothesis =>
      cases ids with
      | nil => cases enough
      | cons id later =>
          obtain ⟨_, _, taskIds, rfl, first, onward⟩ := Drawing.Comes.bind_inv came
          obtain ⟨_, _, others, rfl, second, last⟩ := Drawing.Comes.bind_inv onward
          obtain ⟨rfl, same⟩ := Drawing.Comes.done_inv last
          cases same
          obtain ⟨rfl, asMany⟩ := Drawing.Comes.many_inv first
          obtain ⟨sameIds, sameMembers, staffed, rfl⟩ :=
            inductionHypothesis (Nat.succ.inj enough) second
          obtain ⟨firstStaffed, named⟩ := group.stage_staffed id asMany
          refine ⟨by rw [List.map_cons, sameIds]; rfl, by rw [List.map_cons, sameMembers]; rfl,
            List.forall_mem_cons.mpr ⟨firstStaffed, staffed⟩, ?_⟩
          have tasks : taskIds.map (Prod.mk Namespace.task) =
              (group.stage id taskIds).tasks.map fun task => (.task, task.id) := by
            rw [← Function.comp_def (Prod.mk Namespace.task) Task.id, ← List.map_map, named]
          rw [List.flatMap_cons, List.map_append, List.append_nil, tasks]

/-- Stages with the members of groups have a task for every member. -/
theorem length_tasks {groups : List Group} {stages : List Stage}
    (members : stages.map Stage.members = groups.map Group.members)
    (staffed : ∀ stage ∈ stages, stage.Staffed) :
    (stages.flatMap Stage.tasks).length = (groups.flatMap Group.members).length := by
  rw [Stage.length_tasks staffed, List.flatMap_def, List.flatMap_def, members]

/-- The answers to the draws for groups are the identities of their stages and tasks. -/
theorem draw_comes {groups : List Group} {answers : List (Namespace × String)}
    {staging : Staging} (came : (draw groups).Comes answers (.done staging.stages)) :
    staging.stages.map Stage.members = groups.map Group.members ∧
      (∀ stage ∈ staging.stages, stage.Staffed) ∧ answers = staging.identities := by
  obtain ⟨_, _, ids, rfl, first, onward⟩ := Drawing.Comes.bind_inv came
  obtain ⟨rfl, asMany⟩ := Drawing.Comes.many_inv first
  obtain ⟨rfl, members, staffed, rfl⟩ := drawStages_comes asMany onward
  refine ⟨members, staffed, ?_⟩
  rw [Staging.identities, List.map_map]
  rfl

end Group

namespace Gathering

/-- A lowering that was given answers has drawn stages, and goes on with them. The last answer is
the identity of the plan, if there is one. -/
theorem lower_comes {gathering : Gathering} {strict : Bool} {groups : List Group}
    (isPlaced : Group.placeAll gathering.groups gathering.order [] = .ok groups)
    {answers : List (Namespace × String)} {lowered : Lowered}
    (came : (gathering.lower strict).Comes answers (.done lowered)) :
    ∃ (staging : Staging) (drawn last : List (Namespace × String)) (id : String),
      (Group.draw groups).Comes drawn (.done staging.stages) ∧ answers = drawn ++ last ∧
      lowered = staging.lowered strict gathering.groups gathering.edges id ∧
      last = (lowered.outcome.toOption.map fun plan => (.plan, plan.id)).toList := by
  rw [lower, isPlaced] at came
  obtain ⟨drawn, last, stages, rfl, first, onward⟩ := Drawing.Comes.bind_inv came
  have whole : ∃ id,
      lowered = Staging.lowered ⟨stages⟩ strict gathering.groups gathering.edges id ∧
        last = (lowered.outcome.toOption.map fun plan => (Namespace.plan, plan.id)).toList := by
    dsimp only at onward
    simp only [Staging.lowered]
    generalize Staging.bundleAll ⟨stages⟩ strict gathering.groups gathering.edges [] = bundled
      at onward ⊢
    obtain ⟨fault | bundles, conflicts⟩ := bundled
    · obtain ⟨rfl, same⟩ := Drawing.Comes.done_inv onward
      cases same
      exact ⟨"", rfl, rfl⟩
    · cases formed : Staging.graph ⟨stages⟩ bundles with
      | error fault =>
          simp only [formed] at onward
          obtain ⟨rfl, same⟩ := Drawing.Comes.done_inv onward
          cases same
          exact ⟨"", by simp only [Except.bind, formed, Except.map], rfl⟩
      | ok stageGraph =>
          simp only [formed] at onward
          obtain ⟨id, _, rfl, final⟩ := Drawing.Comes.draw_inv onward
          obtain ⟨rfl, same⟩ := Drawing.Comes.done_inv final
          cases same
          exact ⟨id, by simp only [Except.bind, formed, Except.map], rfl⟩
  obtain ⟨id, isLowered, isLast⟩ := whole
  exact ⟨⟨stages⟩, drawn, last, id, first, rfl, isLowered, isLast⟩

/-- A lowering draws an identity for every group, one for every member of a group, and at most one
for a plan. -/
theorem count_lower {gathering : Gathering} {strict : Bool} {groups : List Group}
    (isPlaced : Group.placeAll gathering.groups gathering.order [] = .ok groups)
    {answers : List (Namespace × String)} {lowered : Lowered}
    (came : (gathering.lower strict).Comes answers (.done lowered)) :
    (answers.map Prod.fst).count .plan ≤ 1 ∧
      (answers.map Prod.fst).count .stage = groups.length ∧
      (answers.map Prod.fst).count .task = (groups.flatMap Group.members).length := by
  obtain ⟨staging, _, last, _, drew, rfl, _, isLast⟩ := lower_comes isPlaced came
  obtain ⟨members, staffed, rfl⟩ := Group.draw_comes drew
  obtain ⟨plans, stages, tasks⟩ := staging.count_identities
  have stageCount : staging.stages.length = groups.length := by
    simpa using congrArg List.length members
  have taskCount := Group.length_tasks members staffed
  have lastCount : (last.map Prod.fst).count .plan ≤ 1 ∧
      (last.map Prod.fst).count .stage = 0 ∧ (last.map Prod.fst).count .task = 0 := by
    rw [isLast]
    cases lowered.outcome.toOption with
    | none => simp
    | some plan => simp
  rw [List.map_append, List.count_append, List.count_append, List.count_append]
  omega

/-- If some answers to a lowering did not use up a namespace, no others do. -/
theorem lower_bounded {gathering : Gathering} {strict : Bool} {groups : List Group}
    (isPlaced : Group.placeAll gathering.groups gathering.order [] = .ok groups)
    {answers others : List (Namespace × String)} {lowered other : Lowered}
    (came : (gathering.lower strict).Comes answers (.done lowered))
    (otherCame : (gathering.lower strict).Comes others (.done other))
    (bounded : ∀ ns, (answers.map Prod.fst).count ns ≤ 2 ^ 64) (ns : Namespace) :
    (others.map Prod.fst).count ns ≤ 2 ^ 64 := by
  obtain ⟨_, stages, tasks⟩ := count_lower isPlaced came
  obtain ⟨otherPlans, otherStages, otherTasks⟩ := count_lower isPlaced otherCame
  cases ns with
  | plan => omega
  | stage => exact otherStages.trans stages.symm ▸ bounded .stage
  | task => exact otherTasks.trans tasks.symm ▸ bounded .task

end Gathering

/-- A lowering fails before it draws anything, or it goes on after a walk. -/
theorem JobGraph.Sound.lower_cases {graph : JobGraph} (sound : graph.Sound) (strict : Bool) :
    (∃ fault, lower strict (some graph) = .done (.failed fault)) ∨
      ∃ gathering, Gathering.Walked graph gathering ∧
        lower strict (some graph) = gathering.lower strict := by
  cases first_or_none (fun edge : Edge => edge.pattern? = none) graph.arrivals with
  | inl missing =>
      obtain ⟨edge, first⟩ := missing
      exact Or.inl ⟨_, Gathering.lower_of_missing strict sound edge first⟩
  | inr patterned =>
      exact Or.inr (Gathering.lower_of_patterned strict sound
        fun edge member => patterned edge ((sound.mem_arrivals edge).mpr member))

end Flowplan
