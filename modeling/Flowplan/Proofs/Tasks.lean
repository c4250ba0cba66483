import Flowplan.Proofs.Answers
import Flowplan.Proofs.Plans

/-!
# Tasks and vertices

The tasks of a plan stand for the vertices of the job graph, one for each. A plan finds the vertex
of a task by the id of the task, the stage of a vertex by the id of the vertex, and a stage by its
own id. The three indexes are made one by one, and none of them would notice an id that comes up
twice. That they agree rests on the identities being fresh, and on the stages listing every vertex
once.
-/

namespace Flowplan

/-- Lists that show the same are paired by what they show. -/
theorem eq_of_mem_zip {α β γ : Type} {list : List α} {other : List β} {look : α → γ}
    {otherLook : β → γ} (same : list.map look = other.map otherLook) {one : α} {two : β}
    (paired : (one, two) ∈ list.zip other) : look one = otherLook two := by
  induction list generalizing other with
  | nil => cases paired
  | cons first rest inductionHypothesis =>
      cases other with
      | nil => cases same
      | cons otherFirst otherRest =>
          obtain ⟨here, behind⟩ := List.cons.inj same
          cases List.mem_cons.mp paired with
          | inl atFront =>
              cases atFront
              exact here
          | inr later => exact inductionHypothesis behind later

/-! ## The vertices of tasks -/

/-- A task is paired with the vertex it is for. -/
theorem Stage.Staffed.vertex_eq {stage : Stage} (staffed : stage.Staffed) {task : Task}
    {vertex : Vertex} (paired : (task, vertex) ∈ stage.tasks.zip stage.members) :
    task.vertex = vertex.id :=
  eq_of_mem_zip staffed.vertices paired

namespace Staging

variable {staging : Staging}

/-- The tasks that vertices are noted for are those of the stages. -/
theorem taskVertices_keys (staffed : ∀ stage ∈ staging.stages, stage.Staffed) :
    staging.taskVertices.map Prod.fst = (staging.stages.flatMap Stage.tasks).map Task.id := by
  rw [taskVertices, List.map_flatMap, List.map_flatMap]
  apply List.flatMap_congr
  intro stage member
  have tasks : (stage.tasks.zip stage.members).map Prod.fst = stage.tasks :=
    List.map_fst_zip (Nat.le_of_eq (staffed stage member).length_eq)
  rw [List.map_map, ← congrArg (List.map Task.id) tasks, List.map_map]
  rfl

/-- One vertex is noted for each task. -/
theorem length_taskVertices (staffed : ∀ stage ∈ staging.stages, stage.Staffed) :
    staging.taskVertices.length = (staging.stages.flatMap Stage.tasks).length := by
  simpa using congrArg List.length (taskVertices_keys staffed)

/-- A task stands in the index beside the member of its stage that it is for. -/
theorem exists_taskVertex (staffed : ∀ stage ∈ staging.stages, stage.Staffed) {stage : Stage}
    (stageIn : stage ∈ staging.stages) {task : Task} (taskIn : task ∈ stage.tasks) :
    ∃ vertex ∈ stage.members, vertex.id = task.vertex ∧
      (task.id, vertex) ∈ staging.taskVertices := by
  have tasks : (stage.tasks.zip stage.members).map Prod.fst = stage.tasks :=
    List.map_fst_zip (Nat.le_of_eq (staffed stage stageIn).length_eq)
  obtain ⟨⟨_, vertex⟩, paired, rfl⟩ := List.mem_map.mp (tasks.symm ▸ taskIn)
  refine ⟨vertex, (List.of_mem_zip paired).2, ((staffed stage stageIn).vertex_eq paired).symm, ?_⟩
  exact List.mem_flatMap.mpr ⟨stage, stageIn, List.mem_map.mpr ⟨_, paired, rfl⟩⟩

end Staging

/-! ## The tasks of a plan -/

namespace Plan

/-- The tasks of all stages. -/
def tasks (plan : Plan) : List Task :=
  plan.stages.flatMap Stage.tasks

/-- The identity of the plan, and those of its stages and tasks. -/
def identities (plan : Plan) : List String :=
  plan.id :: (plan.stages.map Stage.id ++ plan.tasks.map Task.id)

/-- A plan realizes its stages together with their tasks, which were given the answers to the
draws. -/
structure Staffs (plan : Plan) (staging : Staging) (sets : DisjointSets) (graph : JobGraph)
    (answers : List (Namespace × String)) : Prop extends Realizes plan staging sets graph where
  staffed : ∀ stage ∈ staging.stages, stage.Staffed
  taskVertices : plan.taskVertices = staging.taskVertices
  answers : answers = staging.identities ++ [(.plan, plan.id)]

/-- Whatever a lowering was answered, the plan staffs the stages drawn for the graph. -/
theorem staffs_of_comes {graph : JobGraph} (sound : graph.Sound) {strict : Bool}
    {answers : List (Namespace × String)} {lowered : Lowered} {plan : Plan}
    (came : (lower strict (some graph)).Comes answers (.done lowered))
    (succeeds : lowered.outcome = .ok plan) :
    ∃ staging sets, plan.Staffs staging sets graph answers := by
  cases sound.lower_cases strict with
  | inl failing =>
      obtain ⟨fault, fails⟩ := failing
      rw [fails] at came
      obtain ⟨_, same⟩ := came.done_inv
      cases same
      cases succeeds
  | inr walking =>
      obtain ⟨gathering, walked, isWalked⟩ := walking
      rw [isWalked] at came
      obtain ⟨groups, isPlaced, fit⟩ := walked.placed sound
      obtain ⟨staging, _, _, id, drew, rfl, rfl, isLast⟩ := Gathering.lower_comes isPlaced came
      obtain ⟨members, staffed, rfl⟩ := Group.draw_comes drew
      rw [walked.edges] at succeeds isLast
      refine ⟨staging, gathering.groups, realizes_of_lowered sound (fit staging members) succeeds,
        staffed, ?_, ?_⟩
      · obtain ⟨_, _, _, _, rfl⟩ := Staging.lowered_ok succeeds
        rfl
      · rw [isLast, succeeds]
        rfl

namespace Staffs

variable {plan : Plan} {staging : Staging} {sets : DisjointSets} {graph : JobGraph}
  {answers : List (Namespace × String)}

/-- The tasks of a plan are those of the stages that were drawn. -/
theorem tasks_perm (staffs : plan.Staffs staging sets graph answers) :
    plan.tasks.Perm (staging.stages.flatMap Stage.tasks) :=
  staffs.stages_perm.flatMap_right Stage.tasks

/-- The identities of a plan are the answers to the draws, each used once. -/
theorem identities_perm (staffs : plan.Staffs staging sets graph answers) :
    plan.identities.Perm (answers.map Prod.snd) := by
  have placed : answers.map Prod.snd = (staging.stages.map Stage.id ++
      (staging.stages.flatMap Stage.tasks).map Task.id) ++ [plan.id] := by
    rw [staffs.answers, List.map_append, Staging.identities, List.map_append, List.map_map,
      List.map_map]
    rfl
  rw [placed, identities]
  refine List.Perm.trans ?_ (List.perm_append_singleton _ _).symm
  exact (List.Perm.append (staffs.stages_perm.map Stage.id)
    (staffs.tasks_perm.map Task.id)).cons plan.id

/-- There are as many tasks as vertices. -/
theorem length_tasks (staffs : plan.Staffs staging sets graph answers) :
    (staging.stages.flatMap Stage.tasks).length = graph.size := by
  rw [Stage.length_tasks staffs.staffed, staffs.splits.listed.length_eq]
  rfl

/-- With fewer vertices than numbers, no counter comes round. -/
theorem bounded (staffs : plan.Staffs staging sets graph answers) (bound : graph.size < 2 ^ 64)
    (ns : Namespace) : (answers.map Prod.fst).count ns ≤ 2 ^ 64 := by
  obtain ⟨plans, stages, tasks⟩ := staging.count_identities
  have fewer := staffs.splits.length_le
  have asMany := staffs.length_tasks
  have drawn : (staging.identities.map Prod.fst).count ns < 2 ^ 64 := by
    cases ns with
    | plan => omega
    | stage => omega
    | task => omega
  have last : ([(Namespace.plan, plan.id)].map Prod.fst).count ns ≤ 1 := List.count_le_length
  rw [staffs.answers, List.map_append, List.count_append]
  omega

variable (staffs : plan.Staffs staging sets graph answers)
  (distinct : (answers.map Prod.snd).Nodup)

include staffs distinct

/-- No two tasks have the same identity. -/
theorem tasks_distinct : (plan.tasks.map Task.id).Nodup := by
  have all := staffs.identities_perm.nodup_iff.mpr distinct
  exact (List.nodup_append.mp (List.nodup_cons.mp all).2).2.1

/-- No task has two vertices noted for it. -/
theorem keys_distinct : (plan.taskVertices.map Prod.fst).Nodup := by
  rw [staffs.taskVertices, Staging.taskVertices_keys staffs.staffed]
  exact (staffs.tasks_perm.map Task.id).nodup_iff.mp (staffs.tasks_distinct distinct)

/-- The vertex of a task is the one noted for it. -/
theorem taskVertex?_iff (id : String) (vertex : Vertex) :
    plan.taskVertex? id = some vertex ↔ (id, vertex) ∈ plan.taskVertices :=
  lookup_iff_mem_of_distinct _ (staffs.keys_distinct distinct) id vertex

/-- Looking up a task finds a vertex exactly if the plan has such a task. -/
theorem taskVertex?_isSome_iff (id : String) :
    (plan.taskVertex? id).isSome ↔ id ∈ plan.tasks.map Task.id := by
  rw [(staffs.tasks_perm.map Task.id).mem_iff, ← Staging.taskVertices_keys staffs.staffed,
    ← staffs.taskVertices, Option.isSome_iff_exists, List.mem_map]
  simp only [staffs.taskVertex?_iff distinct]
  constructor
  · rintro ⟨vertex, member⟩
    exact ⟨(id, vertex), member, rfl⟩
  · rintro ⟨⟨_, vertex⟩, member, rfl⟩
    exact ⟨vertex, member⟩

/-- Looking up a task finds the vertex of the graph that it is for. -/
theorem taskVertex?_eq (sound : graph.Sound) {task : Task} (member : task ∈ plan.tasks) :
    ∃ vertex, plan.taskVertex? task.id = some vertex ∧ graph.vertex? task.vertex = some vertex := by
  obtain ⟨stage, stageIn, taskIn⟩ := List.mem_flatMap.mp (staffs.tasks_perm.mem_iff.mp member)
  obtain ⟨vertex, vertexIn, named, filed⟩ :=
    Staging.exists_taskVertex staffs.staffed stageIn taskIn
  refine ⟨vertex, ?_, ?_⟩
  · exact (staffs.taskVertex?_iff distinct _ _).mpr (staffs.taskVertices ▸ filed)
  · have listed := staffs.splits.listed.mem_iff.mp (List.mem_flatMap.mpr ⟨stage, stageIn, vertexIn⟩)
    exact (sound.intact.vertex?_iff _ _).mpr ⟨listed, named⟩

end Staffs

/-- Sorting the tasks neither adds nor loses one. -/
theorem sortedTasks_perm (plan : Plan) : plan.sortedTasks.Perm plan.taskVertices :=
  List.mergeSort_perm _ _

end Plan

/-- Tasks and vertices are in bijection, and all indexes of a plan agree about it.

The tasks have distinct ids, and each stage has one task for each of its members, in the same order.
Looking up the id of a task finds the vertex it is for, as it stands in the graph, and no other id
is found. The stage of that vertex is the stage of the task. A stage is found by its id, and the
sorted index of tasks has as many entries as the graph has vertices and says the same as looking
them up one by one. -/
theorem tasks_are_vertices (graph : JobGraph) (made : graph.Made) (bound : graph.size < 2 ^ 64)
    (strict : Bool) (source : Source) (plan : Plan)
    (lowered : ((lower strict (some graph)).run source).1.outcome = .ok plan) :
    (plan.tasks.map Task.id).Nodup ∧
      (plan.tasks.map Task.vertex).Perm (graph.vertices.map Vertex.id) ∧
      (plan.tasks.map Task.vertex).Nodup ∧
      (∀ stage ∈ plan.stages, stage.tasks.map Task.vertex = stage.memberIds ∧
        ∀ task ∈ stage.tasks, task.stage = stage.id) ∧
      (∀ id, (plan.taskVertex? id).isSome ↔ id ∈ plan.tasks.map Task.id) ∧
      (∀ task ∈ plan.tasks, ∃ vertex ∈ graph.vertices, vertex.id = task.vertex ∧
        plan.taskVertex? task.id = some vertex ∧ graph.vertex? task.vertex = some vertex) ∧
      (∀ task ∈ plan.tasks, ∃ stage ∈ plan.stages, stage.id = task.stage ∧
        task ∈ stage.tasks ∧ plan.stageOf? task.vertex = some stage) ∧
      (∀ id stage, plan.stage? id = some stage ↔ stage ∈ plan.stages ∧ stage.id = id) ∧
      plan.sortedTasks.length = graph.size ∧ (plan.sortedTasks.map Prod.fst).Nodup ∧
      ∀ id vertex, (id, vertex) ∈ plan.sortedTasks ↔ plan.taskVertex? id = some vertex := by
  have sound := made.sound
  obtain ⟨answers, came, given, _⟩ := (lower strict (some graph)).run_comes source
  obtain ⟨staging, sets, staffs⟩ := Plan.staffs_of_comes sound came lowered
  have distinct := given.distinct (staffs.bounded bound)
  have staffed : ∀ stage ∈ plan.stages, stage.Staffed :=
    fun stage stageIn => staffs.staffed stage (staffs.stages_perm.mem_iff.mp stageIn)
  have vertices : plan.tasks.map Task.vertex = plan.stages.flatMap Stage.memberIds := by
    rw [Plan.tasks, List.map_flatMap]
    exact List.flatMap_congr fun stage stageIn => (staffed stage stageIn).vertices
  refine ⟨staffs.tasks_distinct distinct, ?_, ?_, ?_, staffs.taskVertex?_isSome_iff distinct, ?_,
    ?_, ?_, ?_, ?_, ?_⟩
  · rw [vertices, ← sound.ids_eq]
    exact staffs.ids_perm sound
  · rw [vertices]
    exact staffs.ids_distinct sound
  · intro stage stageIn
    exact ⟨(staffed stage stageIn).vertices, (staffed stage stageIn).owned⟩
  · intro task member
    obtain ⟨vertex, found, known⟩ := staffs.taskVertex?_eq distinct sound member
    obtain ⟨listed, named⟩ := (sound.intact.vertex?_iff _ _).mp known
    exact ⟨vertex, listed, named, found, known⟩
  · intro task member
    obtain ⟨stage, stageIn, taskIn⟩ := List.mem_flatMap.mp member
    have inStage : task.vertex ∈ stage.memberIds :=
      (staffed stage stageIn).vertices ▸ List.mem_map_of_mem taskIn
    exact ⟨stage, stageIn, ((staffed stage stageIn).owned task taskIn).symm, taskIn,
      (staffs.stageOf?_iff sound _ _).mpr ⟨stageIn, inStage⟩⟩
  · intro id stage
    rw [Plan.stage?, staffs.intact.vertex?_iff, staffs.vertices, staffs.stages_perm.mem_iff]
    rfl
  · rw [plan.sortedTasks_perm.length_eq, staffs.taskVertices,
      Staging.length_taskVertices staffs.staffed, staffs.length_tasks]
  · exact (plan.sortedTasks_perm.map Prod.fst).nodup_iff.mpr (staffs.keys_distinct distinct)
  · intro id vertex
    rw [plan.sortedTasks_perm.mem_iff, staffs.taskVertex?_iff distinct]

/-- There are four tasks, one for each vertex. -/
theorem twoStages_tasks :
    ∃ plan, ((lower true (some twoStages)).run (.start "s")).1.outcome = .ok plan ∧
      plan.sortedTasks.length = 4 ∧
      (plan.tasks.map Task.vertex).Perm ["a", "b", "c", "d"] := by
  obtain ⟨plan, lowered⟩ := twoStages_lowered
  obtain ⟨_, listed, _, _, _, _, _, _, entries, _⟩ :=
    tasks_are_vertices twoStages twoStages_made (by decide) true (.start "s") plan lowered
  exact ⟨plan, lowered, entries, listed⟩

end Flowplan
