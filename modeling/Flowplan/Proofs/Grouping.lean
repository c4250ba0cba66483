import Flowplan.Proofs.Filing
import Flowplan.Proofs.Identities
import Flowplan.Proofs.Walk

/-!
# Groups and their stages

Placing the vertices of a walk one after another files them under their representatives. Stages
are drawn for the groups one by one, with consecutive identities, so that the stages of a
lowering are the components of the job graph (`Staging.Splits`).
-/

namespace Flowplan

namespace Group

/-! ## Placing vertices -/

/-- Vertices are filed in groups, under their representatives. -/
def filing (sets : DisjointSets) : Filing Vertex String Group Vertex where
  keyOf := fun vertex => sets.representative? vertex.id
  entry := id
  name := Group.representative
  contents := Group.members

/-- A vertex opens a group behind all others, or goes to the end of the group of its
representative. -/
theorem place_cases (representative : String) (vertex : Vertex) (groups : List Group) :
    representative ∉ groups.map Group.representative ∧
        place representative vertex groups = groups ++ [⟨representative, [vertex]⟩] ∨
      ∃ front group back, groups = front ++ group :: back ∧
        group.representative = representative ∧ place representative vertex groups =
          front ++ { group with members := group.members ++ [vertex] } :: back := by
  induction groups with
  | nil => exact Or.inl ⟨by simp, rfl⟩
  | cons group rest inductionHypothesis =>
      by_cases here : group.representative = representative
      · exact Or.inr ⟨[], group, rest, rfl, here, by rw [place, if_pos here, List.nil_append]⟩
      · rw [place, if_neg here]
        rcases inductionHypothesis with ⟨new, placed⟩ | ⟨front, found, back, split, same, placed⟩
        · refine Or.inl ⟨?_, by rw [placed, List.cons_append]⟩
          intro member
          exact (List.mem_cons.mp member).elim (Ne.symm here) new
        · refine Or.inr ⟨group :: front, found, back, ?_, same, ?_⟩
          · rw [split, List.cons_append]
          · rw [placed, List.cons_append]

/-- Placing a vertex files it. -/
theorem place_holds {sets : DisjointSets} {placed : List Vertex} {groups : List Group}
    (holds : (filing sets).Holds placed groups) (vertex : Vertex) (representative : String)
    (represented : sets.representative? vertex.id = some representative) :
    (filing sets).Holds (placed ++ [vertex]) (place representative vertex groups) := by
  rcases place_cases representative vertex groups with
    ⟨new, isPlaced⟩ | ⟨front, group, back, rfl, rfl, isPlaced⟩
  · rw [isPlaced]
    exact holds.opened vertex ⟨representative, [vertex]⟩ represented new rfl
  · rw [isPlaced]
    exact holds.extended vertex _ represented rfl rfl

/-- If every vertex has a representative, all of them are filed. -/
theorem placeAll_holds {sets : DisjointSets} {placed : List Vertex} {groups : List Group}
    (holds : (filing sets).Holds placed groups) (vertices : List Vertex)
    (represented : ∀ vertex ∈ vertices, ∃ representative,
      sets.representative? vertex.id = some representative) :
    ∃ after, placeAll sets vertices groups = .ok after ∧
      (filing sets).Holds (placed ++ vertices) after := by
  induction vertices generalizing groups placed with
  | nil => exact ⟨groups, rfl, by simpa using holds⟩
  | cons vertex rest inductionHypothesis =>
      obtain ⟨representative, found⟩ := represented vertex List.mem_cons_self
      obtain ⟨after, isPlaced, held⟩ :=
        inductionHypothesis (place_holds holds vertex representative found)
          fun later member => represented later (List.mem_cons_of_mem vertex member)
      refine ⟨after, ?_, by simpa using held⟩
      simp only [placeAll, found, isPlaced]

/-! ## Forming stages -/

/-- The tasks of the first group are drawn before those of the others. -/
theorem run_drawStages_cons (group : Group) (groups : List Group) (id : String) (ids : List String)
    (source : Source) :
    ((drawStages (group :: groups) (id :: ids)).run source).1 =
      group.stage id ((Drawing.many .task group.members.length).run source).1 ::
        ((drawStages groups ids).run
          ((Drawing.many .task group.members.length).run source).2).1 := by
  simp only [drawStages, bind, Drawing.run_bind]
  rfl

/-- The identities of all stages are drawn before those of tasks. -/
theorem run_draw (groups : List Group) (source : Source) :
    ((draw groups).run source).1 =
      ((drawStages groups ((Drawing.many .stage groups.length).run source).1).run
        ((Drawing.many .stage groups.length).run source).2).1 := by
  simp only [draw, bind, Drawing.run_bind]

/-- Every group gets the next identity, and its stage has the members of the group. -/
theorem drawStages_forms (groups : List Group) (ids : List String)
    (enough : ids.length = groups.length) (source : Source) :
    ((drawStages groups ids).run source).1.map Stage.id = ids ∧
      ((drawStages groups ids).run source).1.map Stage.members = groups.map Group.members := by
  induction groups generalizing ids source with
  | nil =>
      obtain rfl := List.eq_nil_of_length_eq_zero enough
      exact ⟨rfl, rfl⟩
  | cons group rest inductionHypothesis =>
      cases ids with
      | nil => cases enough
      | cons id later =>
          obtain ⟨sameIds, sameMembers⟩ := inductionHypothesis later (Nat.succ.inj enough)
            ((Drawing.many .task group.members.length).run source).2
          rw [run_drawStages_cons, List.map_cons, List.map_cons, List.map_cons, sameIds,
            sameMembers]
          exact ⟨rfl, rfl⟩

/-- The stages drawn for groups have consecutive identities and the members of the groups. -/
theorem draw_forms (groups : List Group) (source : Source) :
    (((draw groups).run source).1.map Stage.id = (List.range groups.length).map fun index =>
        Source.identity source.session .stage (source.counter .stage + UInt64.ofNat index)) ∧
      ((draw groups).run source).1.map Stage.members = groups.map Group.members := by
  have ids := Drawing.run_many .stage groups.length source
  rw [run_draw, ← ids]
  exact drawStages_forms groups _ (by simp [ids]) _

/-- The members of a group are the placed vertices of its representative. -/
theorem members_eq {sets : DisjointSets} {placed : List Vertex} {groups : List Group}
    (holds : (filing sets).Holds placed groups) (group : Group) (member : group ∈ groups) :
    group.members = placed.filter fun vertex =>
      sets.representative? vertex.id = some group.representative := by
  refine (holds.contents group member).trans ((List.map_id _).trans ?_)
  exact List.filter_congr fun _ _ => decide_eq_decide.mpr Iff.rfl

/-- A group lists exactly the placed vertices it represents. -/
theorem listed_iff {sets : DisjointSets} {placed : List Vertex} {groups : List Group}
    (holds : (filing sets).Holds placed groups) (group : Group) (member : group ∈ groups)
    (id : String) :
    id ∈ group.members.map Vertex.id ↔ id ∈ placed.map Vertex.id ∧
      sets.representative? id = some group.representative := by
  rw [members_eq holds group member]
  constructor
  · intro listed
    obtain ⟨vertex, chosen, rfl⟩ := List.mem_map.mp listed
    obtain ⟨vertexIn, represented⟩ := List.mem_filter.mp chosen
    exact ⟨List.mem_map_of_mem vertexIn, of_decide_eq_true represented⟩
  · rintro ⟨listed, represented⟩
    obtain ⟨vertex, vertexIn, rfl⟩ := List.mem_map.mp listed
    exact List.mem_map_of_mem (List.mem_filter.mpr ⟨vertexIn, decide_eq_true represented⟩)

end Group

/-! ## Stages as components -/

namespace Staging

/-- The stages are the components of a job graph: each lists one component in topological order,
and the stages stand in the order of their first members. -/
structure Splits (staging : Staging) (graph : JobGraph) : Prop where
  listed : (staging.stages.flatMap Stage.members).Perm graph.vertices
  joined : ∀ stage ∈ staging.stages, ∀ left ∈ stage.memberIds, ∀ right ∈ graph.ids,
    (right ∈ stage.memberIds ↔ graph.Joined left right)
  ordered : ∀ stage ∈ staging.stages, stage.members.Sublist graph.topological
  inhabited : ∀ stage ∈ staging.stages, stage.members ≠ []
  firsts : (staging.stages.filterMap fun stage => stage.members.head?).Sublist graph.topological

/-- Stages with the members of the walk's groups are the components of the graph. -/
theorem splits_of_holds {graph : JobGraph} (sound : graph.Sound) {gathering : Gathering}
    (walked : gathering.Walked graph) {groups : List Group}
    (holds : (Group.filing gathering.groups).Holds graph.topological groups) (staging : Staging)
    (same : staging.stages.map Stage.members = groups.map Group.members) :
    staging.Splits graph := by
  have groupOf : ∀ stage ∈ staging.stages, ∃ group ∈ groups, group.members = stage.members := by
    intro stage member
    have listed : stage.members ∈ groups.map Group.members :=
      same ▸ List.mem_map_of_mem member
    exact List.mem_map.mp listed
  refine ⟨?_, ?_, ?_, ?_, ?_⟩
  · have flat : staging.stages.flatMap Stage.members = groups.flatMap Group.members := by
      rw [List.flatMap_def, List.flatMap_def, same]
    have keyed : (graph.topological.filter fun vertex =>
        (gathering.groups.representative? vertex.id).isSome) = graph.topological := by
      apply List.filter_eq_self.mpr
      intro vertex member
      obtain ⟨representative, found⟩ := walked.represented vertex member
      rw [found, Option.isSome_some]
    have filed : (groups.flatMap Group.members).Perm graph.topological := by
      simpa [Group.filing, keyed] using holds.contents_perm
    rw [flat]
    exact filed.trans sound.intact.topological_perm
  · intro stage member left leftIn right rightKnown
    obtain ⟨group, groupIn, shared⟩ := groupOf stage member
    have listed : ∀ id, id ∈ stage.memberIds ↔ id ∈ graph.ids ∧
        gathering.groups.representative? id = some group.representative := by
      intro id
      rw [Stage.memberIds, ← shared, Group.listed_iff holds group groupIn,
        sound.topological_perm.mem_iff]
    obtain ⟨leftKnown, ofLeft⟩ := (listed left).mp leftIn
    rw [listed, ← walked.together_iff sound left right leftKnown rightKnown,
      ← DisjointSets.representative?_shared_iff _ walked.tracks.groups.sound]
    constructor
    · rintro ⟨_, ofRight⟩
      exact ⟨group.representative, ofLeft, ofRight⟩
    · rintro ⟨representative, alsoLeft, ofRight⟩
      exact ⟨rightKnown, ofRight.trans (alsoLeft.symm.trans ofLeft)⟩
  · intro stage member
    obtain ⟨group, groupIn, shared⟩ := groupOf stage member
    rw [← shared, Group.members_eq holds group groupIn]
    exact List.filter_sublist
  · intro stage member
    obtain ⟨group, groupIn, shared⟩ := groupOf stage member
    rw [← shared]
    exact holds.inhabited group groupIn
  · have heads : (staging.stages.filterMap fun stage => stage.members.head?) =
        groups.filterMap fun group => group.members.head? := by
      have heads := congrArg (fun lists => lists.filterMap List.head?) same
      simpa [List.filterMap_map, Function.comp_def] using heads
    rw [heads]
    simpa [Group.filing] using holds.firsts

namespace Splits

variable {staging : Staging} {graph : JobGraph}

/-- Every id of the graph stands once among the members of the stages. -/
theorem ids_perm (splits : staging.Splits graph) (sound : graph.Sound) :
    (staging.stages.flatMap Stage.memberIds).Perm graph.ids := by
  have named := splits.listed.map Vertex.id
  rw [List.map_flatMap, ← sound.ids_eq] at named
  exact named

/-- No vertex is in two stages. -/
theorem stage_unique (splits : staging.Splits graph) (sound : graph.Sound) {id : String}
    {stage other : Stage} (stageIn : stage ∈ staging.stages) (otherIn : other ∈ staging.stages)
    (inStage : id ∈ stage.memberIds) (inOther : id ∈ other.memberIds) : stage = other := by
  have distinct := (splits.ids_perm sound).nodup_iff.mpr sound.intact.distinct
  exact part_unique distinct stageIn otherIn inStage inOther

/-- The stage of a vertex is the one which has it as a member. -/
theorem stageOf?_iff (splits : staging.Splits graph) (sound : graph.Sound) (id : String)
    (stage : Stage) :
    staging.stageOf? id = some stage ↔ stage ∈ staging.stages ∧ id ∈ stage.memberIds := by
  constructor
  · intro found
    exact ⟨List.mem_of_find?_eq_some found, by simpa using List.find?_some found⟩
  · rintro ⟨stageIn, inStage⟩
    have exists_stage : (staging.stageOf? id).isSome :=
      List.find?_isSome.mpr ⟨stage, stageIn, decide_eq_true inStage⟩
    obtain ⟨other, found⟩ := Option.isSome_iff_exists.mp exists_stage
    have inOther : id ∈ other.memberIds := by simpa using List.find?_some found
    have same := splits.stage_unique sound (List.mem_of_find?_eq_some found) stageIn inOther inStage
    exact same ▸ found

/-- Every vertex of the graph has a stage. -/
theorem stageOf?_known (splits : staging.Splits graph) (sound : graph.Sound) (id : String)
    (known : id ∈ graph.ids) : ∃ stage, staging.stageOf? id = some stage := by
  obtain ⟨stage, stageIn, inStage⟩ :=
    List.mem_flatMap.mp ((splits.ids_perm sound).mem_iff.mpr known)
  exact ⟨stage, (splits.stageOf?_iff sound id stage).mpr ⟨stageIn, inStage⟩⟩

/-- There are at most as many stages as vertices. -/
theorem length_le (splits : staging.Splits graph) : staging.stages.length ≤ graph.size := by
  have bound := length_le_flatMap splits.inhabited
  rw [splits.listed.length_eq] at bound
  exact bound

end Splits

end Staging

end Flowplan
