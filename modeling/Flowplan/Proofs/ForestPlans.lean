import Flowplan.Proofs.Forests

/-!
# Plans of forests

The stages of a forest are counted along its edges. With no edge at all, every vertex is a class of
its own; every edge that does not shuffle joins two classes into one (`Independent`), so that one
leader fewer is needed (`LedBy.count`). The first members of the stages are such leaders.

Between two stages of a forest there is one shuffle at most, so every stage edge stands for one
shuffle alone and reads its values.
-/

namespace Flowplan

/-- If every member of a list has a partner of some kind, partners can be listed alongside. -/
theorem exists_forall₂ {α β : Type} {partners : α → β → Prop} {allowed : List β} (list : List α)
    (every : ∀ value ∈ list, ∃ partner ∈ allowed, partners value partner) :
    ∃ others, (∀ other ∈ others, other ∈ allowed) ∧ List.Forall₂ partners list others := by
  induction list with
  | nil => exact ⟨[], nofun, .nil⟩
  | cons value rest inductionHypothesis =>
      obtain ⟨partner, partnerIn, related⟩ := every value List.mem_cons_self
      obtain ⟨others, othersIn, paired⟩ := inductionHypothesis
        fun later member => every later (List.mem_cons_of_mem value member)
      exact ⟨partner :: others, List.forall_mem_cons.mpr ⟨partnerIn, othersIn⟩,
        .cons related paired⟩

namespace DisjointSets

open Relation

/-! ## Counting classes -/

/-- Every pair joins two keys that the pairs before it left apart. -/
inductive Independent : List (String × String) → Prop
  | nil : Independent []
  | concat {pairs : List (String × String)} {left right : String} (earlier : Independent pairs)
      (apart : ¬ EqvGen (Paired pairs) left right) : Independent (pairs ++ [(left, right)])

/-- Every class of the given ids has one leader among them. -/
structure LedBy (related : String → String → Prop) (leaders ids : List String) : Prop where
  distinct : leaders.Nodup
  inside : ∀ leader ∈ leaders, leader ∈ ids
  covers : ∀ id ∈ ids, ∃ leader ∈ leaders, related leader id
  apart : ∀ one ∈ leaders, ∀ other ∈ leaders, related one other → one = other

/-- A class that falls apart in two needs one leader more. -/
theorem LedBy.divided {related wider : String → String → Prop} {leaders ids : List String}
    (leads : LedBy wider leaders ids) (narrow : Equivalence related) (wide : Equivalence wider)
    (widens : ∀ one other, related one other → wider one other) {kept added : String}
    (linked : wider kept added) (separate : ¬ related kept added) (known : added ∈ ids)
    (only : ∀ one other, wider one other →
      related one other ∨ related kept other ∨ related added other)
    {leader : String} (leaderIn : leader ∈ leaders) (leadsKept : related leader kept) :
    LedBy related (added :: leaders) ids := by
  -- whoever leads the added key in the wider sense is the leader of the kept one
  have unique : ∀ other ∈ leaders, ¬ related added other := by
    intro other otherIn relates
    have same := leads.apart leader leaderIn other otherIn
      (wide.trans (wide.trans (widens _ _ leadsKept) linked) (widens _ _ relates))
    exact separate (narrow.symm (narrow.trans relates (same ▸ leadsKept)))
  refine ⟨?_, ?_, ?_, ?_⟩
  · exact List.nodup_cons.mpr ⟨fun again => unique added again (narrow.refl added), leads.distinct⟩
  · intro asked member
    exact (List.mem_cons.mp member).elim (fun here => here ▸ known) (leads.inside asked)
  · intro id idIn
    obtain ⟨other, otherIn, relates⟩ := leads.covers id idIn
    rcases only other id relates with near | near | near
    · exact ⟨other, List.mem_cons_of_mem added otherIn, near⟩
    · exact ⟨leader, List.mem_cons_of_mem added leaderIn, narrow.trans leadsKept near⟩
    · exact ⟨added, List.mem_cons_self, near⟩
  · intro one oneIn other otherIn relates
    rcases List.mem_cons.mp oneIn with rfl | oneLater <;>
      rcases List.mem_cons.mp otherIn with rfl | otherLater
    · rfl
    · exact absurd relates (unique other otherLater)
    · exact absurd (narrow.symm relates) (unique one oneLater)
    · exact leads.apart one oneLater other otherLater (widens _ _ relates)

/-- Without pairs every key is alone in its class. -/
theorem eq_of_eqvGen_nil {left right : String} (related : EqvGen (Paired []) left right) :
    left = right := by
  induction related with
  | rel _ _ paired => exact nomatch paired
  | refl _ => rfl
  | symm _ _ _ inductionHypothesis => exact inductionHypothesis.symm
  | trans _ _ _ _ _ first second => exact first.trans second

/-- Every independent pair saves one leader. -/
theorem LedBy.count {pairs : List (String × String)} (independent : Independent pairs)
    {leaders ids : List String} (distinct : ids.Nodup)
    (known : ∀ pair ∈ pairs, pair.1 ∈ ids ∧ pair.2 ∈ ids)
    (leads : LedBy (EqvGen (Paired pairs)) leaders ids) :
    leaders.length + pairs.length = ids.length := by
  induction independent generalizing leaders with
  | nil =>
      refine ((List.perm_ext_iff_of_nodup leads.distinct distinct).mpr ?_).length_eq
      intro id
      refine ⟨leads.inside id, ?_⟩
      intro idIn
      obtain ⟨leader, leaderIn, related⟩ := leads.covers id idIn
      exact eq_of_eqvGen_nil related ▸ leaderIn
  | @concat pairs left right _ apart inductionHypothesis =>
      have earlierKnown : ∀ pair ∈ pairs, pair.1 ∈ ids ∧ pair.2 ∈ ids :=
        fun pair member => known pair (List.mem_append_left _ member)
      obtain ⟨leftIn, rightIn⟩ := known (left, right) (List.mem_append_right _ List.mem_cons_self)
      have extended := eqvGen_paired_append_iff pairs left right
      have narrow := EqvGen.is_equivalence (Paired pairs)
      have wide := EqvGen.is_equivalence (Paired (pairs ++ [(left, right)]))
      have widens : ∀ one other, EqvGen (Paired pairs) one other →
          EqvGen (Paired (pairs ++ [(left, right)])) one other :=
        fun one other related => (extended one other).mpr (Or.inl related)
      have linked : EqvGen (Paired (pairs ++ [(left, right)])) left right :=
        (extended left right).mpr (Or.inr (Or.inl ⟨.refl left, .refl right⟩))
      -- the leader of both ends leads one of them already without the last pair
      obtain ⟨leader, leaderIn, leadsLeft⟩ := leads.covers left leftIn
      have more : ∃ added, LedBy (EqvGen (Paired pairs)) (added :: leaders) ids := by
        have either : EqvGen (Paired pairs) leader left ∨ EqvGen (Paired pairs) leader right := by
          rcases (extended leader left).mp leadsLeft with near | ⟨near, _⟩ | ⟨near, _⟩
          · exact Or.inl near
          · exact Or.inl near
          · exact Or.inr near
        have only : ∀ one other, EqvGen (Paired (pairs ++ [(left, right)])) one other →
            EqvGen (Paired pairs) one other ∨ EqvGen (Paired pairs) left other ∨
              EqvGen (Paired pairs) right other := by
          intro one other related
          rcases (extended one other).mp related with near | ⟨_, near⟩ | ⟨_, near⟩
          · exact Or.inl near
          · exact Or.inr (Or.inr near)
          · exact Or.inr (Or.inl near)
        rcases either with near | near
        · exact ⟨right, leads.divided narrow wide widens linked apart rightIn only leaderIn near⟩
        · refine ⟨left, leads.divided narrow wide widens (wide.symm linked)
            (fun related => apart (narrow.symm related)) leftIn ?_ leaderIn near⟩
          exact fun one other related => (only one other related).imp_right Or.symm
      obtain ⟨added, leadsMore⟩ := more
      have counted := inductionHypothesis earlierKnown leadsMore
      rw [List.length_cons] at counted
      rw [List.length_append, List.length_singleton]
      omega

end DisjointSets

/-- In a forest every edge that does not shuffle joins what the others leave apart. -/
theorem JobGraph.Forest.independent {graph : JobGraph} (forest : graph.Forest) (edges : List Edge)
    (distinct : edges.Nodup) (known : ∀ edge ∈ edges, edge ∈ graph.edges) :
    DisjointSets.Independent (plainPairs edges) := by
  induction edges using List.reverseRecOn with
  | nil => exact .nil
  | append_singleton front edge inductionHypothesis =>
      obtain ⟨frontDistinct, _, disjoint⟩ := List.nodup_append.mp distinct
      have frontKnown : ∀ other ∈ front, other ∈ graph.edges :=
        fun other member => known other (List.mem_append_left _ member)
      have earlier := inductionHypothesis frontDistinct frontKnown
      cases shuffles : edge.isShuffle with
      | true =>
          have same : plainPairs (front ++ [edge]) = plainPairs front := by
            simp [plainPairs, shuffles]
          exact same ▸ earlier
      | false =>
          have more : plainPairs (front ++ [edge]) =
              plainPairs front ++ [(edge.source, edge.destination)] := by
            simp [plainPairs, shuffles]
          rw [more]
          refine earlier.concat ?_
          intro related
          obtain ⟨taken, walk, inFront⟩ := walks_of_eqvGen frontKnown related
          refine forest.bridge (known edge (List.mem_append_right _ List.mem_cons_self))
            ⟨taken, walk, ?_⟩
          intro member
          exact disjoint edge (inFront edge member).1 edge List.mem_cons_self rfl

/-! ## Stages -/

/-- The ids of the first members of the stages. -/
def Staging.leaders (staging : Staging) : List String :=
  (staging.stages.filterMap fun stage => stage.members.head?).map Vertex.id

namespace Staging.Splits

variable {staging : Staging} {graph : JobGraph}

/-- Every stage has one leader. -/
theorem length_leaders (splits : staging.Splits graph) :
    staging.leaders.length = staging.stages.length := by
  rw [leaders, List.length_map, List.length_filterMap_eq_countP, List.countP_eq_length]
  intro stage stageIn
  exact List.isSome_head?.mpr (splits.inhabited stage stageIn)

/-- A leader is the first member of a stage. -/
theorem mem_leaders (id : String) (member : id ∈ staging.leaders) :
    ∃ stage ∈ staging.stages, stage.memberIds.head? = some id := by
  obtain ⟨vertex, isFirst, rfl⟩ := List.mem_map.mp member
  obtain ⟨stage, stageIn, heads⟩ := List.mem_filterMap.mp isFirst
  exact ⟨stage, stageIn, by simp [Stage.memberIds, heads]⟩

/-- The first members of the stages lead the components. -/
theorem ledBy (splits : staging.Splits graph) (sound : graph.Sound) :
    DisjointSets.LedBy graph.Joined staging.leaders graph.ids := by
  have known : ∀ stage ∈ staging.stages, ∀ id ∈ stage.memberIds, id ∈ graph.ids :=
    fun stage stageIn id listed => (splits.ids_perm sound).mem_iff.mp
      (List.mem_flatMap.mpr ⟨stage, stageIn, listed⟩)
  refine ⟨?_, ?_, ?_, ?_⟩
  · exact sound.intact.topological_distinct.sublist (splits.firsts.map Vertex.id)
  · intro id member
    obtain ⟨stage, stageIn, isHead⟩ := mem_leaders id member
    exact known stage stageIn id (List.mem_of_mem_head? isHead)
  · intro id idIn
    obtain ⟨stage, stageIn, listed⟩ :=
      List.mem_flatMap.mp ((splits.ids_perm sound).mem_iff.mpr idIn)
    obtain ⟨first, rest, members⟩ := List.exists_cons_of_ne_nil (splits.inhabited stage stageIn)
    have heads : stage.members.head? = some first := by rw [members, List.head?_cons]
    have inStage : first.id ∈ stage.memberIds :=
      List.mem_map_of_mem (List.mem_of_mem_head? heads)
    refine ⟨first.id, ?_, (splits.joined stage stageIn _ inStage id idIn).mp listed⟩
    exact List.mem_map_of_mem (List.mem_filterMap.mpr ⟨stage, stageIn, heads⟩)
  · intro one oneIn other otherIn joined
    obtain ⟨first, firstIn, isOne⟩ := mem_leaders one oneIn
    obtain ⟨second, secondIn, isOther⟩ := mem_leaders other otherIn
    have inSecond := List.mem_of_mem_head? isOther
    have inFirst := (splits.joined first firstIn one (List.mem_of_mem_head? isOne) other
      (known second secondIn other inSecond)).mpr joined
    obtain rfl := splits.stage_unique sound firstIn secondIn inFirst inSecond
    exact Option.some.inj (isOne.symm.trans isOther)

/-- In a forest, every edge that does not shuffle saves one stage. -/
theorem count (splits : staging.Splits graph) (sound : graph.Sound) (forest : graph.Forest) :
    staging.stages.length + (graph.edges.filter fun edge => edge.isShuffle = false).length =
      graph.size := by
  have independent :=
    forest.independent graph.edges sound.edge_ids_distinct.of_map fun _ member => member
  have leads : DisjointSets.LedBy
      (Relation.EqvGen (DisjointSets.Paired (JobGraph.plainPairs graph.edges)))
      staging.leaders graph.ids := by
    have same : graph.Joined =
        Relation.EqvGen (DisjointSets.Paired (JobGraph.plainPairs graph.edges)) :=
      funext fun left => funext fun right =>
        propext (graph.joined_iff_eqvGen graph.edges (fun _ => Iff.rfl) left right)
    exact same ▸ splits.ledBy sound
  have counted := DisjointSets.LedBy.count independent sound.intact.distinct ?_ leads
  · rw [splits.length_leaders, JobGraph.plainPairs, List.length_map, sound.ids_eq,
      List.length_map] at counted
    exact counted
  · intro pair member
    obtain ⟨edge, plain, rfl⟩ := List.mem_map.mp member
    exact sound.ends_known edge (List.mem_filter.mp plain).1

end Staging.Splits

/-! ## Stage edges -/

namespace Plan

/-- A stage edge stands for one edge alone: it leads from the stage of the edge's source to that of
its destination, lists no other edge and reads what stage edges take over from this one. -/
structure StandsFor (plan : Plan) (bundle : StageEdge) (edge : Edge) : Prop where
  source : (plan.stageOf? edge.source).map Stage.id = some bundle.source
  destination : (plan.stageOf? edge.destination).map Stage.id = some bundle.destination
  alone : bundle.bundled = [edge.id]
  reads : ∀ kind, bundle.bag.get? kind =
    if kind ∈ Kind.carried then edge.bag.get? kind else none

/-- Stage edges that stand for edges list these edges, in order. -/
theorem bundled_of_standsFor {plan : Plan} {bundles : List StageEdge} {edges : List Edge}
    (stand : List.Forall₂ plan.StandsFor bundles edges) :
    bundles.flatMap StageEdge.bundled = edges.map Edge.id := by
  induction stand with
  | nil => rfl
  | cons stands _ inductionHypothesis =>
      rw [List.flatMap_cons, List.map_cons, stands.alone, inductionHypothesis,
        List.singleton_append]

/-- Every edge that does not shuffle saves one stage, and the stage edges stand for the shuffles one
by one. -/
structure Mirrors (plan : Plan) (graph : JobGraph) : Prop where
  stages : plan.stages.length + (graph.edges.filter fun edge => edge.isShuffle = false).length =
    graph.size
  stageEdges : ∃ shuffles, shuffles.Perm (graph.edges.filter Edge.isShuffle) ∧
    List.Forall₂ plan.StandsFor plan.stageGraph.edges shuffles

namespace Realizes

variable {plan : Plan} {staging : Staging} {sets : DisjointSets} {graph : JobGraph}

/-- In a forest, an edge that crosses between two stages is the only one. -/
theorem between_eq (realizes : plan.Realizes staging sets graph) (sound : graph.Sound)
    (forest : graph.Forest) {edge : Edge} (member : edge ∈ graph.edges) {ends : String × String}
    (crosses : staging.crossing? sets edge = some ends) :
    staging.between sets graph.arrivals ends = [edge] := by
  have distinct : graph.arrivals.Nodup :=
    sound.arrivals_perm.nodup_iff.mpr sound.edge_ids_distinct.of_map
  refine List.perm_singleton.mp ((List.perm_ext_iff_of_nodup (distinct.filter _)
    (List.nodup_singleton edge)).mpr ?_)
  intro other
  rw [← Staging.between, Staging.mem_between, List.mem_singleton, sound.mem_arrivals]
  constructor
  · rintro ⟨otherIn, alsoCrosses⟩
    obtain ⟨shuffles, first, firstIn, second, secondIn, inFirst, inSecond, rfl⟩ :=
      (realizes.completes.crossing?_iff sound edge member ends).mp crosses
    obtain ⟨_, alsoFirst, alsoSecond⟩ := (realizes.completes.crossing?_between sound
      realizes.distinct other otherIn first second firstIn secondIn).mp alsoCrosses
    obtain ⟨sourceKnown, destinationKnown⟩ := sound.ends_known other otherIn
    exact forest.shuffle_unique member otherIn shuffles
      ((realizes.splits.joined first firstIn _ inFirst _ sourceKnown).mp alsoFirst)
      ((realizes.splits.joined second secondIn _ inSecond _ destinationKnown).mp alsoSecond)
  · rintro rfl
    exact ⟨member, crosses⟩

/-- In a forest, every stage edge stands for one shuffle. -/
theorem standsFor (realizes : plan.Realizes staging sets graph) (sound : graph.Sound)
    (forest : graph.Forest) (records : staging.Records sets graph.arrivals plan.stageGraph.edges)
    {bundle : StageEdge} (bundleIn : bundle ∈ plan.stageGraph.edges) :
    ∃ edge ∈ graph.edges.filter Edge.isShuffle, plan.StandsFor bundle edge := by
  obtain ⟨edge, arrives, crosses⟩ :=
    (records.holds.named_iff bundle.ends).mp (List.mem_map_of_mem bundleIn)
  have member := (sound.mem_arrivals edge).mp arrives
  have only := realizes.between_eq sound forest member crosses
  obtain ⟨shuffles, first, firstIn, second, secondIn, inFirst, inSecond, ends⟩ :=
    (realizes.completes.crossing?_iff sound edge member bundle.ends).mp crosses
  obtain ⟨source, destination⟩ := Prod.mk.inj ends
  have ofSource := (realizes.stageOf?_iff sound edge.source first).mpr
    ⟨realizes.stages_perm.mem_iff.mpr firstIn, inFirst⟩
  have ofDestination := (realizes.stageOf?_iff sound edge.destination second).mpr
    ⟨realizes.stages_perm.mem_iff.mpr secondIn, inSecond⟩
  refine ⟨edge, List.mem_filter.mpr ⟨member, shuffles⟩, ?_, ?_, ?_, ?_⟩
  · rw [ofSource, Option.map_some, source]
  · rw [ofDestination, Option.map_some, destination]
  · have listed : bundle.bundled =
        (staging.between sets graph.arrivals bundle.ends).map Edge.id :=
      records.holds.contents bundle bundleIn
    rw [listed, only, List.map_singleton]
  · intro kind
    rw [records.reads bundle bundleIn, only, Edge.lastHeld, Edge.lastHeld, Option.none_or]

/-- What a plan of a forest consists of. -/
theorem mirrors (realizes : plan.Realizes staging sets graph) (sound : graph.Sound)
    (forest : graph.Forest) (records : staging.Records sets graph.arrivals plan.stageGraph.edges) :
    plan.Mirrors graph := by
  refine ⟨?_, ?_⟩
  · rw [realizes.stages_perm.length_eq]
    exact realizes.splits.count sound forest
  · obtain ⟨shuffles, known, stand⟩ := exists_forall₂ plan.stageGraph.edges
      fun bundle bundleIn => realizes.standsFor sound forest records bundleIn
    refine ⟨shuffles, ?_, stand⟩
    have sameIds := bundled_of_standsFor stand ▸ realizes.bundled_perm sound
    have distinct : ((graph.edges.filter Edge.isShuffle).map Edge.id).Nodup :=
      sound.edge_ids_distinct.sublist (List.filter_sublist.map Edge.id)
    refine (List.perm_ext_iff_of_nodup (sameIds.nodup_iff.mpr distinct).of_map
      distinct.of_map).mpr ?_
    intro edge
    refine ⟨known edge, ?_⟩
    intro member
    obtain ⟨other, otherIn, same⟩ :=
      List.mem_map.mp (sameIds.mem_iff.mpr (List.mem_map_of_mem member))
    exact List.inj_on_of_nodup_map distinct (known other otherIn) member same ▸ otherIn

end Realizes

end Plan

/-- A forest with a pattern on every edge is lowered, strictly or not, and mirrored by its plan. -/
theorem JobGraph.Forest.lowers {graph : JobGraph} (forest : graph.Forest) (sound : graph.Sound)
    (bound : graph.size < 2 ^ 64) (patterned : ∀ edge ∈ graph.edges, edge.pattern? ≠ none)
    (strict : Bool) (source : Source) :
    ∃ plan, ((lower strict (some graph)).run source).1.outcome = .ok plan ∧ plan.Mirrors graph := by
  obtain ⟨plan, lowered⟩ := (lower_ok_iff_plannable sound bound strict source).mpr
    (forest.plannable patterned strict)
  obtain ⟨staging, sets, realizes, records, _⟩ := Plan.records_of_lower sound lowered
  exact ⟨plan, lowered, realizes.mirrors sound forest records⟩

end Flowplan
