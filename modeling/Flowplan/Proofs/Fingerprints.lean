import Flowplan.Proofs.LastValues
import Flowplan.Proofs.Outlines
import Flowplan.Proofs.Plannable

/-!
# What fingerprints tell

The bytes that are digested for the fingerprint of a plan tell its outline, if the graph is legible
(`JobGraph.Legible`). The text has no other way to write its separators, so it cannot tell them from
the same letters in an id, in a format or in the text of a foreign value: for each of the conditions
there are two graphs whose plans have one text and different outlines (`JobGraph.Collide`).
-/

namespace Flowplan

/-- Graphs whose plans can be read off their texts. Nothing is asked of edges that do not shuffle,
as they are on no stage edge. -/
structure JobGraph.Legible (graph : JobGraph) : Prop where
  vertices : ∀ vertex ∈ graph.vertices, Plain vertex.id
  edges : ∀ edge ∈ graph.edges, edge.isShuffle = true → Plain edge.id
  values : ∀ edge ∈ graph.edges, edge.isShuffle = true → ∀ value ∈ edge.bag.values, value.Legible

/-- A stage edge holds the pattern of shuffles first. -/
theorem StageEdge.Marked.values_eq {bundle : StageEdge} (marked : bundle.Marked)
    (carried : ∀ value ∈ bundle.bag.values, value.kind ∈ Kind.carried) :
    ∃ others, bundle.bag.values = .pattern .shuffle :: others ∧
      ∀ value ∈ others, value.kind ≠ .communicationPattern := by
  have held := (Bag.pattern?_eq_some_iff bundle.bag .shuffle).mp marked.shuffles
  have member := (Bag.get?_some _ _ _ held).1
  have least : ∀ kind ∈ Kind.carried, Kind.communicationPattern.code ≤ kind.code := by decide
  have increasing := marked.filled.increasing
  cases values : bundle.bag.values with
  | nil =>
      rw [values] at member
      cases member
  | cons first rest =>
      rw [values] at member increasing
      obtain ⟨later, _⟩ := List.pairwise_cons.mp increasing
      cases List.mem_cons.mp member with
      | inl isFirst =>
          subst isFirst
          refine ⟨rest, rfl, ?_⟩
          intro value behind same
          have less := later value behind
          rw [same] at less
          exact Int.lt_irrefl _ less
      | inr behind =>
          have less := later _ behind
          have bound := least first.kind (carried first (by simp [values]))
          exact absurd (Int.lt_of_lt_of_le less bound) (Int.lt_irrefl _)

namespace Plan

variable {graph : JobGraph} {strict : Bool} {source : Source} {plan : Plan} {staging : Staging}
  {sets : DisjointSets}

/-- What a stage edge holds is of a carried kind, and one of the shuffles holds it. -/
theorem Realizes.held_by_shuffle (realizes : plan.Realizes staging sets graph)
    (sound : graph.Sound) (records : staging.Records sets graph.arrivals plan.stageGraph.edges)
    {bundle : StageEdge} (bundleIn : bundle ∈ plan.stageGraph.edges) {value : Value}
    (held : value ∈ bundle.bag.values) :
    value.kind ∈ Kind.carried ∧
      ∃ edge ∈ graph.edges, edge.isShuffle = true ∧ value ∈ edge.bag.values := by
  have read := records.reads bundle bundleIn value.kind
  rw [((records.marked bundle bundleIn).filled.mem_iff value).mp held] at read
  by_cases carried : value.kind ∈ Kind.carried
  · rw [if_pos carried] at read
    obtain ⟨edge, filed, edgeHolds⟩ := Edge.lastHeld_held read.symm
    obtain ⟨edgeIn, shuffles⟩ := realizes.shuffle_of_between sound filed
    exact ⟨carried, edge, edgeIn, shuffles, (Bag.get?_some _ _ _ edgeHolds).1⟩
  · rw [if_neg carried] at read
    cases read

/-- The stages of a plan are legible if the vertices are. -/
theorem Realizes.stage_legible (realizes : plan.Realizes staging sets graph)
    (legible : graph.Legible) {stage : Stage} (stageIn : stage ∈ plan.stages) :
    Stage.Outline.Legible ⟨stage.parallelism, stage.memberIds⟩ := by
  have staged := realizes.stages_perm.mem_iff.mp stageIn
  refine ⟨?_, List.forall_mem_map.mpr ?_⟩
  · exact fun none => realizes.splits.inhabited stage staged (List.map_eq_nil_iff.mp none)
  · intro vertex isMember
    exact legible.vertices vertex (realizes.splits.listed.mem_iff.mp
      (List.mem_flatMap.mpr ⟨stage, staged, isMember⟩))

/-- The outline of a plan of a legible graph can be read off its letters. -/
theorem outline_legible (made : graph.Made) (legible : graph.Legible)
    (lowered : ((lower strict (some graph)).run source).1.outcome = .ok plan) :
    plan.outline.Legible := by
  have sound := made.sound
  obtain ⟨staging, sets, realizes, records, _⟩ := Plan.records_of_lower sound lowered
  refine ⟨List.forall_mem_map.mpr ?_, List.forall_mem_map.mpr ?_⟩
  · exact fun stage stageIn => realizes.stage_legible legible stageIn
  · intro bundle bundleIn
    have source : ∀ value ∈ bundle.bag.values, _ := fun _ held =>
      realizes.held_by_shuffle sound records bundleIn held
    refine ⟨records.holds.inhabited bundle bundleIn, ?_, ?_⟩
    · intro id isBundled
      rw [(realizes.listed_eq sound bundleIn).1, (realizes.listed_eq sound bundleIn).2] at isBundled
      obtain ⟨edge, filed, rfl⟩ := List.mem_map.mp isBundled
      obtain ⟨edgeIn, shuffles⟩ := realizes.shuffle_of_between sound filed
      exact legible.edges edge edgeIn shuffles
    · obtain ⟨others, values, unlike⟩ :=
        (records.marked bundle bundleIn).values_eq fun value held => (source value held).1
      refine ⟨others, values, ?_⟩
      intro value behind
      have held : value ∈ bundle.bag.values := values ▸ List.mem_cons_of_mem _ behind
      obtain ⟨_, edge, edgeIn, shuffles, edgeHolds⟩ := source value held
      exact Value.told_of_accepted (legible.values edge edgeIn shuffles value edgeHolds)
        ((sound.edges edge edgeIn).accepted value edgeHolds (.empty .edge) rfl)
        (unlike value behind)

end Plan

/-- The digested bytes of a plan tell its outline, if the graph is legible: plans with the same
bytes have the same stages, with their parallelisms and vertices, and the same stage edges, with
the numbers of their stages, the edges listed on them and the values they hold. -/
theorem structureBytes_tell_outlines (graph other : JobGraph) (made : graph.Made)
    (otherMade : other.Made) (legible : graph.Legible) (otherLegible : other.Legible)
    (strict otherStrict : Bool) (source otherSource : Source) (plan otherPlan : Plan)
    (lowered : ((lower strict (some graph)).run source).1.outcome = .ok plan)
    (otherLowered : ((lower otherStrict (some other)).run otherSource).1.outcome = .ok otherPlan)
    (same : plan.structureBytes = otherPlan.structureBytes) :
    plan.outline = otherPlan.outline := by
  have texts : plan.structureText = otherPlan.structureText := bytes_injective same
  refine Plan.Outline.letters_injective (Plan.outline_legible made legible lowered)
    (Plan.outline_legible otherMade otherLegible otherLowered) ?_
  rw [← plan.toList_structureText, ← otherPlan.toList_structureText, texts]

/-- The plans of one graph, lowered under different sessions and with different strictness, have one
outline. -/
theorem twoStages_outline :
    twoStages.Legible ∧ ∃ plan otherPlan,
      ((lower false (some twoStages)).run (.start "s")).1.outcome = .ok plan ∧
      ((lower true (some twoStages)).run (.start "t")).1.outcome = .ok otherPlan ∧
      plan.outline = otherPlan.outline := by
  have legible : twoStages.Legible := ⟨by decide, by decide, by decide⟩
  have texts : ((lower false (some twoStages)).run (.start "s")).1.outcome.toOption.map
      Plan.structureText = ((lower true (some twoStages)).run (.start "t")).1.outcome.toOption.map
        Plan.structureText := by
    decide +kernel
  have succeeds : ((lower false (some twoStages)).run (.start "s")).1.outcome.isOk = true := by
    decide +kernel
  obtain ⟨plan, lowered⟩ := exists_ok succeeds
  rw [lowered] at texts
  obtain ⟨otherPlan, otherLowered, isText⟩ := ok_of_seen texts.symm
  have bytes : plan.structureBytes = otherPlan.structureBytes :=
    congrArg (fun text : String => text.toUTF8.toList) isText.symm
  exact ⟨legible, plan, otherPlan, lowered, otherLowered,
    structureBytes_tell_outlines twoStages twoStages twoStages_made twoStages_made legible legible
      false true (.start "s") (.start "t") plan otherPlan lowered otherLowered bytes⟩

/-! ## Plans with one text -/

/-- A shuffle with a decoder. -/
def Edge.decoding (format id source destination : String) : Edge :=
  ⟨id, source, destination, ⟨.edge, [.pattern .shuffle, .decoder format]⟩⟩

namespace JobGraph

/-- Two graphs whose plans have the same digested bytes, and different outlines. -/
structure Collide (graph other : JobGraph) : Prop where
  made : graph.Made
  otherMade : other.Made
  plans : ∃ plan otherPlan, ((lower false (some graph)).run (.start "s")).1.outcome = .ok plan ∧
    ((lower false (some other)).run (.start "s")).1.outcome = .ok otherPlan ∧
    plan.structureBytes = otherPlan.structureBytes ∧ plan.outline ≠ otherPlan.outline

/-- The text and the outline of the plan of a graph. -/
def told (graph : JobGraph) : Option (String × Plan.Outline) :=
  ((lower false (some graph)).run (.start "s")).1.outcome.toOption.map fun plan =>
    (plan.structureText, plan.outline)

/-- Graphs collide if their plans have the same text and different outlines. -/
theorem Collide.ofTold {graph other : JobGraph} (made : graph.Made) (otherMade : other.Made)
    (text : String) (tells : graph.told.map Prod.fst = some text)
    (otherTells : other.told.map Prod.fst = some text)
    (differ : graph.told.map Prod.snd ≠ other.told.map Prod.snd) : graph.Collide other := by
  have lowered : ∀ {graph : JobGraph}, graph.told.map Prod.fst = some text →
      ∃ plan, ((lower false (some graph)).run (.start "s")).1.outcome = .ok plan ∧
        plan.structureText = text ∧ graph.told.map Prod.snd = some plan.outline := by
    intro graph tells
    unfold told at tells ⊢
    rw [Option.map_map] at tells
    obtain ⟨plan, result, isText⟩ := ok_of_seen tells
    exact ⟨plan, result, isText, by rw [result]; rfl⟩
  obtain ⟨plan, isPlan, isText, isOutline⟩ := lowered tells
  obtain ⟨otherPlan, isOtherPlan, isOtherText, isOtherOutline⟩ := lowered otherTells
  refine ⟨made, otherMade, plan, otherPlan, isPlan, isOtherPlan, ?_, ?_⟩
  · rw [Plan.structureBytes, Plan.structureBytes, isText, isOtherText]
  · intro same
    exact differ (by rw [isOutline, isOtherOutline, same])

/-- Ids with commas or line breaks, formats of encoders and decoders that look like further values,
and values of others make texts that do not tell the outline. -/
theorem separators_collide :
    (ofIds ["a,b"] []).Collide (ofIds ["a", "b"] [.along .oneToOne "e" "a" "b"]) ∧
    (ofIds ["a\nS1|1|b"] []).Collide (ofIds ["a", "b"] []) ∧
    (ofIds ["a", "b"] [.along .shuffle "e,f" "a" "b"]).Collide
      (ofIds ["a", "b"] [.along .shuffle "e" "a" "b", .along .shuffle "f" "a" "b"]) ∧
    (ofIds ["a", "b", "c"] [.along .shuffle "e|\x7bShuffle\x7d\nE0>2|f" "a" "b"]).Collide
      (ofIds ["a", "b", "c"] [.along .shuffle "e" "a" "b", .along .shuffle "f" "a" "c"]) ∧
    (ofIds ["a", "b"] [.encoded "x), Decoder(y" "e" "a" "b"]).Collide
      (ofIds ["a", "b"]
        [⟨"e", "a", "b", ⟨.edge, [.pattern .shuffle, .encoder "x", .decoder "y"]⟩⟩]) ∧
    (ofIds ["a", "b", "c"]
      [.decoding "y)\x7d\nE0>2|g|\x7bShuffle, Decoder(z" "e" "a" "b"]).Collide
      (ofIds ["a", "b", "c"] [.decoding "y" "e" "a" "b", .decoding "z" "g" "a" "c"]) ∧
    (ofIds ["a", "b"] [.encoded "x" "e" "a" "b"]).Collide
      (ofIds ["a", "b"] [⟨"e", "a", "b",
        ⟨.edge, [.pattern .shuffle, .foreign ⟨.encoder, "Encoder(x)", "", ""⟩]⟩⟩]) := by
  refine ⟨?_, ?_, ?_, ?_, ?_, ?_, ?_⟩
  · exact .ofTold (ofIds_made (by decide) rfl) (ofIds_made (by decide) rfl)
      "S0|1|a,b\n" (by decide +kernel) (by decide +kernel) (by decide +kernel)
  · exact .ofTold (ofIds_made (by decide) rfl) (ofIds_made (by decide) rfl)
      "S0|1|a\nS1|1|b\n" (by decide +kernel) (by decide +kernel) (by decide +kernel)
  · exact .ofTold (ofIds_made (by decide) rfl) (ofIds_made (by decide) rfl)
      "S0|1|a\nS1|1|b\nE0>1|e,f|\x7bShuffle\x7d\n" (by decide +kernel) (by decide +kernel)
      (by decide +kernel)
  · exact .ofTold (ofIds_made (by decide) rfl) (ofIds_made (by decide) rfl)
      "S0|1|a\nS1|1|b\nS2|1|c\nE0>1|e|\x7bShuffle\x7d\nE0>2|f|\x7bShuffle\x7d\n"
      (by decide +kernel) (by decide +kernel) (by decide +kernel)
  · exact .ofTold (ofIds_made (by decide) rfl) (ofIds_made (by decide) rfl)
      "S0|1|a\nS1|1|b\nE0>1|e|\x7bShuffle, Encoder(x), Decoder(y)\x7d\n" (by decide +kernel)
      (by decide +kernel) (by decide +kernel)
  · exact .ofTold (ofIds_made (by decide) rfl) (ofIds_made (by decide) rfl)
      ("S0|1|a\nS1|1|b\nS2|1|c\nE0>1|e|\x7bShuffle, Decoder(y)\x7d\n" ++
        "E0>2|g|\x7bShuffle, Decoder(z)\x7d\n")
      (by decide +kernel) (by decide +kernel) (by decide +kernel)
  · exact .ofTold (ofIds_made (by decide) rfl) (ofIds_made (by decide) rfl)
      "S0|1|a\nS1|1|b\nE0>1|e|\x7bShuffle, Encoder(x)\x7d\n" (by decide +kernel)
      (by decide +kernel) (by decide +kernel)

end JobGraph

end Flowplan
