import Flowplan.Proofs.Ledgers
import Flowplan.Proofs.LeastOrders
import Flowplan.Proofs.StrictLowerings

/-!
# The order in which edges were connected

The edges of a job graph may have been connected in any order. The order decides in which order
they arrive, and so which edges are joined first, where stage edges stand, and which conflict is
met first. Nothing of this shows in the stages, nor in whether there is a plan at all: components,
topological orders and disagreements are said about the edges as a set.
-/

namespace Flowplan

namespace JobGraph

/-- A graph with the vertices of another one, and with its edges in whatever order. -/
structure Reorders (other graph : JobGraph) : Prop where
  vertices : other.vertices = graph.vertices
  edges : other.edges.Perm graph.edges

namespace Reorders

variable {other graph : JobGraph}

/-- Orders of edges are exchanged both ways. -/
theorem symm (reorders : other.Reorders graph) : graph.Reorders other :=
  ⟨reorders.vertices.symm, reorders.edges.symm⟩

/-- Reordered edges are the same edges. -/
theorem mem_iff (reorders : other.Reorders graph) (edge : Edge) :
    edge ∈ other.edges ↔ edge ∈ graph.edges :=
  reorders.edges.mem_iff

/-- The topological order does not depend on the order of the edges. -/
theorem topological_eq (reorders : other.Reorders graph) (sound : graph.Sound)
    (otherSound : other.Sound) : other.topological = graph.topological := by
  refine sound.intact.topological_congr otherSound.intact reorders.vertices ?_
  intro source destination
  simp only [Dag.Leads, reorders.mem_iff]

/-- Which vertices are joined does not depend on the order of the edges. -/
theorem joined_eq (reorders : other.Reorders graph) : other.Joined = graph.Joined := by
  have adjacent : other.Adjacent = graph.Adjacent := by
    funext left right
    simp only [Adjacent, reorders.mem_iff]
  rw [Joined, Joined, adjacent]

/-- Which shuffles lie within a component does not depend on the order of the edges. -/
theorem encloses_iff (reorders : other.Reorders graph) (edge : Edge) :
    other.Encloses edge ↔ graph.Encloses edge := by
  rw [Encloses, Encloses, reorders.joined_eq]

/-- Whether components are entangled does not depend on the order of the edges. -/
theorem entangled_iff (reorders : other.Reorders graph) : other.Entangled ↔ graph.Entangled := by
  have crosses : other.Crosses = graph.Crosses := by
    funext left right
    simp only [Crosses, reorders.mem_iff, reorders.joined_eq]
  rw [Entangled, Entangled, crosses]

/-- The same edges arrive, in whatever order. -/
theorem arrivals_perm (reorders : other.Reorders graph) (sound : graph.Sound)
    (otherSound : other.Sound) : other.arrivals.Perm graph.arrivals :=
  otherSound.arrivals_perm.trans (reorders.edges.trans sound.arrivals_perm.symm)

end Reorders

end JobGraph

/-! ## The same stages -/

/-- Placing looks at the representatives of the vertices placed, and at nothing else. -/
theorem Group.placeAll_congr {sets others : DisjointSets} (vertices : List Vertex)
    (same : ∀ vertex ∈ vertices, others.representative? vertex.id = sets.representative? vertex.id)
    (groups : List Group) : placeAll others vertices groups = placeAll sets vertices groups := by
  induction vertices generalizing groups with
  | nil => rfl
  | cons vertex rest inductionHypothesis =>
      unfold placeAll
      rw [same vertex List.mem_cons_self]
      split
      · rfl
      · exact inductionHypothesis (fun later member => same later (List.mem_cons_of_mem _ member)) _

namespace Gathering

/-- After the walk, a vertex is represented by the first one in topological order that it is
joined to. -/
theorem Walked.representative_first {graph : JobGraph} {gathering : Gathering}
    (walked : Walked graph gathering) (sound : graph.Sound) {id representative : String}
    (named : gathering.groups.representative? id = some representative) :
    First (fun noted => graph.Joined noted id) (graph.topological.map Vertex.id)
      representative := by
  have first := walked.tracks.groups.representative_first named
  rw [walked.keys, walked.edges] at first
  simpa only [graph.joined_iff_eqvGen graph.arrivals sound.mem_arrivals] using first

/-- Walks that meet the edges in different orders place the vertices in the same groups. -/
theorem Walked.placeAll_eq {graph other : JobGraph} {gathering otherGathering : Gathering}
    (walked : Walked graph gathering) (otherWalked : Walked other otherGathering)
    (reorders : other.Reorders graph) (sound : graph.Sound) (otherSound : other.Sound) :
    Group.placeAll otherGathering.groups otherGathering.order [] =
      Group.placeAll gathering.groups gathering.order [] := by
  have topological := reorders.topological_eq sound otherSound
  rw [walked.order, otherWalked.order, topological]
  apply Group.placeAll_congr
  intro vertex member
  obtain ⟨representative, named⟩ := walked.represented vertex member
  obtain ⟨otherRepresentative, otherNamed⟩ :=
    otherWalked.represented vertex (topological.symm ▸ member)
  have first := walked.representative_first sound named
  have otherFirst := otherWalked.representative_first otherSound otherNamed
  rw [topological, reorders.joined_eq] at otherFirst
  rw [named, otherNamed, first_unique first otherFirst]

end Gathering

/-- Graphs that differ in the order of their edges are lowered with the same stages and under the
same identity, once every edge has a communication pattern. -/
theorem JobGraph.Reorders.staged {graph other : JobGraph} (reorders : other.Reorders graph)
    (sound : graph.Sound) (otherSound : other.Sound)
    (patterned : ∀ edge ∈ graph.edges, edge.pattern? ≠ none) (source : Source) :
    ∃ (staging : Staging) (sets others : DisjointSets) (id : String),
      staging.Fits sets graph ∧ staging.Fits others other ∧ staging.Numbered source ∧
      ((lower false (some graph)).run source).1 = staging.lowered false sets graph.arrivals id ∧
      ((lower false (some other)).run source).1 =
        staging.lowered false others other.arrivals id := by
  obtain ⟨gathering, walked, isWalked⟩ := Gathering.lower_of_patterned false sound patterned
  obtain ⟨otherGathering, otherWalked, otherIsWalked⟩ :=
    Gathering.lower_of_patterned false otherSound
      fun edge member => patterned edge ((reorders.mem_iff edge).mp member)
  have samePlaced := walked.placeAll_eq otherWalked reorders sound otherSound
  obtain ⟨groups, isPlaced, fits, numbered⟩ := walked.stages sound source
  obtain ⟨otherGroups, otherIsPlaced, otherFits, _⟩ := otherWalked.stages otherSound source
  obtain rfl : groups = otherGroups :=
    Except.ok.inj (isPlaced.symm.trans (samePlaced.symm.trans otherIsPlaced))
  refine ⟨_, gathering.groups, otherGathering.groups,
    (((Group.draw groups).run source).2.draw .plan).1, fits, otherFits, numbered, ?_, ?_⟩
  · rw [isWalked, Gathering.run_lower gathering false source groups isPlaced, walked.edges]
  · rw [otherIsWalked, Gathering.run_lower otherGathering false source groups otherIsPlaced,
      otherWalked.edges]

/-! ## The same stage edges -/

namespace Staging

/-- Stages that fit a graph lead to a plan exactly if no shuffle stays within a component, the
components are not entangled and the identities of the stages did not come round. -/
theorem Fits.lowered_ok_iff {staging : Staging} {sets : DisjointSets} {graph : JobGraph}
    (fits : staging.Fits sets graph) (sound : graph.Sound) {source : Source}
    (numbered : staging.Numbered source) (id : String) :
    (∃ plan, (staging.lowered false sets graph.arrivals id).outcome = .ok plan) ↔
      (∀ edge ∈ graph.edges, ¬ graph.Encloses edge) ∧ ¬ graph.Entangled ∧
        (staging.stages.map Stage.id).Nodup := by
  constructor
  · rintro ⟨plan, lowered⟩
    have realizes := Plan.realizes_of_lowered sound fits lowered
    obtain ⟨bundles, stageGraph, bundled, formed, _⟩ := lowered_ok lowered
    refine ⟨realizes.completes.outside, ?_, realizes.distinct⟩
    rcases (fits.completes sound false bundles bundled).named_graph_cases sound numbered.named
      realizes.distinct with ⟨free, _⟩ | ⟨_, stages, failed⟩
    · exact free
    · cases formed.symm.trans failed
  · rintro ⟨outside, free, distinct⟩
    obtain ⟨bundles, bundled⟩ := fits.bundling_free sound outside
    rcases (fits.completes sound false bundles bundled).named_graph_cases sound numbered.named
      distinct with ⟨_, stageGraph, formed⟩ | ⟨entangled, _⟩
    · refine ⟨staging.plan stageGraph id, ?_⟩
      rw [lowered_outcome, bundled]
      simp only [Except.bind, formed]
      rfl
    · exact absurd entangled free

/-- Where nothing clashes, the order of the edges does not decide what is read. -/
theorem Settled.lastHeld_eq {staging : Staging} {sets others : DisjointSets}
    {edges otherEdges : List Edge} (settled : staging.Settled sets edges)
    (otherSettled : staging.Settled others otherEdges) (ends : String × String)
    (perm : (staging.between others otherEdges ends).Perm (staging.between sets edges ends))
    (kind : Kind) (carried : kind ∈ Kind.carried) :
    Edge.lastHeld kind (staging.between others otherEdges ends) =
      Edge.lastHeld kind (staging.between sets edges ends) := by
  apply Option.ext
  intro value
  constructor
  · intro read
    obtain ⟨edge, member, held⟩ := Edge.lastHeld_held read
    exact settled ends edge (perm.mem_iff.mp member) kind carried value held
  · intro read
    obtain ⟨edge, member, held⟩ := Edge.lastHeld_held read
    exact otherSettled ends edge (perm.mem_iff.mpr member) kind carried value held

namespace Fits

variable {staging : Staging} {sets others : DisjointSets} {graph other : JobGraph}
  (fits : staging.Fits sets graph) (otherFits : staging.Fits others other)
  (reorders : other.Reorders graph) (sound : graph.Sound) (otherSound : other.Sound)

include fits otherFits reorders sound otherSound

/-- An edge crosses between the same stages, whichever groups were gathered. -/
theorem crossing?_eq (edge : Edge) (member : edge ∈ graph.edges) :
    staging.crossing? others edge = staging.crossing? sets edge := by
  have together : others.together edge.source edge.destination =
      sets.together edge.source edge.destination := by
    rw [Bool.eq_iff_iff, fits.together_ends sound edge member,
      otherFits.together_ends otherSound edge ((reorders.mem_iff edge).mpr member),
      reorders.joined_eq]
  rw [crossing?, crossing?, together]

/-- Between two stages cross the same edges, in whatever order. -/
theorem between_perm (ends : String × String) :
    (staging.between others other.arrivals ends).Perm
      (staging.between sets graph.arrivals ends) := by
  refine ((reorders.arrivals_perm sound otherSound).filter _).trans (List.Perm.of_eq ?_)
  apply List.filter_congr
  intro edge arrives
  have member := (sound.mem_arrivals edge).mp arrives
  rw [fits.crossing?_eq otherFits reorders sound otherSound edge member]

/-- Edges that agree in one order agree in the other. -/
theorem agree (agreed : staging.Agree sets graph.arrivals) :
    staging.Agree others other.arrivals := by
  have crosses : ∀ edge ∈ other.arrivals, edge ∈ graph.arrivals ∧
      staging.crossing? others edge = staging.crossing? sets edge := by
    intro edge arrives
    have alsoArrives := (reorders.arrivals_perm sound otherSound).mem_iff.mp arrives
    exact ⟨alsoArrives, fits.crossing?_eq otherFits reorders sound otherSound edge
      ((sound.mem_arrivals edge).mp alsoArrives)⟩
  intro left leftArrives right rightArrives ends leftCrosses rightCrosses
  obtain ⟨leftIn, sameLeft⟩ := crosses left leftArrives
  obtain ⟨rightIn, sameRight⟩ := crosses right rightArrives
  exact agreed left leftIn right rightIn ends (sameLeft ▸ leftCrosses) (sameRight ▸ rightCrosses)

end Fits

end Staging

/-! ## Plans of reordered graphs -/

namespace Plan.Realizes

variable {plan twin : Plan} {staging : Staging} {sets others : DisjointSets}
  {graph other : JobGraph} (realizes : plan.Realizes staging sets graph)
  (twinRealizes : twin.Realizes staging others other) (reorders : other.Reorders graph)
  (sound : graph.Sound) (otherSound : other.Sound)

include realizes twinRealizes reorders sound otherSound

/-- The stage edges of both plans lead between the same pairs of stages. -/
theorem mem_ends_iff (pair : String × String) :
    pair ∈ twin.stageGraph.edges.map StageEdge.ends ↔
      pair ∈ plan.stageGraph.edges.map StageEdge.ends := by
  rw [twinRealizes.completes.ends_iff otherSound, realizes.completes.ends_iff sound]
  simp only [reorders.mem_iff]

/-- There are stage edges between the same pairs of stages. -/
theorem ends_perm :
    (twin.stageGraph.edges.map StageEdge.ends).Perm
      (plan.stageGraph.edges.map StageEdge.ends) :=
  (List.perm_ext_iff_of_nodup twinRealizes.completes.carries.holds.distinct
    realizes.completes.carries.holds.distinct).mpr
      (realizes.mem_ends_iff twinRealizes reorders sound otherSound)

/-- The stages are sorted in the same way, as they are connected in the same way. -/
theorem stages_eq : twin.stages = plan.stages := by
  refine realizes.intact.topological_congr twinRealizes.intact
    (twinRealizes.vertices.trans realizes.vertices.symm) ?_
  intro first second
  rw [Staging.Completes.leads_iff_ends rfl, Staging.Completes.leads_iff_ends rfl,
    realizes.mem_ends_iff twinRealizes reorders sound otherSound]

/-- Stage edges between the same stages list the same edges. -/
theorem bundled_perm_of_ends {bundle partner : StageEdge}
    (bundleIn : bundle ∈ plan.stageGraph.edges) (partnerIn : partner ∈ twin.stageGraph.edges)
    (ends : partner.ends = bundle.ends) : partner.bundled.Perm bundle.bundled := by
  have listed : bundle.bundled =
      (staging.between sets graph.arrivals bundle.ends).map Edge.id :=
    realizes.completes.carries.holds.contents bundle bundleIn
  have partnerListed : partner.bundled =
      (staging.between others other.arrivals partner.ends).map Edge.id :=
    twinRealizes.completes.carries.holds.contents partner partnerIn
  rw [listed, partnerListed, ends]
  exact (realizes.completes.fits.between_perm twinRealizes.completes.fits reorders sound otherSound
    bundle.ends).map Edge.id

end Plan.Realizes

/-- Where nothing clashes, stage edges between the same stages hold the same values. -/
theorem Staging.Records.bag_eq {staging : Staging} {sets others : DisjointSets}
    {edges otherEdges : List Edge} {bundles partners : List StageEdge}
    (records : staging.Records sets edges bundles)
    (otherRecords : staging.Records others otherEdges partners)
    (settled : staging.Settled sets edges) (otherSettled : staging.Settled others otherEdges)
    (perm : ∀ ends, (staging.between others otherEdges ends).Perm
      (staging.between sets edges ends))
    {bundle partner : StageEdge} (bundleIn : bundle ∈ bundles) (partnerIn : partner ∈ partners)
    (ends : partner.ends = bundle.ends) : partner.bag = bundle.bag := by
  refine (otherRecords.marked partner partnerIn).filled.ext
    (records.marked bundle bundleIn).filled ?_
  intro kind
  rw [otherRecords.reads partner partnerIn, records.reads bundle bundleIn, ends]
  by_cases carried : kind ∈ Kind.carried
  · rw [if_pos carried, if_pos carried,
      settled.lastHeld_eq otherSettled bundle.ends (perm bundle.ends) kind carried]
  · rw [if_neg carried, if_neg carried]

/-- If a graph is lowered to a plan, so is every graph that differs in the order of its edges. -/
theorem JobGraph.Reorders.lower_ok {graph other : JobGraph} (reorders : other.Reorders graph)
    (sound : graph.Sound) (otherSound : other.Sound) {strict : Bool} {source : Source} {plan : Plan}
    (lowered : ((lower strict (some graph)).run source).1.outcome = .ok plan) :
    ∃ twin, ((lower strict (some other)).run source).1.outcome = .ok twin := by
  obtain ⟨staging, sets, others, id, fits, otherFits, numbered, continues, otherContinues⟩ :=
    reorders.staged sound otherSound (patterned_of_lower sound lowered) source
  obtain ⟨lenient, quiet⟩ := (lower_ok_iff strict (some graph) source plan).mp lowered
  rw [continues] at lenient quiet
  obtain ⟨outside, free, distinct⟩ := (fits.lowered_ok_iff sound numbered id).mp ⟨plan, lenient⟩
  obtain ⟨twin, otherLenient⟩ := (otherFits.lowered_ok_iff otherSound numbered id).mpr
    ⟨fun edge member encloses => outside edge ((reorders.mem_iff edge).mp member)
      ((reorders.encloses_iff edge).mp encloses), fun entangled => free
        (reorders.entangled_iff.mp entangled), distinct⟩
  refine ⟨twin, (lower_ok_iff strict (some other) source twin).mpr ?_⟩
  rw [otherContinues]
  refine ⟨otherLenient, ?_⟩
  intro isStrict
  have agree := (staging.no_clash_iff sets _).mp
    ((Plan.records_of_lowered sound fits lenient).2.symm.trans (quiet isStrict))
  rw [(Plan.records_of_lowered otherSound otherFits otherLenient).2]
  exact (staging.no_clash_iff others _).mpr
    (fits.agree otherFits reorders sound otherSound agree)

/-- The order in which edges were connected decides neither whether there is a plan nor what its
stages are.

The stage edges lead between the same stages and list the same edges. In a strict lowering they
hold the same values as well. -/
theorem edge_order_irrelevant (graph other : JobGraph) (made : graph.Made) (otherMade : other.Made)
    (reorders : other.Reorders graph) (strict : Bool) (source : Source) :
    ((∃ plan, ((lower strict (some graph)).run source).1.outcome = .ok plan) ↔
        ∃ twin, ((lower strict (some other)).run source).1.outcome = .ok twin) ∧
      ∀ plan twin, ((lower strict (some graph)).run source).1.outcome = .ok plan →
        ((lower strict (some other)).run source).1.outcome = .ok twin →
        twin.stages = plan.stages ∧
          (plan.stageGraph.edges.map StageEdge.ends).Nodup ∧
          (twin.stageGraph.edges.map StageEdge.ends).Perm
            (plan.stageGraph.edges.map StageEdge.ends) ∧
          ∀ bundle ∈ plan.stageGraph.edges, ∀ partner ∈ twin.stageGraph.edges,
            partner.ends = bundle.ends → partner.bundled.Perm bundle.bundled ∧
              (strict = true → partner.bag = bundle.bag) := by
  have sound := made.sound
  have otherSound := otherMade.sound
  refine ⟨⟨?_, ?_⟩, ?_⟩
  · rintro ⟨plan, lowered⟩
    exact reorders.lower_ok sound otherSound lowered
  · rintro ⟨twin, lowered⟩
    exact reorders.symm.lower_ok otherSound sound lowered
  · intro plan twin lowered twinLowered
    obtain ⟨staging, sets, others, id, fits, otherFits, _, continues, otherContinues⟩ :=
      reorders.staged sound otherSound (patterned_of_lower sound lowered) source
    obtain ⟨lenient, quiet⟩ := (lower_ok_iff strict (some graph) source plan).mp lowered
    obtain ⟨otherLenient, otherQuiet⟩ :=
      (lower_ok_iff strict (some other) source twin).mp twinLowered
    rw [continues] at lenient quiet
    rw [otherContinues] at otherLenient otherQuiet
    have realizes := Plan.realizes_of_lowered sound fits lenient
    have twinRealizes := Plan.realizes_of_lowered otherSound otherFits otherLenient
    obtain ⟨records, reported⟩ := Plan.records_of_lowered sound fits lenient
    obtain ⟨otherRecords, otherReported⟩ :=
      Plan.records_of_lowered otherSound otherFits otherLenient
    refine ⟨realizes.stages_eq twinRealizes reorders sound otherSound, records.holds.distinct,
      realizes.ends_perm twinRealizes reorders sound otherSound, ?_⟩
    intro bundle bundleIn partner partnerIn ends
    refine ⟨realizes.bundled_perm_of_ends twinRealizes reorders sound otherSound bundleIn partnerIn
      ends, ?_⟩
    intro isStrict
    exact records.bag_eq otherRecords
      (Staging.settled_of_quiet (reported.symm.trans (quiet isStrict)))
      (Staging.settled_of_quiet (otherReported.symm.trans (otherQuiet isStrict)))
      (fits.between_perm otherFits reorders sound otherSound) bundleIn partnerIn ends

/-- The two stages, with the edges connected the other way round. -/
def twoStagesReversed : JobGraph :=
  { twoStages with edges := twoStages.edges.reverse, links := twoStages.links.reverse }

/-- A builder hands this graph out. -/
theorem twoStagesReversed_made : twoStagesReversed.Made := by
  refine .ofLists twoStages.vertices twoStages.edges.reverse ?_ ?_ rfl rfl rfl
  · exact twoStages_made.sound.vertices
  · intro edge member
    exact twoStages_made.sound.edges edge (List.mem_reverse.mp member)

/-- The plans have the same stages, and stage edges with the same edges and bags. -/
theorem twoStagesReversed_lowered :
    ∃ plan twin, ((lower true (some twoStages)).run (.start "s")).1.outcome = .ok plan ∧
      ((lower true (some twoStagesReversed)).run (.start "s")).1.outcome = .ok twin ∧
      twin.stages = plan.stages ∧
      ∀ bundle ∈ plan.stageGraph.edges, ∀ partner ∈ twin.stageGraph.edges,
        partner.ends = bundle.ends →
          partner.bundled.Perm bundle.bundled ∧ partner.bag = bundle.bag := by
  obtain ⟨planned, same⟩ := edge_order_irrelevant twoStages twoStagesReversed twoStages_made
    twoStagesReversed_made ⟨rfl, List.reverse_perm _⟩ true (.start "s")
  obtain ⟨plan, lowered⟩ := twoStages_lowered
  obtain ⟨twin, twinLowered⟩ := planned.mp ⟨plan, lowered⟩
  obtain ⟨stages, _, _, partners⟩ := same plan twin lowered twinLowered
  refine ⟨plan, twin, lowered, twinLowered, stages, ?_⟩
  intro bundle bundleIn partner partnerIn ends
  obtain ⟨bundled, bags⟩ := partners bundle bundleIn partner partnerIn ends
  exact ⟨bundled, bags rfl⟩

end Flowplan
