import Flowplan.Proofs.Conflicts
import Flowplan.Proofs.Plans

/-!
# Strict and lenient lowerings

A strict lowering goes the way of a lenient one until the first conflict, and fails there. So it
fails wherever the lenient one does, and where both succeed, nothing tells their plans apart.

Whether there is a conflict at all is read off the plan of the lenient lowering: its stage edges
list the edges bundled on them, and there is one exactly if two edges listed together dispute a
value (`Plan.Disputes`).
-/

namespace Flowplan

/-! ## Ending at the first conflict -/

/-- A lowering that fails at its first conflict, if it has one. -/
def Lowered.enforced (lowered : Lowered) : Lowered :=
  ⟨(Conflict.enforce (lowered.outcome, lowered.conflicts)).1,
    (Conflict.enforce (lowered.outcome, lowered.conflicts)).2⟩

namespace Lowered

/-- A lowering without conflicts is not changed by being strict. -/
theorem enforced_of_none {lowered : Lowered} (quiet : lowered.conflicts = []) :
    lowered.enforced = lowered := by
  obtain ⟨outcome, conflicts⟩ := lowered
  obtain rfl : conflicts = [] := quiet
  rfl

/-- A strict lowering fails with the first conflict. -/
theorem enforced_of_some {lowered : Lowered} {conflict : Conflict} {others : List Conflict}
    (reported : lowered.conflicts = conflict :: others) :
    lowered.enforced.outcome = .error conflict.fault := by
  obtain ⟨outcome, conflicts⟩ := lowered
  obtain rfl : conflicts = conflict :: others := reported
  rfl

/-- A strict lowering succeeds where the lenient one does without a conflict. -/
theorem enforced_ok_iff (lowered : Lowered) (plan : Plan) :
    lowered.enforced.outcome = .ok plan ↔ lowered.outcome = .ok plan ∧ lowered.conflicts = [] := by
  cases conflicts : lowered.conflicts with
  | nil => simp [enforced_of_none conflicts]
  | cons conflict others => simp [enforced_of_some conflicts]

/-- The warnings of a lowering are its conflicts. -/
theorem conflicts_eq_nil_iff (lowered : Lowered) :
    lowered.conflicts = [] ↔ ∀ entry ∈ lowered.entries, entry.level ≠ .warn := by
  constructor
  · intro quiet entry logged
    rw [entries, quiet, List.map_nil, List.nil_append] at logged
    cases outcome : lowered.outcome with
    | error fault =>
        rw [outcome] at logged
        cases logged
    | ok plan =>
        rw [outcome] at logged
        obtain rfl := List.mem_singleton.mp logged
        exact nofun
  · intro quiet
    apply List.eq_nil_iff_forall_not_mem.mpr
    intro conflict reported
    exact quiet conflict.entry (List.mem_append_left _ (List.mem_map_of_mem reported)) rfl

end Lowered

/-- What is left once the stages are drawn is done strictly as it is otherwise, up to the first
conflict. -/
theorem Staging.lowered_strict (staging : Staging) (sets : DisjointSets) (edges : List Edge)
    (id : String) :
    staging.lowered true sets edges id = (staging.lowered false sets edges id).enforced := by
  rw [lowered, lowered, bundleAll_strict]
  rcases staging.bundleAll false sets edges [] with ⟨outcome, _ | ⟨conflict, others⟩⟩ <;> rfl

namespace Gathering

/-- A finished walk is lowered strictly as it is otherwise, up to the first conflict. -/
theorem lower_strict (gathering : Gathering) (source : Source) :
    ((gathering.lower true).run source).1 = ((gathering.lower false).run source).1.enforced := by
  cases placed : Group.placeAll gathering.groups gathering.order [] with
  | error fault =>
      simp only [lower, placed]
      rfl
  | ok groups =>
      rw [run_lower gathering true source groups placed,
        run_lower gathering false source groups placed, Staging.lowered_strict]

/-- The walk does not ask whether the lowering is strict. -/
theorem visitAll_strict (graph : JobGraph) (vertices : List Vertex) (gathering : Gathering) :
    (converter true).visitAll graph vertices gathering =
      (converter false).visitAll graph vertices gathering := by
  induction vertices generalizing gathering with
  | nil => simp only [Converter.visitAll]
  | cons vertex rest inductionHypothesis =>
      cases visited : visit vertex (graph.incoming vertex.id) gathering with
      | mk result after =>
          cases result with
          | error fault =>
              rw [visitAll_fails true graph vertex rest visited,
                visitAll_fails false graph vertex rest visited]
          | ok _ =>
              rw [visitAll_goesOn true graph vertex rest visited,
                visitAll_goesOn false graph vertex rest visited, inductionHypothesis]

end Gathering

/-- Whatever is lowered, a strict lowering is a lenient one that ends at the first conflict. -/
theorem lower_enforced (graph : Option JobGraph) (source : Source) :
    ((lower true graph).run source).1 = ((lower false graph).run source).1.enforced := by
  cases graph with
  | none => rfl
  | some graph =>
      simp only [lower, Converter.convert?, Converter.convert, Gathering.visitAll_strict]
      rcases (Gathering.converter false).visitAll graph graph.topological .empty with
        ⟨fault | _, gathering⟩
      · rfl
      · exact Gathering.lower_strict gathering source

/-- A lowering succeeds where the lenient one does, without a conflict if it is strict. -/
theorem lower_ok_iff (strict : Bool) (graph : Option JobGraph) (source : Source) (plan : Plan) :
    ((lower strict graph).run source).1.outcome = .ok plan ↔
      ((lower false graph).run source).1.outcome = .ok plan ∧
        (strict = true → ((lower false graph).run source).1.conflicts = []) := by
  cases strict with
  | false => simp
  | true => simp [lower_enforced, Lowered.enforced_ok_iff]

/-! ## Disputes read off a plan -/

namespace Plan

/-- Two edges listed on a stage edge hold different values of a kind that stage edges carry. -/
def Disputes (plan : Plan) (graph : JobGraph) (bundle : StageEdge) (kind : Kind)
    (one two : Value) : Prop :=
  bundle ∈ plan.stageGraph.edges ∧ kind ∈ Kind.carried ∧ one ≠ two ∧
    ∃ left ∈ graph.edges, ∃ right ∈ graph.edges, left.id ∈ bundle.bundled ∧
      right.id ∈ bundle.bundled ∧ left.bag.get? kind = some one ∧ right.bag.get? kind = some two

/-- Stages that fit the graph are given stage edges with the values of the last edges on them, and
the conflicts are the clashes of the edges in the order of arrivals. -/
theorem records_of_lowered {graph : JobGraph} (sound : graph.Sound) {staging : Staging}
    {sets : DisjointSets} (fits : staging.Fits sets graph) {id : String} {plan : Plan}
    (lowered : (staging.lowered false sets graph.arrivals id).outcome = .ok plan) :
    staging.Records sets graph.arrivals plan.stageGraph.edges ∧
      (staging.lowered false sets graph.arrivals id).conflicts =
        staging.clashesAlong sets [] graph.arrivals := by
  obtain ⟨bundles, stageGraph, bundled, formed, rfl⟩ := Staging.lowered_ok lowered
  obtain ⟨records, reported⟩ := (staging.records_nil sets).bundleAll graph.arrivals
    (fits.arrivals_suit sound) bundled
  obtain ⟨_, _, edges⟩ := staging.graph_intact bundles stageGraph formed
  exact ⟨edges.symm ▸ records, reported⟩

/-- Whatever was lowered leniently, the stage edges record the edges between the stages of the
plan, and the conflicts are the clashes of these. -/
theorem recorded_of_lower {graph : JobGraph} (sound : graph.Sound) {source : Source} {plan : Plan}
    (lowered : ((lower false (some graph)).run source).1.outcome = .ok plan) :
    ∃ staging sets, plan.Realizes staging sets graph ∧
      staging.Records sets graph.arrivals plan.stageGraph.edges ∧
      ((lower false (some graph)).run source).1.conflicts =
        staging.clashesAlong sets [] graph.arrivals := by
  obtain ⟨gathering, walked, isWalked⟩ :=
    Gathering.lower_of_patterned false sound (patterned_of_lower sound lowered)
  obtain ⟨staging, id, fits, _, continues⟩ := walked.lowered sound false source
  rw [isWalked, continues] at lowered ⊢
  exact ⟨staging, gathering.groups, realizes_of_lowered sound fits lowered,
    records_of_lowered sound fits lowered⟩

/-- The conflicts of a lowering are those which the edges bring as they arrive. -/
theorem clashes_of_lower {graph : JobGraph} (sound : graph.Sound) {source : Source} {plan : Plan}
    (lowered : ((lower false (some graph)).run source).1.outcome = .ok plan) :
    ∃ staging sets, plan.Realizes staging sets graph ∧
      ((lower false (some graph)).run source).1.conflicts =
        staging.clashesAlong sets [] graph.arrivals := by
  obtain ⟨staging, sets, realizes, _, reported⟩ := recorded_of_lower sound lowered
  exact ⟨staging, sets, realizes, reported⟩

namespace Realizes

variable {plan : Plan} {staging : Staging} {sets : DisjointSets} {graph : JobGraph}

/-- A stage edge lists an edge exactly if the edge crosses between its stages. -/
theorem bundled_iff (realizes : plan.Realizes staging sets graph) (sound : graph.Sound)
    {bundle : StageEdge} (bundleIn : bundle ∈ plan.stageGraph.edges) {edge : Edge}
    (member : edge ∈ graph.edges) :
    edge.id ∈ bundle.bundled ↔ staging.crossing? sets edge = some bundle.ends := by
  have listed : bundle.bundled =
      (staging.between sets graph.arrivals bundle.ends).map Edge.id :=
    realizes.completes.carries.holds.contents bundle bundleIn
  rw [listed, List.mem_map]
  constructor
  · rintro ⟨other, filed, same⟩
    obtain ⟨arrives, crosses⟩ := (Staging.mem_between _ _ _ _ _).mp filed
    obtain rfl := List.inj_on_of_nodup_map sound.edge_ids_distinct
      ((sound.mem_arrivals other).mp arrives) member same
    exact crosses
  · intro crosses
    have arrives := (sound.mem_arrivals edge).mpr member
    exact ⟨edge, (Staging.mem_between _ _ _ _ _).mpr ⟨arrives, crosses⟩, rfl⟩

/-- What crosses between two stages is a shuffle of the graph. -/
theorem shuffle_of_between (realizes : plan.Realizes staging sets graph) (sound : graph.Sound)
    {edge : Edge} {ends : String × String}
    (filed : edge ∈ staging.between sets graph.arrivals ends) :
    edge ∈ graph.edges ∧ edge.isShuffle = true := by
  obtain ⟨arrives, crosses⟩ := (Staging.mem_between _ _ _ _ _).mp filed
  have member := (sound.mem_arrivals edge).mp arrives
  exact ⟨member, ((realizes.completes.crossing?_iff sound edge member ends).mp crosses).1⟩

/-- Nothing is disputed on a plan exactly if the edges agree between the stages. -/
theorem undisputed_iff (realizes : plan.Realizes staging sets graph) (sound : graph.Sound) :
    (∀ bundle kind one two, ¬ plan.Disputes graph bundle kind one two) ↔
      staging.Agree sets graph.arrivals := by
  constructor
  · intro undisputed left leftArrives right rightArrives ends leftCrosses rightCrosses kind carried
      one two leftHeld rightHeld
    have leftIn := (sound.mem_arrivals left).mp leftArrives
    have rightIn := (sound.mem_arrivals right).mp rightArrives
    obtain ⟨bundle, bundleIn, rfl⟩ := List.mem_map.mp
      (realizes.completes.carries.holds.covered left leftArrives ends leftCrosses)
    by_contra different
    exact undisputed bundle kind one two ⟨bundleIn, carried, different, left, leftIn, right,
      rightIn, (realizes.bundled_iff sound bundleIn leftIn).mpr leftCrosses,
      (realizes.bundled_iff sound bundleIn rightIn).mpr rightCrosses, leftHeld, rightHeld⟩
  · rintro agree bundle kind one two ⟨bundleIn, carried, different, left, leftIn, right, rightIn,
      leftListed, rightListed, leftHeld, rightHeld⟩
    exact different (agree left ((sound.mem_arrivals left).mpr leftIn) right
      ((sound.mem_arrivals right).mpr rightIn) bundle.ends
      ((realizes.bundled_iff sound bundleIn leftIn).mp leftListed)
      ((realizes.bundled_iff sound bundleIn rightIn).mp rightListed) kind carried one two leftHeld
      rightHeld)

/-- A clash between the stages is a dispute on the plan. -/
theorem disputes_of_clash (realizes : plan.Realizes staging sets graph) (sound : graph.Sound)
    {conflict : Conflict} (clashes : conflict ∈ staging.clashesAlong sets [] graph.arrivals) :
    ∃ bundle kind one two, plan.Disputes graph bundle kind one two ∧
      conflict.fault = .conflict bundle.id kind.name one.text two.text := by
  obtain ⟨left, leftArrives, right, rightArrives, ends, leftCrosses, rightCrosses, kind, carried,
    one, two, leftHeld, rightHeld, different, rfl⟩ := Staging.mem_clashesAlong clashes
  rw [List.nil_append] at leftArrives rightArrives
  have leftIn := (sound.mem_arrivals left).mp leftArrives
  have rightIn := (sound.mem_arrivals right).mp rightArrives
  obtain ⟨bundle, bundleIn, rfl⟩ := List.mem_map.mp
    (realizes.completes.carries.holds.covered left leftArrives ends leftCrosses)
  refine ⟨bundle, kind, one, two, ⟨bundleIn, carried, different, left, leftIn, right, rightIn, ?_,
    ?_, leftHeld, rightHeld⟩, rfl⟩
  · exact (realizes.bundled_iff sound bundleIn leftIn).mpr leftCrosses
  · exact (realizes.bundled_iff sound bundleIn rightIn).mpr rightCrosses

end Realizes

end Plan

/-- A shuffle with an encoder. -/
def Edge.encoded (format id source destination : String) : Edge :=
  ⟨id, source, destination, ⟨.edge, [.pattern .shuffle, .encoder format]⟩⟩

/-- A shuffle with an accepted encoder has a filled bag. -/
theorem Edge.encoded_filled (format id source destination : String)
    (stored : (Edge.along .shuffle id source destination).bag.set (some (.encoder format)) =
      .ok (Edge.encoded format id source destination).bag) :
    (Edge.encoded format id source destination).bag.Filled .edge :=
  .set (some (.encoder format)) (Edge.along_filled .shuffle id source destination rfl) stored

/-- Three shuffles lead from `a` to `b`. The first and the last differ in their encoders, and the
one between them has none. -/
def rivalEncoders : JobGraph where
  vertices := ["a", "b"].map fun id => .bare id none
  edges := [.encoded "json" "first" "a" "b", .along .shuffle "second" "a" "b",
    .encoded "avro" "third" "a" "b"]
  ids := ["a", "b"]
  links := [⟨"first", "a", "b"⟩, ⟨"second", "a", "b"⟩, ⟨"third", "a", "b"⟩]
  order := [0, 1]

/-- A builder hands this graph out. -/
theorem rivalEncoders_made : rivalEncoders.Made := by
  refine .ofLists rivalEncoders.vertices rivalEncoders.edges ?_ ?_ rfl rfl rfl
  · exact List.forall_mem_map.mpr fun _ _ => .empty
  · simp only [rivalEncoders, List.forall_mem_cons]
    exact ⟨Edge.encoded_filled _ _ _ _ rfl, Edge.along_filled _ _ _ _ rfl,
      Edge.encoded_filled _ _ _ _ rfl, nofun⟩

/-- A strict lowering fails where a lenient one does. Where the lenient one succeeds, the strict one
succeeds exactly if no two edges listed on one stage edge hold different values of a kind, which is
exactly if the lenient one gave no warning.

Two plans are the same, and a strict lowering that fails alone reports two different values of one
kind on one stage edge. -/
theorem strict_lowering_exact (graph : JobGraph) (made : graph.Made) (source : Source) :
    ((∃ fault, ((lower false (some graph)).run source).1.outcome = .error fault) →
        ∃ fault, ((lower true (some graph)).run source).1.outcome = .error fault) ∧
      ∀ plan, ((lower false (some graph)).run source).1.outcome = .ok plan →
        ((∃ other, ((lower true (some graph)).run source).1.outcome = .ok other) ↔
            ∀ bundle kind one two, ¬ plan.Disputes graph bundle kind one two) ∧
          ((∀ bundle kind one two, ¬ plan.Disputes graph bundle kind one two) ↔
            ∀ entry ∈ ((lower false (some graph)).run source).1.entries, entry.level ≠ .warn) ∧
          (∀ other, ((lower true (some graph)).run source).1.outcome = .ok other →
            other = plan) ∧
          ∀ fault, ((lower true (some graph)).run source).1.outcome = .error fault →
            ∃ bundle kind one two, plan.Disputes graph bundle kind one two ∧
              fault = .conflict bundle.id kind.name one.text two.text := by
  have sound := made.sound
  rw [lower_enforced]
  cases conflicts : ((lower false (some graph)).run source).1.conflicts with
  | nil =>
      rw [Lowered.enforced_of_none conflicts]
      refine ⟨id, ?_⟩
      intro plan lowered
      obtain ⟨staging, sets, realizes, reported⟩ := Plan.clashes_of_lower sound lowered
      have undisputed := (realizes.undisputed_iff sound).mpr
        ((staging.no_clash_iff sets _).mp (reported.symm.trans conflicts))
      refine ⟨iff_of_true ⟨plan, lowered⟩ undisputed, iff_of_true undisputed ?_, ?_, ?_⟩
      · exact (Lowered.conflicts_eq_nil_iff _).mp conflicts
      · intro other alsoLowered
        exact Except.ok.inj (alsoLowered.symm.trans lowered)
      · intro fault fails
        cases lowered.symm.trans fails
  | cons conflict others =>
      have fails := Lowered.enforced_of_some conflicts
      rw [fails]
      refine ⟨fun _ => ⟨_, rfl⟩, ?_⟩
      intro plan lowered
      obtain ⟨staging, sets, realizes, reported⟩ := Plan.clashes_of_lower sound lowered
      have clashes : conflict ∈ staging.clashesAlong sets [] graph.arrivals := by
        rw [← reported, conflicts]
        exact List.mem_cons_self
      obtain ⟨bundle, kind, one, two, disputed, named⟩ := realizes.disputes_of_clash sound clashes
      have notUndisputed : ¬ ∀ bundle kind one two, ¬ plan.Disputes graph bundle kind one two :=
        fun undisputed => undisputed bundle kind one two disputed
      refine ⟨iff_of_false nofun notUndisputed, iff_of_false notUndisputed ?_, nofun, ?_⟩
      · intro quiet
        cases conflicts.symm.trans ((Lowered.conflicts_eq_nil_iff _).mpr quiet)
      · intro fault reportedFault
        cases reportedFault
        exact ⟨bundle, kind, one, two, disputed, named⟩

/-- The two encoders are reported with the stage edge and the kind they are disputed on. -/
theorem rivalEncoders_refused :
    ∃ plan fault, ((lower false (some rivalEncoders)).run (.start "s")).1.outcome = .ok plan ∧
      ((lower true (some rivalEncoders)).run (.start "s")).1.outcome = .error fault ∧
      fault = .conflict "Stage-s-0->Stage-s-1" "Encoder" "Encoder(json)" "Encoder(avro)" ∧
      ∃ bundle kind one two, plan.Disputes rivalEncoders bundle kind one two ∧
        fault = .conflict bundle.id kind.name one.text two.text := by
  have succeeds : ((lower false (some rivalEncoders)).run (.start "s")).1.outcome.isOk = true := by
    decide +kernel
  have fails : ((lower true (some rivalEncoders)).run (.start "s")).1.outcome = .error
      (.conflict "Stage-s-0->Stage-s-1" "Encoder" "Encoder(json)" "Encoder(avro)") := by
    with_unfolding_all rfl
  obtain ⟨_, exactly⟩ := strict_lowering_exact rivalEncoders rivalEncoders_made (.start "s")
  obtain ⟨plan, lowered⟩ := exists_ok succeeds
  obtain ⟨_, _, _, reports⟩ := exactly plan lowered
  exact ⟨plan, _, lowered, fails, rfl, reports _ fails⟩

end Flowplan
