import Flowplan.Proofs.StrictLowerings

/-!
# The values that stage edges keep

A lenient lowering bundles the shuffles between two stages one by one. Under every kind, the last of
them to hold a value leaves it on the stage edge, and a warning is given whenever a value differs
from the one before it. Bundling goes through the shuffles between all stages at once; what it
leaves on one stage edge depends on the edges listed there alone.
-/

namespace Flowplan

/-! ## The last value among edges -/

/-- Among given edges, the last one that holds a value of a kind holds the given value. -/
def Edge.LastHolds (kind : Kind) (value : Value) (edges : List Edge) : Prop :=
  ∃ earlier edge later, edges = earlier ++ edge :: later ∧ edge.bag.get? kind = some value ∧
    ∀ other ∈ later, other.bag.get? kind = none

namespace Edge

/-- There is no last value exactly if no edge holds one. -/
theorem lastHeld_eq_none_iff (kind : Kind) (edges : List Edge) :
    lastHeld kind edges = none ↔ ∀ edge ∈ edges, edge.bag.get? kind = none := by
  induction edges with
  | nil => simp [lastHeld]
  | cons first rest inductionHypothesis =>
      rw [lastHeld, Option.or_eq_none_iff, inductionHypothesis, List.forall_mem_cons, and_comm]

/-- The last value is held by an edge with no other such edge behind it. -/
theorem lastHeld_eq_some_iff (kind : Kind) (edges : List Edge) (value : Value) :
    lastHeld kind edges = some value ↔ LastHolds kind value edges := by
  induction edges with
  | nil =>
      constructor
      · intro read
        cases read
      · rintro ⟨earlier, edge, later, split, _⟩
        simp at split
  | cons first rest inductionHypothesis =>
      rw [lastHeld, Option.or_eq_some_iff, inductionHypothesis, lastHeld_eq_none_iff]
      constructor
      · intro read
        cases read with
        | inl behind =>
            obtain ⟨earlier, edge, later, rfl, held, silent⟩ := behind
            exact ⟨first :: earlier, edge, later, rfl, held, silent⟩
        | inr here => exact ⟨[], first, rest, rfl, here.2, here.1⟩
      · rintro ⟨earlier, edge, later, split, held, silent⟩
        cases earlier with
        | nil =>
            obtain ⟨rfl, rfl⟩ := List.cons.inj split
            exact Or.inr ⟨silent, held⟩
        | cons _ front =>
            obtain ⟨_, rfl⟩ := List.cons.inj split
            exact Or.inl ⟨front, edge, later, rfl, held, silent⟩

end Edge

/-! ## Clashes one by one -/

namespace Staging

variable {staging : Staging} {sets : DisjointSets}

/-- An edge brings a conflict exactly if it crosses between two stages and clashes there under a
kind that stage edges carry. -/
theorem mem_clashes_iff (noted : List Edge) (edge : Edge) (conflict : Conflict) :
    conflict ∈ staging.clashes sets noted edge ↔
      ∃ ends, staging.crossing? sets edge = some ends ∧ ∃ kind ∈ Kind.carried,
        edge.clash? ends (staging.between sets noted ends) kind = some conflict := by
  unfold clashes
  cases staging.crossing? sets edge with
  | none => simp
  | some ends => simp [List.mem_filterMap]

/-- Every clash is brought by one of the edges, after those that came before it. -/
theorem mem_clashesAlong_iff (noted edges : List Edge) (conflict : Conflict) :
    conflict ∈ staging.clashesAlong sets noted edges ↔
      ∃ front edge back, edges = front ++ edge :: back ∧
        conflict ∈ staging.clashes sets (noted ++ front) edge := by
  induction edges generalizing noted with
  | nil => simp [clashesAlong]
  | cons first rest inductionHypothesis =>
      rw [clashesAlong, List.mem_append, inductionHypothesis]
      constructor
      · intro brought
        cases brought with
        | inl here => exact ⟨[], first, rest, rfl, by simpa using here⟩
        | inr behind =>
            obtain ⟨front, edge, back, rfl, clashes⟩ := behind
            exact ⟨first :: front, edge, back, rfl, by simpa using clashes⟩
      · rintro ⟨front, edge, back, split, clashes⟩
        cases front with
        | nil =>
            obtain ⟨rfl, rfl⟩ := List.cons.inj split
            exact Or.inl (by simpa using clashes)
        | cons _ front =>
            obtain ⟨rfl, rfl⟩ := List.cons.inj split
            exact Or.inr ⟨front, edge, back, rfl, by simpa using clashes⟩

/-- The edges before a place between two stages are those that came before it at all. -/
theorem between_split_iff (edges : List Edge) (ends : String × String) (earlier : List Edge)
    (edge : Edge) :
    (∃ later, staging.between sets edges ends = earlier ++ edge :: later) ↔
      ∃ front back, edges = front ++ edge :: back ∧ staging.crossing? sets edge = some ends ∧
        staging.between sets front ends = earlier := by
  constructor
  · rintro ⟨later, split⟩
    obtain ⟨before, after, rfl, isEarlier, isLater⟩ := List.filter_eq_append_iff.mp split
    obtain ⟨skipped, back, rfl, none, crosses, _⟩ := List.filter_eq_cons_iff.mp isLater
    refine ⟨before ++ skipped, back, by simp, of_decide_eq_true crosses, ?_⟩
    have nothing : skipped.filter (fun edge => staging.crossing? sets edge = some ends) = [] :=
      List.filter_eq_nil_iff.mpr none
    rw [between, List.filter_append, nothing, List.append_nil]
    exact isEarlier
  · rintro ⟨front, back, rfl, crosses, rfl⟩
    refine ⟨staging.between sets back ends, ?_⟩
    rw [between, List.filter_append, List.filter_cons_of_pos (by simpa using crosses)]
    rfl

/-- An edge clashes between its two stages with the last value held there before it. -/
theorem mem_all_clashes_iff (edges : List Edge) (conflict : Conflict) :
    conflict ∈ staging.clashesAlong sets [] edges ↔
      ∃ ends earlier edge later, staging.between sets edges ends = earlier ++ edge :: later ∧
        ∃ kind ∈ Kind.carried, ∃ previous next, Edge.LastHolds kind previous earlier ∧
          edge.bag.get? kind = some next ∧ previous ≠ next ∧
          conflict = ⟨ends.1 ++ "->" ++ ends.2, edge.id, kind, previous, next⟩ := by
  rw [mem_clashesAlong_iff]
  simp only [List.nil_append, mem_clashes_iff, Edge.clash?_eq_some_iff,
    Edge.lastHeld_eq_some_iff]
  constructor
  · rintro ⟨front, edge, back, split, ends, crosses, clash⟩
    obtain ⟨later, isSplit⟩ := (between_split_iff edges ends _ edge).mpr
      ⟨front, back, split, crosses, rfl⟩
    exact ⟨ends, _, edge, later, isSplit, clash⟩
  · rintro ⟨ends, earlier, edge, later, isSplit, clash⟩
    obtain ⟨front, back, split, crosses, rfl⟩ :=
      (between_split_iff edges ends earlier edge).mp ⟨later, isSplit⟩
    exact ⟨front, edge, back, split, ends, crosses, clash⟩

/-- A clash names the edge that brings it and a kind, and no kind is named twice. -/
theorem clashes_distinct (staging : Staging) (sets : DisjointSets) (noted : List Edge)
    (edge : Edge) :
    ((staging.clashes sets noted edge).map fun conflict => (conflict.edge, conflict.kind)).Nodup ∧
      ∀ conflict ∈ staging.clashes sets noted edge, conflict.edge = edge.id := by
  constructor
  · unfold clashes
    cases staging.crossing? sets edge with
    | none => exact List.nodup_nil
    | some ends =>
        have carried : Kind.carried.Nodup := by decide
        rw [Option.elim_some, List.map_filterMap]
        refine carried.filterMap ?_
        rintro first second key ofFirst ofSecond
        obtain ⟨one, clash, rfl⟩ := Option.map_eq_some_iff.mp ofFirst
        obtain ⟨two, otherClash, same⟩ := Option.map_eq_some_iff.mp ofSecond
        obtain ⟨_, _, _, _, _, rfl⟩ := (Edge.clash?_eq_some_iff _ _ _ _ _).mp clash
        obtain ⟨_, _, _, _, _, rfl⟩ := (Edge.clash?_eq_some_iff _ _ _ _ _).mp otherClash
        exact (Prod.mk.inj same).2.symm
  · intro conflict member
    obtain ⟨_, _, _, _, clash⟩ := (mem_clashes_iff noted edge conflict).mp member
    obtain ⟨_, _, _, _, _, rfl⟩ := (Edge.clash?_eq_some_iff _ _ _ _ _).mp clash
    rfl

/-- If the ids of the edges are distinct, no edge clashes twice under a kind. -/
theorem clashesAlong_distinct (noted edges : List Edge) (distinct : (edges.map Edge.id).Nodup) :
    ((staging.clashesAlong sets noted edges).map fun conflict =>
      (conflict.edge, conflict.kind)).Nodup := by
  induction edges generalizing noted with
  | nil => exact List.nodup_nil
  | cons edge rest inductionHypothesis =>
      obtain ⟨absent, restDistinct⟩ := List.nodup_cons.mp distinct
      obtain ⟨hereDistinct, brought⟩ := staging.clashes_distinct sets noted edge
      rw [clashesAlong, List.map_append]
      refine List.nodup_append.mpr ⟨hereDistinct, inductionHypothesis _ restDistinct, ?_⟩
      rintro key here _ behind rfl
      obtain ⟨one, clash, rfl⟩ := List.mem_map.mp here
      obtain ⟨two, laterClash, same⟩ := List.mem_map.mp behind
      obtain ⟨_, other, _, rfl, clashes⟩ := (mem_clashesAlong_iff _ rest two).mp laterClash
      have ofOther := (staging.clashes_distinct sets _ other).2 two clashes
      have named : other.id = edge.id :=
        ofOther.symm.trans ((Prod.mk.inj same).1.trans (brought one clash))
      exact absent (List.mem_map.mpr ⟨other, by simp, named⟩)

end Staging

/-! ## The edges listed on a stage edge -/

/-- The edges of a graph that are listed on a stage edge, in that order. -/
def JobGraph.listed (graph : JobGraph) (bundle : StageEdge) : List Edge :=
  bundle.bundled.filterMap graph.edge?

namespace Plan.Realizes

variable {plan : Plan} {staging : Staging} {sets : DisjointSets} {graph : JobGraph}

/-- The edges listed on a stage edge are those that cross between its stages, as they arrived. -/
theorem listed_eq (realizes : plan.Realizes staging sets graph) (sound : graph.Sound)
    {bundle : StageEdge} (bundleIn : bundle ∈ plan.stageGraph.edges) :
    bundle.bundled = (graph.listed bundle).map Edge.id ∧
      graph.listed bundle = staging.between sets graph.arrivals bundle.ends := by
  have bundled : bundle.bundled = (staging.between sets graph.arrivals bundle.ends).map Edge.id :=
    realizes.completes.carries.holds.contents bundle bundleIn
  have found : ∀ edge ∈ staging.between sets graph.arrivals bundle.ends,
      graph.edge? edge.id = some edge := by
    intro edge filed
    exact (sound.intact.edge?_iff _ _).mpr ⟨(realizes.shuffle_of_between sound filed).1, rfl⟩
  have listed : graph.listed bundle = staging.between sets graph.arrivals bundle.ends := by
    rw [JobGraph.listed, bundled, List.filterMap_map]
    exact (List.filterMap_congr found).trans List.filterMap_some
  exact ⟨listed ▸ bundled, listed⟩

end Plan.Realizes

/-- The warnings that a lowering logs. -/
def Lowered.warnings (lowered : Lowered) : List Log.Entry :=
  lowered.entries.filter fun entry => entry.level = .warn

namespace Lowered

/-- The warnings of a lowering are its conflicts, in the same order. -/
theorem warnings_eq (lowered : Lowered) :
    lowered.warnings = lowered.conflicts.map Conflict.entry := by
  have warned : (lowered.conflicts.map Conflict.entry).filter (fun entry => entry.level = .warn) =
      lowered.conflicts.map Conflict.entry :=
    List.filter_eq_self.mpr (List.forall_mem_map.mpr fun _ _ => rfl)
  rw [warnings, entries, List.filter_append, warned]
  cases lowered.outcome with
  | error fault => exact List.append_nil _
  | ok plan => exact List.append_nil _

/-- No two warnings have the same fields: these tell the edge and the kind of a conflict, as the
kinds that stage edges carry have different names. -/
theorem warnings_fields_distinct {lowered : Lowered}
    (carried : ∀ conflict ∈ lowered.conflicts, conflict.kind ∈ Kind.carried)
    (distinct : (lowered.conflicts.map fun conflict => (conflict.edge, conflict.kind)).Nodup) :
    (lowered.warnings.map Log.Entry.fields).Nodup := by
  have names : ∀ kind ∈ Kind.carried, ∀ other ∈ Kind.carried, kind.name = other.name →
      kind = other := by
    decide
  rw [warnings_eq, List.map_map]
  refine List.Nodup.map_on ?_ distinct.of_map
  intro one oneIn two twoIn same
  simp only [Function.comp_apply, Conflict.entry, List.cons.injEq, Prod.mk.injEq, true_and,
    and_true] at same
  obtain ⟨_, edges, kinds⟩ := same
  have sameKind := names _ (carried one oneIn) _ (carried two twoIn) kinds
  exact List.inj_on_of_nodup_map distinct oneIn twoIn (Prod.ext edges sameKind)

end Lowered

/-- A stage edge keeps the last value of every kind it carries, and every change of a value on the
way is warned of.

Under each such kind a stage edge holds what the last of its listed edges holds that has a value at
all, and it holds nothing exactly if none of them does. It holds no other kinds. There is a conflict
for an edge and a kind exactly if the value differs from that of the nearest listed edge before it
which has one, and there is one only.

Each conflict is logged as a warning that gives its stage edge, its edge and its kind in fields, and
both values in its message. No two warnings have the same fields, and there are no others. -/
theorem stageEdges_keep_last_values (graph : JobGraph) (made : graph.Made) (source : Source)
    (plan : Plan) (lowered : ((lower false (some graph)).run source).1.outcome = .ok plan) :
    let result := ((lower false (some graph)).run source).1
    (∀ bundle ∈ plan.stageGraph.edges,
        bundle.bundled = (graph.listed bundle).map Edge.id ∧
        (∀ kind ∈ Kind.carried, ∀ value, bundle.bag.get? kind = some value ↔
          Edge.LastHolds kind value (graph.listed bundle)) ∧
        (∀ kind ∈ Kind.carried, bundle.bag.get? kind = none ↔
          ∀ edge ∈ graph.listed bundle, edge.bag.get? kind = none) ∧
        ∀ kind, kind ∉ Kind.carried → bundle.bag.get? kind = none) ∧
      (∀ conflict, conflict ∈ result.conflicts ↔ ∃ bundle ∈ plan.stageGraph.edges,
        ∃ earlier edge later, graph.listed bundle = earlier ++ edge :: later ∧
          ∃ kind ∈ Kind.carried, ∃ previous next, Edge.LastHolds kind previous earlier ∧
            edge.bag.get? kind = some next ∧ previous ≠ next ∧
            conflict = ⟨bundle.id, edge.id, kind, previous, next⟩) ∧
      (result.conflicts.map fun conflict => (conflict.edge, conflict.kind)).Nodup ∧
      result.warnings =
        (result.conflicts.map fun conflict =>
          { level := .warn
            message := "conflicting property values " ++ conflict.previous.text ++ " and " ++
              conflict.next.text ++ ", keeping " ++ conflict.next.text
            fields := [("stageEdge", conflict.stageEdge), ("irEdge", conflict.edge),
              ("kind", conflict.kind.name)] }) ∧
      (result.warnings.map Log.Entry.fields).Nodup := by
  have sound := made.sound
  obtain ⟨staging, sets, realizes, records, reported⟩ := Plan.recorded_of_lower sound lowered
  have distinct : (((lower false (some graph)).run source).1.conflicts.map fun conflict =>
      (conflict.edge, conflict.kind)).Nodup := by
    rw [reported]
    exact Staging.clashesAlong_distinct [] graph.arrivals
      ((sound.arrivals_perm.map Edge.id).nodup_iff.mpr sound.edge_ids_distinct)
  have carried : ∀ conflict ∈ ((lower false (some graph)).run source).1.conflicts,
      conflict.kind ∈ Kind.carried := by
    intro conflict member
    rw [reported, Staging.mem_all_clashes_iff] at member
    obtain ⟨_, _, _, _, _, kind, isCarried, _, _, _, _, _, rfl⟩ := member
    exact isCarried
  refine ⟨?_, ?_, distinct, Lowered.warnings_eq _,
    Lowered.warnings_fields_distinct carried distinct⟩
  · intro bundle bundleIn
    obtain ⟨bundled, listed⟩ := realizes.listed_eq sound bundleIn
    have reads := records.reads bundle bundleIn
    rw [← listed] at reads
    refine ⟨bundled, ?_, ?_, ?_⟩
    · intro kind carried value
      rw [reads, if_pos carried, Edge.lastHeld_eq_some_iff]
    · intro kind carried
      rw [reads, if_pos carried, Edge.lastHeld_eq_none_iff]
    · intro kind other
      rw [reads, if_neg other]
  · intro conflict
    rw [reported, Staging.mem_all_clashes_iff]
    constructor
    · rintro ⟨ends, earlier, edge, later, split, clash⟩
      -- the edge crosses between these stages, so there is a stage edge between them
      have filed : edge ∈ staging.between sets graph.arrivals ends := by simp [split]
      obtain ⟨arrives, crosses⟩ := (Staging.mem_between _ _ _ _ _).mp filed
      obtain ⟨bundle, bundleIn, rfl⟩ := List.mem_map.mp (records.holds.covered edge arrives ends
        crosses)
      exact ⟨bundle, bundleIn, earlier, edge, later,
        (realizes.listed_eq sound bundleIn).2.trans split, clash⟩
    · rintro ⟨bundle, bundleIn, earlier, edge, later, split, clash⟩
      exact ⟨bundle.ends, earlier, edge, later,
        (realizes.listed_eq sound bundleIn).2.symm.trans split, clash⟩

/-- The last encoder is kept, and the one warning is for the edge that brought it: the edge between
the two has no encoder, so the values are compared across it. -/
theorem rivalEncoders_kept :
    ∃ plan bundle, ((lower false (some rivalEncoders)).run (.start "s")).1.outcome = .ok plan ∧
      plan.stageGraph.edges = [bundle] ∧ bundle.bundled = ["first", "second", "third"] ∧
      bundle.bag.get? .encoder = some (.encoder "avro") ∧
      Edge.LastHolds .encoder (.encoder "avro") (rivalEncoders.listed bundle) ∧
      ((lower false (some rivalEncoders)).run (.start "s")).1.warnings =
        [{ level := .warn
           message := "conflicting property values Encoder(json) and Encoder(avro), " ++
             "keeping Encoder(avro)"
           fields := [("stageEdge", "Stage-s-0->Stage-s-1"), ("irEdge", "third"),
             ("kind", "Encoder")] }] := by
  have kept : ((lower false (some rivalEncoders)).run (.start "s")).1.outcome.toOption.map
      (fun plan => plan.stageGraph.edges) = some [⟨"Stage-s-0", "Stage-s-1",
        ⟨.edge, [.pattern .shuffle, .encoder "avro"]⟩, ["first", "second", "third"]⟩] := by
    decide +kernel
  have conflicts : ((lower false (some rivalEncoders)).run (.start "s")).1.conflicts =
      [⟨"Stage-s-0->Stage-s-1", "third", .encoder, .encoder "json", .encoder "avro"⟩] := by
    decide +kernel
  obtain ⟨plan, result, edges⟩ := ok_of_seen kept
  obtain ⟨keeps, _, _, warned, _⟩ :=
    stageEdges_keep_last_values rivalEncoders rivalEncoders_made (.start "s") plan result
  obtain ⟨_, last, _⟩ := keeps _ (edges ▸ List.mem_singleton_self _)
  refine ⟨plan, _, result, edges, rfl, rfl, (last .encoder (by decide) _).mp rfl, ?_⟩
  rw [warned, conflicts]
  rfl

end Flowplan
