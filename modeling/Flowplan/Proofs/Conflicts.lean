import Flowplan.Proofs.Bundles

/-!
# Conflicts between bundled edges

A stage edge reads, under every kind it carries, what the edge bundled last with such a value holds
(`Edge.lastHeld`). A conflict is therefore reported for an edge whose value differs from the one of
the nearest edge before it on the same stage edge.

Values are compared with this one predecessor only. Still, no conflict is reported exactly if any
two edges on a stage edge agree wherever both hold a value (`Staging.Agree`): as long as they agree,
the last value is the value of them all.

A strict lowering does what a lenient one does until the first conflict, which is its fault
(`Conflict.enforce`).
-/

namespace Flowplan

/-! ## Strict results -/

namespace Conflict

variable {α β : Type}

/-- What a strict lowering makes of a result: the first conflict is the fault. -/
def enforce (result : Except Fault α × List Conflict) : Except Fault α × List Conflict :=
  match result.2 with
  | [] => (result.1, [])
  | conflict :: _ => (.error conflict.fault, [])

/-- Without conflicts a strict lowering does what a lenient one does. -/
@[simp] theorem enforce_nil (result : Except Fault α) : enforce (result, []) = (result, []) := rfl

/-- Whether conflicts are enforced before or after a value is changed makes no difference. -/
theorem enforce_map (change : α → β) (result : Except Fault α × List Conflict) :
    enforce (result.1.map change, result.2) =
      ((enforce result).1.map change, (enforce result).2) := by
  obtain ⟨outcome, conflicts⟩ := result
  cases conflicts <;> rfl

end Conflict

namespace StageEdge

/-- Values are taken over strictly as they are otherwise, up to the first conflict. -/
theorem takeOver_strict (edge : Edge) (kinds : List Kind) (bundle : StageEdge) :
    takeOver true edge kinds bundle = Conflict.enforce (takeOver false edge kinds bundle) := by
  induction kinds generalizing bundle with
  | nil => rfl
  | cons kind rest inductionHypothesis =>
      cases held : edge.bag.get? kind with
      | none =>
          rw [takeOver_absent true edge kind rest bundle held,
            takeOver_absent false edge kind rest bundle held, inductionHypothesis]
      | some next =>
          cases differs : bundle.conflict? edge kind next with
          | some conflict =>
              rw [takeOver_conflict edge kind rest bundle next held conflict differs]
              simp only [takeOver, held, differs]
              cases bundle.bag.set (some next) <;> rfl
          | none =>
              simp only [takeOver, held, differs]
              cases bundle.bag.set (some next) with
              | error fault => rfl
              | ok bag =>
                  simp only [inductionHypothesis]
                  rfl

/-- An edge is bundled strictly as it is otherwise, up to the first conflict. -/
theorem bundleBetween_strict (edge : Edge) (source destination : String)
    (bundles : List StageEdge) :
    bundleBetween true edge source destination bundles =
      Conflict.enforce (bundleBetween false edge source destination bundles) := by
  induction bundles with
  | nil =>
      simp only [bundleBetween, bundleEdge, takeOver_strict, Conflict.enforce_map]
  | cons bundle rest inductionHypothesis =>
      simp only [bundleBetween]
      split
      · simp only [bundleEdge, takeOver_strict, Conflict.enforce_map]
      · simp only [inductionHypothesis, Conflict.enforce_map]

end StageEdge

namespace Staging

/-- A strict bundling is a lenient one that ends at the first conflict. -/
theorem bundleAll_strict (staging : Staging) (sets : DisjointSets) (edges : List Edge)
    (bundles : List StageEdge) :
    staging.bundleAll true sets edges bundles =
      Conflict.enforce (staging.bundleAll false sets edges bundles) := by
  induction edges generalizing bundles with
  | nil => rfl
  | cons edge rest inductionHypothesis =>
      simp only [bundleAll]
      split
      · split
        · split
          · rfl
          · exact inductionHypothesis bundles
        · rename_i source destination _ _ _
          rw [StageEdge.bundleBetween_strict]
          rcases StageEdge.bundleBetween false edge source.id destination.id bundles with
            ⟨fault | extended, _ | ⟨conflict, others⟩⟩
          · rfl
          · rfl
          · simp only [Conflict.enforce_nil, inductionHypothesis]
            rfl
          · rfl
      · rfl

end Staging

/-! ## What stage edges read -/

/-- The value that the last of the edges which hold one of a kind holds. -/
def Edge.lastHeld (kind : Kind) : List Edge → Option Value
  | [] => none
  | edge :: rest => (lastHeld kind rest).or (edge.bag.get? kind)

namespace Edge

/-- One more edge gives the last value if it holds one. -/
theorem lastHeld_concat (kind : Kind) (edges : List Edge) (edge : Edge) :
    lastHeld kind (edges ++ [edge]) = (edge.bag.get? kind).or (lastHeld kind edges) := by
  induction edges with
  | nil => simp [lastHeld]
  | cons first rest inductionHypothesis =>
      rw [List.cons_append, lastHeld, lastHeld, inductionHypothesis, Option.or_assoc]

/-- The last value is held by one of the edges. -/
theorem lastHeld_held {kind : Kind} {edges : List Edge} {value : Value}
    (read : lastHeld kind edges = some value) :
    ∃ edge ∈ edges, edge.bag.get? kind = some value := by
  induction edges with
  | nil => cases read
  | cons first rest inductionHypothesis =>
      rcases Option.or_eq_some_iff.mp read with later | ⟨_, here⟩
      · obtain ⟨edge, member, held⟩ := inductionHypothesis later
        exact ⟨edge, List.mem_cons_of_mem first member, held⟩
      · exact ⟨first, List.mem_cons_self, here⟩

/-- The conflict that an edge brings under a kind to a stage edge with the given ends, after the
given edges. -/
def clash? (edge : Edge) (ends : String × String) (earlier : List Edge) (kind : Kind) :
    Option Conflict :=
  (edge.bag.get? kind).bind fun next =>
    (lastHeld kind earlier).bind fun previous =>
      if previous = next then none
      else some ⟨ends.1 ++ "->" ++ ends.2, edge.id, kind, previous, next⟩

/-- An edge clashes under a kind exactly if it holds a value of this kind which differs from the
last one before it. -/
theorem clash?_eq_some_iff (edge : Edge) (ends : String × String) (earlier : List Edge)
    (kind : Kind) (conflict : Conflict) :
    edge.clash? ends earlier kind = some conflict ↔
      ∃ previous next, lastHeld kind earlier = some previous ∧
        edge.bag.get? kind = some next ∧ previous ≠ next ∧
          conflict = ⟨ends.1 ++ "->" ++ ends.2, edge.id, kind, previous, next⟩ := by
  simp only [clash?, Option.bind_eq_some_iff]
  constructor
  · rintro ⟨next, held, previous, read, differs⟩
    split at differs
    · cases differs
    · rename_i different
      exact ⟨previous, next, read, held, different, (Option.some.inj differs).symm⟩
  · rintro ⟨previous, next, read, held, different, rfl⟩
    exact ⟨next, held, previous, read, if_neg different⟩

end Edge

namespace StageEdge

/-- A stage edge finds the conflicts with what it reads. -/
theorem conflict?_eq_clash? (bundle : StageEdge) (edge : Edge) (earlier : List Edge) (kind : Kind)
    (reads : bundle.bag.get? kind = Edge.lastHeld kind earlier) :
    (edge.bag.get? kind).bind (bundle.conflict? edge kind) =
      edge.clash? bundle.ends earlier kind := by
  unfold Edge.clash?
  congr 1
  funext next
  rw [conflict?, reads]
  cases Edge.lastHeld kind earlier <;> rfl

/-- Every kind is compared with what the stage edge read before anything was taken over. -/
theorem takeOver_reports (edge : Edge) (filled : edge.bag.Filled .edge) (kinds : List Kind)
    (distinct : kinds.Nodup) (bundle : StageEdge) (target : bundle.bag.target = .edge) :
    (takeOver false edge kinds bundle).2 =
      kinds.filterMap fun kind => (edge.bag.get? kind).bind (bundle.conflict? edge kind) := by
  induction kinds generalizing bundle with
  | nil => rfl
  | cons kind rest inductionHypothesis =>
      obtain ⟨absent, restDistinct⟩ := List.nodup_cons.mp distinct
      cases held : edge.bag.get? kind with
      | none =>
          rw [takeOver_absent false edge kind rest bundle held,
            inductionHypothesis restDistinct bundle target, List.filterMap_cons_none]
          rw [held, Option.bind_none]
      | some next =>
          obtain ⟨isHeld, isKind⟩ := Bag.get?_some edge.bag kind next held
          have accepted := filled.accepted next isHeld bundle.bag target
          obtain ⟨bag, stored⟩ : ∃ bag, bundle.bag.set (some next) = .ok bag :=
            ⟨_, (Bag.set_ok_iff bundle.bag _ next).mpr ⟨accepted, rfl⟩⟩
          have targetAfter : bag.target = .edge := by
            obtain ⟨_, rfl⟩ := (Bag.set_ok_iff bundle.bag bag next).mp stored
            exact target
          have others : (rest.filterMap fun later => (edge.bag.get? later).bind
              ({ bundle with bag := bag }.conflict? edge later)) =
              rest.filterMap fun later => (edge.bag.get? later).bind
                (bundle.conflict? edge later) := by
            apply List.filterMap_congr
            intro later member
            have different : next.kind ≠ later := by
              rintro rfl
              exact absent (isKind ▸ member)
            congr 1
            funext value
            simp only [conflict?, Bag.get?_set _ _ next stored, if_neg different]
            rfl
          have first : (takeOver false edge (kind :: rest) bundle).2 =
              (bundle.conflict? edge kind next).toList ++
                (takeOver false edge rest { bundle with bag := bag }).2 := by
            simp only [takeOver, held, stored]
          rw [first, inductionHypothesis restDistinct { bundle with bag := bag } targetAfter,
            others]
          cases differs : bundle.conflict? edge kind next with
          | none =>
              rw [List.filterMap_cons_none (by rw [held, Option.bind_some, differs])]
              rfl
          | some conflict =>
              rw [List.filterMap_cons_some (b := conflict)
                (by rw [held, Option.bind_some, differs])]
              rfl

end StageEdge

namespace Staging

/-- The edges, among given ones, that cross between two stages. -/
def between (staging : Staging) (sets : DisjointSets) (edges : List Edge)
    (ends : String × String) : List Edge :=
  edges.filter fun edge => staging.crossing? sets edge = some ends

/-- An edge is between two stages exactly if it is given and crosses between them. -/
theorem mem_between (staging : Staging) (sets : DisjointSets) (edges : List Edge)
    (ends : String × String) (edge : Edge) :
    edge ∈ staging.between sets edges ends ↔
      edge ∈ edges ∧ staging.crossing? sets edge = some ends := by
  simp [between]

/-- One more edge comes last between the stages that it crosses between, and nowhere else. -/
theorem between_concat (staging : Staging) (sets : DisjointSets) (edges : List Edge)
    (ends : String × String) (edge : Edge) :
    staging.between sets (edges ++ [edge]) ends = staging.between sets edges ends ++
      if staging.crossing? sets edge = some ends then [edge] else [] := by
  unfold between
  rw [List.filter_append]
  split <;> simp [*]

/-- The conflicts that an edge brings after those noted. -/
def clashes (staging : Staging) (sets : DisjointSets) (noted : List Edge) (edge : Edge) :
    List Conflict :=
  (staging.crossing? sets edge).elim [] fun ends =>
    Kind.carried.filterMap (edge.clash? ends (staging.between sets noted ends))

/-- The conflicts that edges bring one after another, after those noted. -/
def clashesAlong (staging : Staging) (sets : DisjointSets) (noted : List Edge) :
    List Edge → List Conflict
  | [] => []
  | edge :: rest =>
      staging.clashes sets noted edge ++ staging.clashesAlong sets (noted ++ [edge]) rest

/-- Stage edges that carry the edges noted so far, and read the last values of these. -/
structure Records (staging : Staging) (sets : DisjointSets) (noted : List Edge)
    (bundles : List StageEdge) : Prop extends Carries staging sets noted bundles where
  reads : ∀ bundle ∈ bundles, ∀ kind, bundle.bag.get? kind = if kind ∈ Kind.carried then
    Edge.lastHeld kind (staging.between sets noted bundle.ends) else none

/-- As long as no edge is noted, no stage edge has to read anything. -/
theorem records_nil (staging : Staging) (sets : DisjointSets) : staging.Records sets [] [] :=
  ⟨staging.carries_nil sets, fun _ member => nomatch member⟩

namespace Records

variable {staging : Staging} {sets : DisjointSets} {noted : List Edge} {bundles : List StageEdge}

/-- A stage edge on which nothing is bundled reads nothing, as no edge leads between its stages. -/
theorem bare_reads (records : staging.Records sets noted bundles) (source destination : String)
    (new : (source, destination) ∉ bundles.map StageEdge.ends) (kind : Kind) :
    (StageEdge.bare source destination).bag.get? kind =
      if kind ∈ Kind.carried then
        Edge.lastHeld kind (staging.between sets noted (source, destination)) else none := by
  have nothing : staging.between sets noted (source, destination) = [] := by
    apply List.eq_nil_iff_forall_not_mem.mpr
    intro edge member
    obtain ⟨isNoted, crosses⟩ := (mem_between _ _ _ _ _).mp member
    exact new (records.holds.covered edge isNoted _ crosses)
  rw [nothing]
  split <;> rfl

/-- A stage edge reads the values of the edge bundled on it. -/
theorem bundleEdge_reads (strict : Bool) (edge : Edge) (bundle after : StageEdge)
    (crosses : staging.crossing? sets edge = some bundle.ends)
    (reads : ∀ kind, bundle.bag.get? kind = if kind ∈ Kind.carried then
      Edge.lastHeld kind (staging.between sets noted bundle.ends) else none)
    (done : (StageEdge.bundleEdge strict edge bundle).1 = .ok after) (kind : Kind) :
    after.bag.get? kind = if kind ∈ Kind.carried then
      Edge.lastHeld kind (staging.between sets (noted ++ [edge]) after.ends) else none := by
  have takes := StageEdge.takeOver_takes strict edge _ _ after done
  have ends : after.ends = bundle.ends := Prod.ext takes.source takes.destination
  rw [takes.values, ends, between_concat, if_pos crosses, Edge.lastHeld_concat]
  have before : ({ bundle with bundled := bundle.bundled ++ [edge.id] } : StageEdge).bag.get? kind =
    bundle.bag.get? kind := rfl
  rw [before, reads]
  split <;> rfl

/-- A stage edge reads what it did as long as edges cross elsewhere. -/
theorem elsewhere_reads (records : staging.Records sets noted bundles) (edge : Edge)
    (bundle : StageEdge) (member : bundle ∈ bundles)
    (elsewhere : staging.crossing? sets edge ≠ some bundle.ends) (kind : Kind) :
    bundle.bag.get? kind = if kind ∈ Kind.carried then
      Edge.lastHeld kind (staging.between sets (noted ++ [edge]) bundle.ends) else none := by
  rw [records.reads bundle member, between_concat, if_neg elsewhere, List.append_nil]

/-- Bundling one crossing edge records its values. -/
theorem bundleBetween (records : staging.Records sets noted bundles) {after : List StageEdge}
    (strict : Bool) (edge : Edge) (shuffles : edge.isShuffle = true) (source destination : String)
    (crosses : staging.crossing? sets edge = some (source, destination))
    (done : (StageEdge.bundleBetween strict edge source destination bundles).1 = .ok after) :
    staging.Records sets (noted ++ [edge]) after := by
  refine ⟨bundleBetween_carries records.toCarries strict edge shuffles source destination crosses
    done, ?_⟩
  rcases StageEdge.bundleBetween_cases strict edge source destination bundles with
    ⟨new, result⟩ | ⟨front, bundle, back, rfl, same, result⟩
  · obtain ⟨bundle, isBundled, rfl⟩ := (map_eq_ok_iff _ _ _).mp (result ▸ done)
    intro asked member
    rcases List.mem_append.mp member with old | last
    · refine records.elsewhere_reads edge asked old ?_
      intro here
      have ends := Option.some.inj (crosses.symm.trans here)
      exact new (ends ▸ List.mem_map_of_mem old)
    · obtain rfl := List.mem_singleton.mp last
      exact bundleEdge_reads strict edge (StageEdge.bare source destination) asked crosses
        (records.bare_reads source destination new) isBundled
  · obtain ⟨longer, isBundled, rfl⟩ := (map_eq_ok_iff _ _ _).mp (result ▸ done)
    intro asked member
    rcases List.mem_cons.mp (List.perm_middle.mem_iff.mp member) with rfl | other
    · exact bundleEdge_reads strict edge bundle asked (crosses.trans (congrArg some same.symm))
        (records.reads bundle (by simp)) isBundled
    · have listed := List.perm_middle.mem_iff.mpr (List.mem_cons_of_mem bundle other)
      refine records.elsewhere_reads edge asked listed ?_
      intro here
      have ends : bundle.ends = asked.ends :=
        same.trans (Option.some.inj (crosses.symm.trans here))
      -- the names of the files are distinct, so the stage edge would stand twice
      have distinct : (bundle.ends :: (front ++ back).map StageEdge.ends).Nodup :=
        (List.perm_middle.map StageEdge.ends).nodup_iff.mp records.holds.distinct
      exact (List.nodup_cons.mp distinct).1 (ends ▸ List.mem_map_of_mem other)

/-- Bundling one crossing edge reports its clashes. -/
theorem bundleBetween_reports (records : staging.Records sets noted bundles) (edge : Edge)
    (filled : edge.bag.Filled .edge) (source destination : String)
    (crosses : staging.crossing? sets edge = some (source, destination)) :
    (StageEdge.bundleBetween false edge source destination bundles).2 =
      staging.clashes sets noted edge := by
  have reported : ∀ bundle : StageEdge, bundle.ends = (source, destination) →
      bundle.bag.target = .edge →
      (∀ kind, bundle.bag.get? kind = if kind ∈ Kind.carried then
        Edge.lastHeld kind (staging.between sets noted (source, destination)) else none) →
      (StageEdge.bundleEdge false edge bundle).2 = staging.clashes sets noted edge := by
    intro bundle ends target reads
    rw [StageEdge.bundleEdge, StageEdge.takeOver_reports edge filled Kind.carried (by decide)
      { bundle with bundled := bundle.bundled ++ [edge.id] } target, clashes, crosses,
      Option.elim_some, ← ends]
    apply List.filterMap_congr
    intro kind carried
    refine StageEdge.conflict?_eq_clash?
      { bundle with bundled := bundle.bundled ++ [edge.id] } edge _ kind ?_
    rw [ends]
    exact (reads kind).trans (if_pos carried)
  rcases StageEdge.bundleBetween_split false edge source destination bundles with
    ⟨new, result⟩ | ⟨front, bundle, back, rfl, same, result⟩
  · rw [result]
    exact reported _ rfl rfl (records.bare_reads source destination new)
  · rw [result]
    have member : bundle ∈ front ++ bundle :: back := by simp
    exact reported bundle same (records.marked bundle member).target
      (same ▸ records.reads bundle member)

/-- What one edge does in a lenient bundling: a shuffle inside a stage ends it, and any other edge
is recorded, with its clashes reported before those of later edges. -/
theorem bundleAll_turn (records : staging.Records sets noted bundles) (edge : Edge)
    (suits : staging.Suits sets edge) (rest : List Edge) :
    (∃ fault, staging.bundleAll false sets (edge :: rest) bundles = (.error fault, [])) ∨
      ∃ extended, staging.Records sets (noted ++ [edge]) extended ∧
        staging.bundleAll false sets (edge :: rest) bundles =
          ((staging.bundleAll false sets rest extended).1,
            staging.clashes sets noted edge ++ (staging.bundleAll false sets rest extended).2) := by
  obtain ⟨source, ofSource⟩ := suits.source
  obtain ⟨destination, ofDestination⟩ := suits.destination
  cases together : sets.together edge.source edge.destination with
  | true =>
      have unkeyed : staging.crossing? sets edge = none := if_pos together
      rw [staging.bundleAll_inside false sets edge rest bundles source destination ofSource
        ofDestination together]
      cases shuffles : edge.isShuffle with
      | true => exact Or.inl ⟨_, if_pos rfl⟩
      | false =>
          refine Or.inr ⟨bundles, ⟨⟨records.holds.passed edge unkeyed, records.marked⟩, ?_⟩, ?_⟩
          · intro bundle member
            exact records.elsewhere_reads edge bundle member (by simp [unkeyed])
          · rw [if_neg (by simp), clashes, unkeyed, Option.elim_none, List.nil_append]
  | false =>
      have crosses : staging.crossing? sets edge = some (source.id, destination.id) := by
        simp [crossing?, together, ofSource, ofDestination]
      obtain ⟨extended, result⟩ := bundleBetween_free edge suits.filled source.id destination.id
        bundles records.marked
      refine Or.inr ⟨extended, ?_, ?_⟩
      · exact records.bundleBetween false edge (suits.shuffles together) source.id destination.id
          crosses result
      · rw [← records.bundleBetween_reports edge suits.filled source.id destination.id crosses]
        simp only [Staging.bundleAll, ofSource, ofDestination, together]
        generalize StageEdge.bundleBetween false edge source.id destination.id bundles = between
          at *
        obtain ⟨outcome, conflicts⟩ := between
        obtain rfl : outcome = .ok extended := result
        rfl

/-- A lenient bundling that goes through records all edges and reports their clashes one after
another. -/
theorem bundleAll (records : staging.Records sets noted bundles) {after : List StageEdge}
    (edges : List Edge) (suits : ∀ edge ∈ edges, staging.Suits sets edge)
    (done : (staging.bundleAll false sets edges bundles).1 = .ok after) :
    staging.Records sets (noted ++ edges) after ∧
      (staging.bundleAll false sets edges bundles).2 = staging.clashesAlong sets noted edges := by
  induction edges generalizing noted bundles with
  | nil =>
      obtain rfl := Except.ok.inj done
      exact ⟨by simpa using records, rfl⟩
  | cons edge rest inductionHypothesis =>
      rcases records.bundleAll_turn edge (suits edge List.mem_cons_self) rest with
        ⟨fault, stops⟩ | ⟨extended, recorded, goesOn⟩
      · rw [stops] at done
        cases done
      · rw [goesOn] at done ⊢
        obtain ⟨all, reportedLater⟩ := inductionHypothesis recorded
          (fun later member => suits later (List.mem_cons_of_mem edge member)) done
        refine ⟨by simpa using all, ?_⟩
        rw [reportedLater, clashesAlong]

/-- Whether or not a lenient bundling goes through, all it reports are clashes. -/
theorem reported (records : staging.Records sets noted bundles) (edges : List Edge)
    (suits : ∀ edge ∈ edges, staging.Suits sets edge) {conflict : Conflict}
    (isReported : conflict ∈ (staging.bundleAll false sets edges bundles).2) :
    conflict ∈ staging.clashesAlong sets noted edges := by
  induction edges generalizing noted bundles with
  | nil => exact nomatch isReported
  | cons edge rest inductionHypothesis =>
      rcases records.bundleAll_turn edge (suits edge List.mem_cons_self) rest with
        ⟨fault, stops⟩ | ⟨extended, recorded, goesOn⟩
      · rw [stops] at isReported
        exact nomatch isReported
      · rw [goesOn] at isReported
        rw [clashesAlong]
        refine List.mem_append.mpr ((List.mem_append.mp isReported).imp_right ?_)
        exact inductionHypothesis recorded
          (fun later member => suits later (List.mem_cons_of_mem edge member))

end Records

/-! ## Agreement -/

/-- Any two edges that cross between the same stages hold equal values of every kind they both
hold, among the kinds that stage edges carry. -/
def Agree (staging : Staging) (sets : DisjointSets) (edges : List Edge) : Prop :=
  ∀ left ∈ edges, ∀ right ∈ edges, ∀ ends, staging.crossing? sets left = some ends →
    staging.crossing? sets right = some ends → ∀ kind ∈ Kind.carried, ∀ one two,
      left.bag.get? kind = some one → right.bag.get? kind = some two → one = two

/-- A clash is a difference between two edges on one stage edge. -/
theorem mem_clashesAlong {staging : Staging} {sets : DisjointSets} {noted edges : List Edge}
    {conflict : Conflict} (clashes : conflict ∈ staging.clashesAlong sets noted edges) :
    ∃ left ∈ noted ++ edges, ∃ right ∈ noted ++ edges, ∃ ends,
      staging.crossing? sets left = some ends ∧ staging.crossing? sets right = some ends ∧
      ∃ kind ∈ Kind.carried, ∃ one two, left.bag.get? kind = some one ∧
        right.bag.get? kind = some two ∧ one ≠ two ∧
        conflict = ⟨ends.1 ++ "->" ++ ends.2, right.id, kind, one, two⟩ := by
  induction edges generalizing noted with
  | nil => cases clashes
  | cons edge rest inductionHypothesis =>
      rcases List.mem_append.mp clashes with here | later
      · unfold Staging.clashes at here
        cases crosses : staging.crossing? sets edge with
        | none =>
            rw [crosses] at here
            cases here
        | some ends =>
            rw [crosses, Option.elim_some] at here
            obtain ⟨kind, carried, clash⟩ := List.mem_filterMap.mp here
            obtain ⟨one, two, read, held, different, rfl⟩ :=
              (Edge.clash?_eq_some_iff _ _ _ _ _).mp clash
            obtain ⟨left, filed, leftHeld⟩ := Edge.lastHeld_held read
            obtain ⟨isNoted, leftCrosses⟩ := (mem_between _ _ _ _ _).mp filed
            exact ⟨left, List.mem_append_left _ isNoted, edge, by simp, ends, leftCrosses, crosses,
              kind, carried, one, two, leftHeld, held, different, rfl⟩
      · simpa using inductionHypothesis later

/-- Whatever an edge holds of a kind that stage edges carry is what its stage edge reads. -/
def Settled (staging : Staging) (sets : DisjointSets) (edges : List Edge) : Prop :=
  ∀ ends, ∀ edge ∈ staging.between sets edges ends, ∀ kind ∈ Kind.carried, ∀ value,
    edge.bag.get? kind = some value →
      Edge.lastHeld kind (staging.between sets edges ends) = some value

/-- An edge that does not clash leaves the reading of earlier edges as it is. -/
theorem Settled.concat {staging : Staging} {sets : DisjointSets} {noted : List Edge}
    (settled : staging.Settled sets noted) (edge : Edge)
    (quiet : staging.clashes sets noted edge = []) : staging.Settled sets (noted ++ [edge]) := by
  intro ends asked member kind carried value held
  rw [between_concat] at member ⊢
  by_cases crosses : staging.crossing? sets edge = some ends
  · rw [if_pos crosses] at member ⊢
    rw [Edge.lastHeld_concat]
    rcases List.mem_append.mp member with old | new
    · have read := settled ends asked old kind carried value held
      cases next : edge.bag.get? kind with
      | none => exact read
      | some brought =>
          rw [Option.some_or]
          by_contra different
          have clash := (Edge.clash?_eq_some_iff edge ends (staging.between sets noted ends) kind
            _).mpr ⟨value, brought, read, next, fun same => different (congrArg some same.symm),
              rfl⟩
          rw [clashes, crosses, Option.elim_some] at quiet
          rw [List.filterMap_eq_nil_iff.mp quiet kind carried] at clash
          cases clash
    · obtain rfl := List.mem_singleton.mp new
      rw [held, Option.some_or]
  · rw [if_neg crosses, List.append_nil] at member ⊢
    exact settled ends asked member kind carried value held

/-- Edges that bring no conflict leave everything settled. -/
theorem Settled.append {staging : Staging} {sets : DisjointSets} {noted : List Edge}
    (settled : staging.Settled sets noted) (edges : List Edge)
    (quiet : staging.clashesAlong sets noted edges = []) :
    staging.Settled sets (noted ++ edges) := by
  induction edges generalizing noted with
  | nil => simpa using settled
  | cons edge rest inductionHypothesis =>
      obtain ⟨quietHere, quietLater⟩ := List.append_eq_nil_iff.mp quiet
      simpa using inductionHypothesis (settled.concat edge quietHere) quietLater

/-- Edges without any conflict are settled. -/
theorem settled_of_quiet {staging : Staging} {sets : DisjointSets} {edges : List Edge}
    (quiet : staging.clashesAlong sets [] edges = []) : staging.Settled sets edges := by
  have start : staging.Settled sets [] := fun _ _ member => nomatch member
  exact start.append edges quiet

/-- Nothing clashes exactly if any two edges on one stage edge agree. -/
theorem no_clash_iff (staging : Staging) (sets : DisjointSets) (edges : List Edge) :
    staging.clashesAlong sets [] edges = [] ↔ staging.Agree sets edges := by
  constructor
  · intro quiet left leftIn right rightIn ends leftCrosses rightCrosses kind carried one two
      leftHeld rightHeld
    have settled := settled_of_quiet quiet
    have ofLeft := settled ends left ((mem_between _ _ _ _ _).mpr ⟨leftIn, leftCrosses⟩) kind
      carried one leftHeld
    have ofRight := settled ends right ((mem_between _ _ _ _ _).mpr ⟨rightIn, rightCrosses⟩) kind
      carried two rightHeld
    exact Option.some.inj (ofLeft.symm.trans ofRight)
  · intro agree
    apply List.eq_nil_iff_forall_not_mem.mpr
    intro conflict clashes
    obtain ⟨left, leftIn, right, rightIn, ends, leftCrosses, rightCrosses, kind, carried, one, two,
      leftHeld, rightHeld, different, _⟩ := mem_clashesAlong clashes
    exact different (agree left (by simpa using leftIn) right (by simpa using rightIn) ends
      leftCrosses rightCrosses kind carried one two leftHeld rightHeld)

end Staging

end Flowplan
