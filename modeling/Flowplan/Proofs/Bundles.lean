import Flowplan.Proofs.Filing
import Flowplan.Proofs.Grouping

/-!
# Bundling shuffles on stage edges

Edges that cross from one stage to another are filed on stage edges, under the pair of the stages
they lead between. A stage edge reads, under every kind it carries, what the edge bundled last
with such a value holds.

Bundling ends at a shuffle inside a stage, and at a conflict if it is strict. Otherwise it goes
through: the values of an edge are accepted by every bag for edges.
-/

namespace Flowplan

namespace StageEdge

/-! ## Taking values over -/

/-- A stage edge after the values of the given kinds were taken over from an edge: everything but
the bag is as before, and what the edge holds replaces what was there. -/
structure TakesOver (kinds : List Kind) (edge : Edge) (bundle after : StageEdge) : Prop where
  source : after.source = bundle.source
  destination : after.destination = bundle.destination
  bundled : after.bundled = bundle.bundled
  filled : ∀ target, bundle.bag.Filled target → after.bag.Filled target
  values : ∀ kind, after.bag.get? kind =
    if kind ∈ kinds then (edge.bag.get? kind).or (bundle.bag.get? kind) else bundle.bag.get? kind

/-- A kind the edge does not hold is passed over. -/
theorem takeOver_absent (strict : Bool) (edge : Edge) (kind : Kind) (rest : List Kind)
    (bundle : StageEdge) (absent : edge.bag.get? kind = none) :
    takeOver strict edge (kind :: rest) bundle = takeOver strict edge rest bundle := by
  simp only [takeOver, absent]

/-- A strict lowering stops at a conflict. -/
theorem takeOver_conflict (edge : Edge) (kind : Kind) (rest : List Kind) (bundle : StageEdge)
    (next : Value) (held : edge.bag.get? kind = some next) (conflict : Conflict)
    (differs : bundle.conflict? edge kind next = some conflict) :
    takeOver true edge (kind :: rest) bundle = (.error conflict.fault, []) := by
  simp only [takeOver, held, differs]

/-- Without a conflict that counts, the value is stored and the next kind follows. -/
theorem takeOver_present (strict : Bool) (edge : Edge) (kind : Kind) (rest : List Kind)
    (bundle : StageEdge) (next : Value) (held : edge.bag.get? kind = some next)
    (free : strict = false ∨ bundle.conflict? edge kind next = none) :
    (takeOver strict edge (kind :: rest) bundle).1 =
      (bundle.bag.set (some next)).bind fun bag =>
        (takeOver strict edge rest { bundle with bag := bag }).1 := by
  rcases free with rfl | agrees
  · simp only [takeOver, held]
    cases bundle.bag.set (some next) <;> rfl
  · cases strict <;> simp only [takeOver, held, agrees] <;>
      cases bundle.bag.set (some next) <;> rfl

/-- Whatever was taken over, the stage edge is its former self with the edge's values. -/
theorem takeOver_takes (strict : Bool) (edge : Edge) (kinds : List Kind)
    (bundle after : StageEdge) (taken : (takeOver strict edge kinds bundle).1 = .ok after) :
    TakesOver kinds edge bundle after := by
  induction kinds generalizing bundle with
  | nil =>
      obtain rfl := Except.ok.inj taken
      exact ⟨rfl, rfl, rfl, fun _ filled => filled, fun _ => by simp⟩
  | cons kind rest inductionHypothesis =>
      cases held : edge.bag.get? kind with
      | none =>
          rw [takeOver_absent strict edge kind rest bundle held] at taken
          obtain ⟨source, destination, bundled, filled, values⟩ := inductionHypothesis bundle taken
          refine ⟨source, destination, bundled, filled, ?_⟩
          intro asked
          by_cases here : asked = kind
          · simp [values, here, held]
          · simp [values, here]
      | some next =>
          have free : strict = false ∨ bundle.conflict? edge kind next = none := by
            cases strict with
            | false => exact Or.inl rfl
            | true =>
                cases differs : bundle.conflict? edge kind next with
                | none => exact Or.inr rfl
                | some conflict =>
                    rw [takeOver_conflict edge kind rest bundle next held conflict differs] at taken
                    cases taken
          rw [takeOver_present strict edge kind rest bundle next held free] at taken
          obtain ⟨bag, stored, later⟩ := (bind_eq_ok_iff _ _ _).mp taken
          obtain ⟨source, destination, bundled, filled, values⟩ := inductionHypothesis _ later
          obtain ⟨_, isKind⟩ := Bag.get?_some edge.bag kind next held
          refine ⟨source, destination, bundled, ?_, ?_⟩
          · intro target before
            exact filled target (.set (some next) before stored)
          · intro asked
            rw [values, Bag.get?_set bundle.bag bag next stored]
            by_cases here : asked = kind
            · simp [here, held, isKind]
            · simp [here, isKind, Ne.symm here]

/-- A bag for edges accepts what an edge holds, so that nothing stops a lowering that is not
strict. -/
theorem takeOver_free (edge : Edge) (filled : edge.bag.Filled .edge) (kinds : List Kind)
    (bundle : StageEdge) (target : bundle.bag.target = .edge) :
    ∃ after, (takeOver false edge kinds bundle).1 = .ok after := by
  induction kinds generalizing bundle with
  | nil => exact ⟨bundle, rfl⟩
  | cons kind rest inductionHypothesis =>
      cases held : edge.bag.get? kind with
      | none =>
          rw [takeOver_absent false edge kind rest bundle held]
          exact inductionHypothesis bundle target
      | some next =>
          have accepted := filled.accepted next (Bag.get?_some edge.bag kind next held).1
            bundle.bag target
          have stored := (Bag.set_ok_iff bundle.bag _ next).mpr ⟨accepted, rfl⟩
          rw [takeOver_present false edge kind rest bundle next held (Or.inl rfl), stored]
          exact inductionHypothesis _ target

/-! ## Bundling one edge -/

/-- The pair of stages a stage edge leads between. -/
def ends (bundle : StageEdge) : String × String := (bundle.source, bundle.destination)

/-- An edge is bundled on a new stage edge behind all others, or on the one between its stages. The
conflicts are those of that stage edge. -/
theorem bundleBetween_split (strict : Bool) (edge : Edge) (source destination : String)
    (bundles : List StageEdge) :
    (source, destination) ∉ bundles.map ends ∧
        bundleBetween strict edge source destination bundles =
          ((bundleEdge strict edge (bare source destination)).1.map (fun bundle =>
            bundles ++ [bundle]), (bundleEdge strict edge (bare source destination)).2) ∨
      ∃ front bundle back, bundles = front ++ bundle :: back ∧
        bundle.ends = (source, destination) ∧
        bundleBetween strict edge source destination bundles =
          ((bundleEdge strict edge bundle).1.map fun longer => front ++ longer :: back,
            (bundleEdge strict edge bundle).2) := by
  induction bundles with
  | nil => exact Or.inl ⟨by simp, rfl⟩
  | cons bundle rest inductionHypothesis =>
      by_cases here : bundle.source = source ∧ bundle.destination = destination
      · refine Or.inr ⟨[], bundle, rest, rfl, Prod.ext here.1 here.2, ?_⟩
        rw [bundleBetween, if_pos here]
        rfl
      · rw [bundleBetween, if_neg here]
        rcases inductionHypothesis with ⟨new, bundled⟩ | ⟨front, found, back, split, same, bundled⟩
        · refine Or.inl ⟨?_, ?_⟩
          · intro member
            rcases List.mem_cons.mp member with first | later
            · exact here ⟨(congrArg Prod.fst first).symm, (congrArg Prod.snd first).symm⟩
            · exact new later
          · simp only [bundled]
            cases (bundleEdge strict edge (bare source destination)).1 <;> rfl
        · refine Or.inr ⟨bundle :: front, found, back, ?_, same, ?_⟩
          · rw [split, List.cons_append]
          · simp only [bundled]
            cases (bundleEdge strict edge found).1 <;> rfl

/-- An edge is bundled on the stage edge of its pair of stages if there is one, and otherwise on a
new one behind all others. -/
theorem bundleBetween_cases (strict : Bool) (edge : Edge) (source destination : String)
    (bundles : List StageEdge) :
    (source, destination) ∉ bundles.map ends ∧
        (bundleBetween strict edge source destination bundles).1 =
          (bundleEdge strict edge (bare source destination)).1.map (fun bundle =>
            bundles ++ [bundle]) ∨
      ∃ front bundle back, bundles = front ++ bundle :: back ∧
        bundle.ends = (source, destination) ∧
        (bundleBetween strict edge source destination bundles).1 =
          (bundleEdge strict edge bundle).1.map fun longer => front ++ longer :: back := by
  rcases bundleBetween_split strict edge source destination bundles with
    ⟨new, bundled⟩ | ⟨front, bundle, back, split, same, bundled⟩
  · exact Or.inl ⟨new, congrArg Prod.fst bundled⟩
  · exact Or.inr ⟨front, bundle, back, split, same, congrArg Prod.fst bundled⟩

/-- A stage edge that is marked as a shuffle, in a filled bag for edges. -/
structure Marked (bundle : StageEdge) : Prop where
  filled : bundle.bag.Filled .edge
  shuffles : bundle.bag.pattern? = some .shuffle

/-- A marked stage edge has a bag for edges. -/
theorem Marked.target {bundle : StageEdge} (marked : bundle.Marked) : bundle.bag.target = .edge :=
  marked.filled.target_eq

/-- An edge that shuffles marks the stage edge. -/
theorem bundleEdge_marked (strict : Bool) (edge : Edge) (bundle after : StageEdge)
    (filled : bundle.bag.Filled .edge) (shuffles : edge.isShuffle = true)
    (done : (bundleEdge strict edge bundle).1 = .ok after) : after.Marked := by
  have takes := takeOver_takes strict edge _ _ after done
  have held := (Bag.pattern?_eq_some_iff edge.bag .shuffle).mp (of_decide_eq_true shuffles)
  refine ⟨takes.filled .edge filled, (Bag.pattern?_eq_some_iff after.bag .shuffle).mpr ?_⟩
  rw [takes.values, if_pos (by decide), held, Option.some_or]

end StageEdge

/-! ## Bundling all edges -/

namespace Staging

/-- The pair of stages an edge crosses between, if its ends are not together. -/
def crossing? (staging : Staging) (sets : DisjointSets) (edge : Edge) : Option (String × String) :=
  if sets.together edge.source edge.destination then none
  else
    (staging.stageOf? edge.source).bind fun source =>
      (staging.stageOf? edge.destination).map fun destination => (source.id, destination.id)

/-- Crossing edges are filed on stage edges, under the pairs of their stages. -/
def filing (staging : Staging) (sets : DisjointSets) :
    Filing Edge (String × String) StageEdge String where
  keyOf := staging.crossing? sets
  entry := Edge.id
  name := StageEdge.ends
  contents := StageEdge.bundled

/-- Stage edges that carry the edges noted so far: crossing edges are filed on them, and every
one is marked as a shuffle. -/
structure Carries (staging : Staging) (sets : DisjointSets) (noted : List Edge)
    (bundles : List StageEdge) : Prop where
  holds : (staging.filing sets).Holds noted bundles
  marked : ∀ bundle ∈ bundles, bundle.Marked

/-- As long as no edge is noted, no stage edge is needed. -/
theorem carries_nil (staging : Staging) (sets : DisjointSets) : staging.Carries sets [] [] :=
  ⟨(staging.filing sets).holds_nil, fun _ member => nomatch member⟩

/-- What bundling needs of an edge: its ends have stages, and it shuffles if these differ. -/
structure Suits (staging : Staging) (sets : DisjointSets) (edge : Edge) : Prop where
  source : ∃ stage, staging.stageOf? edge.source = some stage
  destination : ∃ stage, staging.stageOf? edge.destination = some stage
  shuffles : sets.together edge.source edge.destination = false → edge.isShuffle = true
  filled : edge.bag.Filled .edge

/-- Bundling one crossing edge carries it as well. -/
theorem bundleBetween_carries {staging : Staging} {sets : DisjointSets} {noted : List Edge}
    {bundles after : List StageEdge} (carries : staging.Carries sets noted bundles)
    (strict : Bool) (edge : Edge) (shuffles : edge.isShuffle = true) (source destination : String)
    (crosses : staging.crossing? sets edge = some (source, destination))
    (done : (StageEdge.bundleBetween strict edge source destination bundles).1 = .ok after) :
    staging.Carries sets (noted ++ [edge]) after := by
  rcases StageEdge.bundleBetween_cases strict edge source destination bundles with
    ⟨new, result⟩ | ⟨front, bundle, back, rfl, same, result⟩
  · obtain ⟨bundle, isBundled, rfl⟩ := (map_eq_ok_iff _ _ _).mp (result ▸ done)
    have takes := StageEdge.takeOver_takes strict edge _ _ bundle isBundled
    have ends : bundle.ends = (source, destination) := Prod.ext takes.source takes.destination
    refine ⟨?_, ?_⟩
    · exact carries.holds.opened edge bundle (crosses.trans (congrArg some ends.symm))
        (fun known => new (ends ▸ known)) takes.bundled
    · intro asked member
      rcases List.mem_append.mp member with old | last
      · exact carries.marked asked old
      · obtain rfl := List.mem_singleton.mp last
        exact StageEdge.bundleEdge_marked strict edge _ asked .empty shuffles isBundled
  · obtain ⟨longer, isBundled, rfl⟩ := (map_eq_ok_iff _ _ _).mp (result ▸ done)
    have takes := StageEdge.takeOver_takes strict edge _ _ longer isBundled
    refine ⟨?_, ?_⟩
    · exact carries.holds.extended edge longer (crosses.trans (congrArg some same.symm))
        (Prod.ext takes.source takes.destination) takes.bundled
    · intro asked member
      rcases List.mem_cons.mp (List.perm_middle.mem_iff.mp member) with rfl | other
      · exact StageEdge.bundleEdge_marked strict edge bundle asked
          (carries.marked bundle (by simp)).filled shuffles isBundled
      · exact carries.marked asked
          (List.perm_middle.mem_iff.mpr (List.mem_cons_of_mem bundle other))

/-- A lowering that is not strict can bundle every edge. -/
theorem bundleBetween_free (edge : Edge) (filled : edge.bag.Filled .edge)
    (source destination : String) (bundles : List StageEdge)
    (marked : ∀ bundle ∈ bundles, bundle.Marked) :
    ∃ after, (StageEdge.bundleBetween false edge source destination bundles).1 = .ok after := by
  rcases StageEdge.bundleBetween_cases false edge source destination bundles with
    ⟨_, result⟩ | ⟨front, bundle, back, rfl, _, result⟩
  · obtain ⟨bundle, isBundled⟩ := StageEdge.takeOver_free edge filled Kind.carried
      { StageEdge.bare source destination with bundled := [edge.id] } rfl
    exact ⟨_, result.trans ((map_eq_ok_iff _ _ _).mpr ⟨bundle, isBundled, rfl⟩)⟩
  · obtain ⟨longer, isBundled⟩ := StageEdge.takeOver_free edge filled Kind.carried
      { bundle with bundled := bundle.bundled ++ [edge.id] } (marked bundle (by simp)).target
    exact ⟨_, result.trans ((map_eq_ok_iff _ _ _).mpr ⟨longer, isBundled, rfl⟩)⟩

/-- An edge within a stage is passed over if it does not shuffle, and is a defect if it does. -/
theorem bundleAll_inside (staging : Staging) (strict : Bool) (sets : DisjointSets) (edge : Edge)
    (rest : List Edge) (bundles : List StageEdge) (source destination : Stage)
    (ofSource : staging.stageOf? edge.source = some source)
    (ofDestination : staging.stageOf? edge.destination = some destination)
    (together : sets.together edge.source edge.destination = true) :
    staging.bundleAll strict sets (edge :: rest) bundles =
      if edge.isShuffle then
        (.error (.structural (.shuffleInsideStage edge.label source.label)), [])
      else staging.bundleAll strict sets rest bundles := by
  simp only [bundleAll, ofSource, ofDestination, together, if_true]

/-- An edge between stages is bundled before the next edge is looked at. -/
theorem bundleAll_across (staging : Staging) (strict : Bool) (sets : DisjointSets) (edge : Edge)
    (rest : List Edge) (bundles : List StageEdge) (source destination : Stage)
    (ofSource : staging.stageOf? edge.source = some source)
    (ofDestination : staging.stageOf? edge.destination = some destination)
    (apart : sets.together edge.source edge.destination = false) :
    (staging.bundleAll strict sets (edge :: rest) bundles).1 =
      (StageEdge.bundleBetween strict edge source.id destination.id bundles).1.bind fun extended =>
        (staging.bundleAll strict sets rest extended).1 := by
  simp only [bundleAll, ofSource, ofDestination, apart]
  rcases StageEdge.bundleBetween strict edge source.id destination.id bundles with
    ⟨fault | extended, conflicts⟩ <;> rfl

/-- A shuffle whose ends are together. -/
def Inside (sets : DisjointSets) (edge : Edge) : Prop :=
  edge.isShuffle = true ∧ sets.together edge.source edge.destination = true

/-- What one edge does: a shuffle inside a stage ends the bundling, any other edge is carried
from then on, unless a strict lowering refuses it. -/
theorem bundleAll_step {staging : Staging} {sets : DisjointSets} {noted : List Edge}
    {bundles : List StageEdge} (carries : staging.Carries sets noted bundles) (strict : Bool)
    (edge : Edge) (suits : staging.Suits sets edge) (rest : List Edge) :
    (Inside sets edge ∧ ∃ stage, staging.stageOf? edge.source = some stage ∧
        (staging.bundleAll strict sets (edge :: rest) bundles).1 =
          .error (.structural (.shuffleInsideStage edge.label stage.label))) ∨
      ¬ Inside sets edge ∧
        ((∃ extended, staging.Carries sets (noted ++ [edge]) extended ∧
            (staging.bundleAll strict sets (edge :: rest) bundles).1 =
              (staging.bundleAll strict sets rest extended).1) ∨
          strict = true ∧ ∃ fault,
            (staging.bundleAll strict sets (edge :: rest) bundles).1 = .error fault) := by
  obtain ⟨source, ofSource⟩ := suits.source
  obtain ⟨destination, ofDestination⟩ := suits.destination
  cases together : sets.together edge.source edge.destination with
  | true =>
      have inside := staging.bundleAll_inside strict sets edge rest bundles source destination
        ofSource ofDestination together
      cases shuffles : edge.isShuffle with
      | true =>
          refine Or.inl ⟨⟨shuffles, together⟩, source, ofSource, ?_⟩
          rw [inside, if_pos shuffles]
      | false =>
          have unkeyed : (staging.filing sets).keyOf edge = none := if_pos together
          refine Or.inr ⟨?_, Or.inl ⟨bundles, ?_, ?_⟩⟩
          · simp [Inside, shuffles]
          · exact ⟨carries.holds.passed edge unkeyed, carries.marked⟩
          · rw [inside, if_neg (by simp [shuffles])]
  | false =>
      have across := staging.bundleAll_across strict sets edge rest bundles source destination
        ofSource ofDestination together
      have crosses : staging.crossing? sets edge = some (source.id, destination.id) := by
        simp [crossing?, together, ofSource, ofDestination]
      refine Or.inr ⟨by simp [Inside, together], ?_⟩
      cases result : (StageEdge.bundleBetween strict edge source.id destination.id bundles).1 with
      | ok extended =>
          refine Or.inl ⟨extended, ?_, ?_⟩
          · exact bundleBetween_carries carries strict edge (suits.shuffles together) _ _ crosses
              result
          · rw [across, result]
            rfl
      | error fault =>
          refine Or.inr ⟨?_, fault, ?_⟩
          · -- if conflicts do not count, nothing an edge holds is refused
            by_contra lenient
            obtain ⟨extended, isBundled⟩ := bundleBetween_free edge suits.filled source.id
              destination.id bundles carries.marked
            rw [Bool.eq_false_of_not_eq_true lenient, isBundled] at result
            cases result
          · rw [across, result]
            rfl

/-- If bundling goes through, all edges are carried and none was a shuffle inside a stage. -/
theorem bundleAll_carries {staging : Staging} {sets : DisjointSets} {noted : List Edge}
    {bundles after : List StageEdge} (carries : staging.Carries sets noted bundles)
    (strict : Bool) (edges : List Edge) (suits : ∀ edge ∈ edges, staging.Suits sets edge)
    (done : (staging.bundleAll strict sets edges bundles).1 = .ok after) :
    staging.Carries sets (noted ++ edges) after ∧ ∀ edge ∈ edges, ¬ Inside sets edge := by
  induction edges generalizing noted bundles with
  | nil =>
      obtain rfl := Except.ok.inj done
      simpa using carries
  | cons edge rest inductionHypothesis =>
      rcases bundleAll_step carries strict edge (suits edge List.mem_cons_self) rest with
        ⟨_, _, _, stops⟩ | ⟨outside, ⟨extended, carried, goesOn⟩ | ⟨_, _, stops⟩⟩
      · cases stops.symm.trans done
      · obtain ⟨all, restOutside⟩ := inductionHypothesis carried
          (fun later member => suits later (List.mem_cons_of_mem edge member))
          (goesOn.symm.trans done)
        refine ⟨by simpa using all, ?_⟩
        intro asked member
        rcases List.mem_cons.mp member with rfl | later
        · exact outside
        · exact restOutside asked later
      · cases stops.symm.trans done

/-- A lowering that is not strict stops at the first shuffle inside a stage. -/
theorem bundleAll_stops {staging : Staging} {sets : DisjointSets} {noted : List Edge}
    {bundles : List StageEdge} (carries : staging.Carries sets noted bundles)
    (edges : List Edge) (suits : ∀ edge ∈ edges, staging.Suits sets edge) (edge : Edge)
    (first : First (Inside sets) edges edge) :
    ∃ stage, staging.stageOf? edge.source = some stage ∧
      (staging.bundleAll false sets edges bundles).1 =
        .error (.structural (.shuffleInsideStage edge.label stage.label)) := by
  induction edges generalizing noted bundles with
  | nil =>
      obtain ⟨before, after, split, _⟩ := first
      simp at split
  | cons head rest inductionHypothesis =>
      have step := bundleAll_step carries false head (suits head List.mem_cons_self) rest
      rcases (first_cons_iff _ _ _ _).mp first with ⟨inside, rfl⟩ | ⟨notHere, later⟩
      · rcases step with ⟨_, stage, ofSource, stops⟩ | ⟨outside, _⟩
        · exact ⟨stage, ofSource, stops⟩
        · exact absurd inside outside
      · rcases step with ⟨inside, _⟩ | ⟨_, ⟨extended, carried, goesOn⟩ | ⟨strict, _⟩⟩
        · exact absurd inside notHere
        · rw [goesOn]
          exact inductionHypothesis carried
            (fun other member => suits other (List.mem_cons_of_mem head member)) later
        · cases strict

/-- A lowering that is not strict bundles all edges if none is a shuffle inside a stage. -/
theorem bundleAll_free {staging : Staging} {sets : DisjointSets} {noted : List Edge}
    {bundles : List StageEdge} (carries : staging.Carries sets noted bundles)
    (edges : List Edge) (suits : ∀ edge ∈ edges, staging.Suits sets edge)
    (outside : ∀ edge ∈ edges, ¬ Inside sets edge) :
    ∃ after, (staging.bundleAll false sets edges bundles).1 = .ok after := by
  induction edges generalizing noted bundles with
  | nil => exact ⟨bundles, rfl⟩
  | cons edge rest inductionHypothesis =>
      rcases bundleAll_step carries false edge (suits edge List.mem_cons_self) rest with
        ⟨inside, _⟩ | ⟨_, ⟨extended, carried, goesOn⟩ | ⟨strict, _⟩⟩
      · exact absurd inside (outside edge List.mem_cons_self)
      · rw [goesOn]
        exact inductionHypothesis carried
          (fun later member => suits later (List.mem_cons_of_mem edge member))
          (fun later member => outside later (List.mem_cons_of_mem edge member))
      · cases strict

end Staging

end Flowplan
