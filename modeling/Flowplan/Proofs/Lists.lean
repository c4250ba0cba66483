import Mathlib.Data.List.Flatten
import Mathlib.Data.List.Nodup

/-!
# Positions and orders in lists

In a list without repetitions a member has one position. The library finds positions with
`idxOf?`; the first law lets proofs speak of what stands at a position instead.

`Before` says that one value stands before another one. In a list without repetitions it is a
strict order on the members, total, and sublists inherit it. `First` singles out the first value
that a property holds of.
-/

namespace Flowplan

variable {α β : Type}

/-- Without repetitions, the position found for a value is the one where it stands. -/
theorem idxOf?_eq_some_iff_getElem? [BEq α] [LawfulBEq α] (list : List α)
    (distinct : list.Nodup) (value : α) (position : Nat) :
    list.idxOf? value = some position ↔ list[position]? = some value := by
  rw [List.idxOf?_eq_some_iff, List.getElem?_eq_some_iff]
  constructor
  · rintro ⟨inside, stands, _⟩
    exact ⟨inside, stands⟩
  · rintro ⟨inside, stands⟩
    refine ⟨inside, stands, ?_⟩
    intro other earlier same
    have equal : other = position := distinct.getElem_inj_iff.mp (same.trans stands.symm)
    omega

/-- Reading a list at all its positions gives the list. -/
theorem range_filterMap_getElem? (list : List α) :
    ((List.range list.length).filterMap fun position => list[position]?) = list := by
  induction list with
  | nil => rfl
  | cons first rest inductionHypothesis =>
      rw [List.length_cons, List.range_succ_eq_map]
      simpa [List.filterMap_map, Function.comp_def] using inductionHypothesis

/-- Expanding what stands at all positions of a list expands the list. -/
theorem range_flatMap_getElem? (list : List α) (expand : α → List β) :
    ((List.range list.length).flatMap fun position => (list[position]?).elim [] expand) =
      list.flatMap expand := by
  induction list with
  | nil => rfl
  | cons first rest inductionHypothesis =>
      rw [List.length_cons, List.range_succ_eq_map, List.flatMap_cons, List.flatMap_map]
      simpa using inductionHypothesis

/-- Without repeated keys, looking up a key finds the entry that stands under it. -/
theorem lookup_iff_mem_of_distinct [BEq α] [LawfulBEq α] (list : List (α × β))
    (distinct : (list.map Prod.fst).Nodup) (key : α) (value : β) :
    list.lookup key = some value ↔ (key, value) ∈ list := by
  induction list with
  | nil => simp
  | cons entry rest inductionHypothesis =>
      obtain ⟨absent, restDistinct⟩ := List.nodup_cons.mp distinct
      obtain ⟨first, held⟩ := entry
      by_cases here : key = first
      · subst here
        have later : (key, value) ∉ rest := fun member =>
          absent (List.mem_map.mpr ⟨(key, value), member, rfl⟩)
        simp [later, eq_comm]
      · rw [List.lookup_cons, beq_eq_false_iff_ne.mpr here, inductionHypothesis restDistinct]
        simp [here]

/-- A list is cut in one way at the first place of a separator. -/
theorem append_cons_inj_of_not_mem {separator : α} {front otherFront back otherBack : List α}
    (absent : separator ∉ front) (otherAbsent : separator ∉ otherFront)
    (same : front ++ separator :: back = otherFront ++ separator :: otherBack) :
    front = otherFront ∧ back = otherBack := by
  induction front generalizing otherFront with
  | nil =>
      cases otherFront with
      | nil => exact ⟨rfl, (List.cons.inj same).2⟩
      | cons head rest => exact absurd ((List.cons.inj same).1 ▸ List.mem_cons_self) otherAbsent
  | cons head rest inductionHypothesis =>
      cases otherFront with
      | nil => exact absurd ((List.cons.inj same).1.symm ▸ List.mem_cons_self) absent
      | cons otherHead otherRest =>
          obtain ⟨rfl, remaining⟩ := List.cons.inj same
          obtain ⟨rfl, equal⟩ := inductionHypothesis
            (fun member => absent (List.mem_cons_of_mem head member))
            (fun member => otherAbsent (List.mem_cons_of_mem head member)) remaining
          exact ⟨rfl, equal⟩

/-- If every value is found, looking values up loses none. -/
theorem map_some_filterMap {find : α → Option β} {list : List α}
    (found : ∀ value ∈ list, (find value).isSome) :
    (list.filterMap find).map some = list.map find := by
  induction list with
  | nil => rfl
  | cons head rest inductionHypothesis =>
      obtain ⟨result, isFound⟩ := Option.isSome_iff_exists.mp (found head List.mem_cons_self)
      have later := inductionHypothesis fun value member =>
        found value (List.mem_cons_of_mem head member)
      rw [List.filterMap_cons_some isFound, List.map_cons, List.map_cons, later, isFound]

/-! ## One value before another -/

/-- One value stands somewhere before another one. -/
def Before (list : List α) (first second : α) : Prop :=
  [first, second].Sublist list

/-- A value that stands before another is in the list, and so is the other. -/
theorem before_mem {list : List α} {first second : α} (before : Before list first second) :
    first ∈ list ∧ second ∈ list :=
  ⟨before.subset (by simp), before.subset (by simp)⟩

/-- A longer list has its head before everything behind it, and else only what stood before. -/
theorem before_cons_iff (head : α) (rest : List α) (first second : α) :
    Before (head :: rest) first second ↔
      Before rest first second ∨ first = head ∧ second ∈ rest := by
  constructor
  · intro before
    rcases List.sublist_cons_iff.mp before with later | ⟨tail, same, after⟩
    · exact Or.inl later
    · obtain ⟨rfl, rfl⟩ := List.cons.inj same
      exact Or.inr ⟨rfl, List.singleton_sublist.mp after⟩
  · rintro (later | ⟨rfl, member⟩)
    · exact later.trans (List.sublist_cons_self _ _)
    · exact (List.singleton_sublist.mpr member).cons_cons first

/-- In a list without repetitions nothing stands before itself. -/
theorem before_irrefl {list : List α} (distinct : list.Nodup) (value : α) :
    ¬ Before list value value := by
  intro before
  simpa using distinct.sublist before

/-- Of two different members of a list, one stands before the other. -/
theorem before_total {list : List α} {first second : α} (firstIn : first ∈ list)
    (secondIn : second ∈ list) (different : first ≠ second) :
    Before list first second ∨ Before list second first := by
  induction list with
  | nil => cases firstIn
  | cons head rest inductionHypothesis =>
      simp only [before_cons_iff]
      rcases List.mem_cons.mp firstIn with rfl | firstLater
      · rcases List.mem_cons.mp secondIn with rfl | secondLater
        · exact absurd rfl different
        · exact Or.inl (Or.inr ⟨rfl, secondLater⟩)
      · rcases List.mem_cons.mp secondIn with rfl | secondLater
        · exact Or.inr (Or.inr ⟨rfl, firstLater⟩)
        · rcases inductionHypothesis firstLater secondLater with front | back
          · exact Or.inl (Or.inl front)
          · exact Or.inr (Or.inl back)

/-- Where no value is repeated, standing before is transitive. -/
theorem before_trans {list : List α} (distinct : list.Nodup) {first second third : α}
    (front : Before list first second) (back : Before list second third) :
    Before list first third := by
  induction list with
  | nil => cases front
  | cons head rest inductionHypothesis =>
      obtain ⟨absent, restDistinct⟩ := List.nodup_cons.mp distinct
      simp only [before_cons_iff] at front back ⊢
      rcases front with front | ⟨rfl, secondIn⟩
      · rcases back with back | ⟨rfl, _⟩
        · exact Or.inl (inductionHypothesis restDistinct front back)
        · exact absurd (before_mem front).2 absent
      · rcases back with back | ⟨rfl, _⟩
        · exact Or.inr ⟨rfl, (before_mem back).2⟩
        · exact absurd secondIn absent

/-- Whatever stands before a value stands in the part in front of it. -/
theorem mem_front_of_before {front back : List α} {first value : α}
    (distinct : (front ++ value :: back).Nodup)
    (before : Before (front ++ value :: back) first value) : first ∈ front := by
  rcases List.mem_append.mp (before_mem before).1 with inFront | behind
  · exact inFront
  · rcases List.mem_cons.mp behind with rfl | inBack
    · exact absurd before (before_irrefl distinct _)
    · have after : Before (front ++ value :: back) value first :=
        ((List.singleton_sublist.mpr inBack).cons_cons value).trans
          (List.sublist_append_right front _)
      exact absurd (before_trans distinct before after) (before_irrefl distinct first)

/-- A sublist keeps the order of its members. -/
theorem before_of_sublist {small large : List α} (distinct : large.Nodup)
    (sublist : small.Sublist large) {first second : α} (before : Before large first second)
    (firstIn : first ∈ small) (secondIn : second ∈ small) : Before small first second := by
  have different : first ≠ second := by
    rintro rfl
    exact before_irrefl distinct first before
  rcases before_total firstIn secondIn different with front | back
  · exact front
  · exact absurd (before_trans distinct before (back.trans sublist)) (before_irrefl distinct first)

/-- A list in which no value stands before one it must follow keeps every required order. -/
theorem before_of_pairwise {list : List α} (follows : α → α → Prop)
    (ordered : list.Pairwise fun earlier later => ¬ follows earlier later) {first second : α}
    (firstIn : first ∈ list) (secondIn : second ∈ list) (different : first ≠ second)
    (required : follows second first) : Before list first second := by
  rcases before_total firstIn secondIn different with front | back
  · exact front
  · exact absurd required (List.pairwise_iff_forall_sublist.mp ordered back)

/-- Values of two lists in a concatenation stand in the order of their lists. -/
theorem before_flatMap_of_before {parts : List β} {members : β → List α} {front back : β}
    (before : Before parts front back) {first second : α} (firstIn : first ∈ members front)
    (secondIn : second ∈ members back) : Before (parts.flatMap members) first second := by
  have pair : (members front ++ members back).Sublist (parts.flatMap members) := by
    simpa using List.Sublist.flatMap before members
  have singletons : ([first] ++ [second]).Sublist (members front ++ members back) :=
    (List.singleton_sublist.mpr firstIn).append (List.singleton_sublist.mpr secondIn)
  exact singletons.trans pair

/-- What stands before another value in one part does so in the whole. -/
theorem before_flatMap_of_mem {parts : List β} {members : β → List α} {part : β}
    (partIn : part ∈ parts) {first second : α} (before : Before (members part) first second) :
    Before (parts.flatMap members) first second := by
  have one : (members part).Sublist (parts.flatMap members) := by
    simpa using List.Sublist.flatMap (List.singleton_sublist.mpr partIn) members
  exact before.trans one

/-- Of two values of the parts, the first stands before the second in one part, or in an earlier
part. -/
theorem before_flatMap_cases {parts : List β} {members : β → List α} {first second : α}
    (before : Before (parts.flatMap members) first second) :
    (∃ part ∈ parts, Before (members part) first second) ∨
      ∃ front back, Before parts front back ∧ first ∈ members front ∧ second ∈ members back := by
  induction parts with
  | nil => cases before
  | cons part rest inductionHypothesis =>
      rw [List.flatMap_cons] at before
      obtain ⟨here, later, split, inHere, inLater⟩ := List.sublist_append_iff.mp before
      rcases here with _ | ⟨one, _ | ⟨two, others⟩⟩
      · obtain rfl : [first, second] = later := split
        rcases inductionHypothesis inLater with
          ⟨other, otherIn, inOther⟩ | ⟨front, back, ordered, inFront, inBack⟩
        · exact Or.inl ⟨other, List.mem_cons_of_mem part otherIn, inOther⟩
        · exact Or.inr ⟨front, back, ordered.cons part, inFront, inBack⟩
      · obtain ⟨rfl, rfl⟩ : first = one ∧ [second] = later := by simpa using split
        obtain ⟨back, backIn, inBack⟩ :=
          List.mem_flatMap.mp (inLater.subset List.mem_cons_self)
        exact Or.inr ⟨part, back, (before_cons_iff _ _ _ _).mpr (Or.inr ⟨rfl, backIn⟩),
          inHere.subset List.mem_cons_self, inBack⟩
      · obtain ⟨rfl, rfl, rfl, rfl⟩ :
            first = one ∧ second = two ∧ others = [] ∧ later = [] := by
          simpa using split
        exact Or.inl ⟨part, List.mem_cons_self, inHere⟩

/-- Members stand in the order in which distinct images of them stand. -/
theorem before_of_map {list : List α} (image : α → β) (distinct : (list.map image).Nodup)
    {first second : α} (firstIn : first ∈ list) (secondIn : second ∈ list)
    (before : Before (list.map image) (image first) (image second)) :
    Before list first second := by
  have different : first ≠ second := by
    rintro rfl
    exact before_irrefl distinct _ before
  rcases before_total firstIn secondIn different with front | back
  · exact front
  · have backwards : Before (list.map image) (image second) (image first) := back.map image
    exact absurd (before_trans distinct before backwards) (before_irrefl distinct _)

/-- If the parts repeat nothing, a value is in one part only. -/
theorem part_unique {parts : List β} {members : β → List α}
    (distinct : (parts.flatMap members).Nodup) {part other : β} (partIn : part ∈ parts)
    (otherIn : other ∈ parts) {value : α} (inPart : value ∈ members part)
    (inOther : value ∈ members other) : part = other := by
  by_contra different
  rcases before_total partIn otherIn different with front | back
  · exact before_irrefl distinct value (before_flatMap_of_before front inPart inOther)
  · exact before_irrefl distinct value (before_flatMap_of_before back inOther inPart)

/-- Parts that are not empty have at least as many members as there are parts. -/
theorem length_le_flatMap {parts : List β} {members : β → List α}
    (inhabited : ∀ part ∈ parts, members part ≠ []) :
    parts.length ≤ (parts.flatMap members).length := by
  induction parts with
  | nil => exact Nat.le_refl 0
  | cons part rest inductionHypothesis =>
      have here := List.length_pos_iff.mpr (inhabited part List.mem_cons_self)
      have later := inductionHypothesis fun other member =>
        inhabited other (List.mem_cons_of_mem part member)
      rw [List.flatMap_cons, List.length_append, List.length_cons]
      omega

/-! ## The first value with a property -/

/-- The first value in a list that is wanted. -/
def First (wanted : α → Prop) (list : List α) (value : α) : Prop :=
  ∃ before after, list = before ++ value :: after ∧ wanted value ∧
    ∀ earlier ∈ before, ¬ wanted earlier

/-- The first wanted value is the head, or the first one behind an unwanted head. -/
theorem first_cons_iff (wanted : α → Prop) (head : α) (rest : List α) (value : α) :
    First wanted (head :: rest) value ↔
      wanted head ∧ value = head ∨ ¬ wanted head ∧ First wanted rest value := by
  constructor
  · rintro ⟨before, after, split, isWanted, unwanted⟩
    cases before with
    | nil =>
        obtain ⟨rfl, _⟩ := List.cons.inj split
        exact Or.inl ⟨isWanted, rfl⟩
    | cons first others =>
        obtain ⟨rfl, remaining⟩ := List.cons.inj split
        refine Or.inr ⟨unwanted head List.mem_cons_self, others, after, remaining, isWanted, ?_⟩
        intro earlier member
        exact unwanted earlier (List.mem_cons_of_mem head member)
  · rintro (⟨isWanted, rfl⟩ | ⟨headUnwanted, before, after, rfl, isWanted, unwanted⟩)
    · exact ⟨[], rest, rfl, isWanted, by simp⟩
    · refine ⟨head :: before, after, rfl, isWanted, ?_⟩
      intro earlier member
      rcases List.mem_cons.mp member with rfl | later
      · exact headUnwanted
      · exact unwanted earlier later

/-- The first wanted value of two lists in a row is in the second one only if the first one has
none. -/
theorem first_append_iff (wanted : α → Prop) (front back : List α) (value : α) :
    First wanted (front ++ back) value ↔
      First wanted front value ∨ (∀ earlier ∈ front, ¬ wanted earlier) ∧
        First wanted back value := by
  induction front with
  | nil => simp [First]
  | cons head rest inductionHypothesis =>
      rw [List.cons_append, first_cons_iff, first_cons_iff, inductionHypothesis]
      simp only [List.forall_mem_cons]
      tauto

/-- A list has one first wanted value at most. -/
theorem first_unique {wanted : α → Prop} {list : List α} {one two : α}
    (first : First wanted list one) (second : First wanted list two) : one = two := by
  induction list with
  | nil =>
      obtain ⟨before, after, split, _⟩ := first
      simp at split
  | cons head rest inductionHypothesis =>
      rcases (first_cons_iff _ _ _ _).mp first with ⟨isWanted, rfl⟩ | ⟨unwanted, later⟩
      · rcases (first_cons_iff _ _ _ _).mp second with ⟨_, rfl⟩ | ⟨unwanted, _⟩
        · rfl
        · exact absurd isWanted unwanted
      · rcases (first_cons_iff _ _ _ _).mp second with ⟨isWanted, _⟩ | ⟨_, alsoLater⟩
        · exact absurd isWanted unwanted
        · exact inductionHypothesis later alsoLater

/-- A list has a first wanted value, or no wanted value at all. -/
theorem first_or_none (wanted : α → Prop) (list : List α) :
    (∃ value, First wanted list value) ∨ ∀ value ∈ list, ¬ wanted value := by
  induction list with
  | nil => simp
  | cons head rest inductionHypothesis =>
      by_cases headWanted : wanted head
      · exact Or.inl ⟨head, (first_cons_iff _ _ _ _).mpr (Or.inl ⟨headWanted, rfl⟩)⟩
      · rcases inductionHypothesis with ⟨value, first⟩ | none
        · exact Or.inl ⟨value, (first_cons_iff _ _ _ _).mpr (Or.inr ⟨headWanted, first⟩)⟩
        · refine Or.inr ?_
          intro value member
          rcases List.mem_cons.mp member with rfl | later
          · exact headWanted
          · exact none value later

/-! ## Sorting a list by keys -/

/-- The members of a list, taken key by key, are the members of the list. -/
theorem flatMap_filter_perm [DecidableEq β] (key : α → β) (keys : List β) (distinct : keys.Nodup)
    (list : List α) (covered : ∀ value ∈ list, key value ∈ keys) :
    (keys.flatMap fun asked => list.filter fun value => key value = asked).Perm list := by
  induction keys generalizing list with
  | nil =>
      have empty : list = [] := by
        apply List.eq_nil_iff_forall_not_mem.mpr
        intro value member
        simpa using covered value member
      simp [empty]
  | cons first rest inductionHypothesis =>
      obtain ⟨absent, restDistinct⟩ := List.nodup_cons.mp distinct
      have others : (rest.flatMap fun asked => list.filter fun value => key value = asked) =
          rest.flatMap fun asked =>
            (list.filter fun value => !decide (key value = first)).filter fun value =>
              key value = asked := by
        apply List.flatMap_congr
        intro asked member
        rw [List.filter_filter]
        apply List.filter_congr
        intro value _
        have different : asked ≠ first := by
          rintro rfl
          exact absent member
        by_cases same : key value = asked <;> simp [same, different]
      rw [List.flatMap_cons, others]
      refine List.Perm.trans (List.Perm.append_left _ (inductionHypothesis restDistinct _ ?_))
        (List.filter_append_perm _ list)
      intro value member
      obtain ⟨inList, different⟩ := List.mem_filter.mp member
      have notFirst : key value ≠ first := by simpa using different
      exact (List.mem_cons.mp (covered value inList)).resolve_left notFirst

end Flowplan
