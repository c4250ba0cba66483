import Flowplan.DisjointSets
import Flowplan.Proofs.Lists
import Mathlib.Logic.Relation

/-!
# The classes of disjoint sets

Sets of keys are read through `Together`: two keys are present and their parents' paths end
at one position. Under `Sound` every path descends, so it ends; compression and lookups keep
where it ends, and a link moves one whole class to the root of another.

`Represents` compares the sets with the pairs of keys that were joined. The classes are those
of the least equivalence over the pairs, for every order in which keys were added and pairs
were joined.
-/

namespace Flowplan.DisjointSets

/-- Every key stands once and has a parent, which is no later key. -/
structure Sound (sets : DisjointSets) : Prop where
  distinct : sets.keys.Nodup
  parented : sets.parents.length = sets.keys.length
  descending : ∀ position, sets.parentAt position ≤ position

/-- Two keys are present and in one set. -/
def Together (sets : DisjointSets) (left right : String) : Prop :=
  ∃ first second, sets.position? left = some first ∧ sets.position? right = some second ∧
    sets.rootAt first = sets.rootAt second

/-- Replaces one parent. -/
def redirect (sets : DisjointSets) (position parent : Nat) : DisjointSets :=
  { sets with parents := sets.parents.set position parent }

/-! ## Following parents -/

/-- A key whose parent is earlier has the root of its parent. -/
theorem rootAt_of_parent (sets : DisjointSets) (position : Nat)
    (earlier : sets.parentAt position < position) :
    sets.rootAt position = sets.rootAt (sets.parentAt position) := by
  rw [rootAt, if_pos earlier]

/-- A key without an earlier parent is its own root. -/
theorem rootAt_of_root (sets : DisjointSets) (position : Nat)
    (root : ¬ sets.parentAt position < position) : sets.rootAt position = position := by
  rw [rootAt, if_neg root]

/-- The end of a path is no later than its start. -/
theorem rootAt_le (sets : DisjointSets) (position : Nat) : sets.rootAt position ≤ position := by
  induction position using Nat.strongRecOn with
  | ind position inductionHypothesis =>
      by_cases earlier : sets.parentAt position < position
      · rw [rootAt_of_parent sets position earlier]
        exact Nat.le_trans (inductionHypothesis _ earlier) (Nat.le_of_lt earlier)
      · exact Nat.le_of_eq (rootAt_of_root sets position earlier)

/-- A path ends where no parent is earlier. -/
theorem rootAt_is_root (sets : DisjointSets) (position : Nat) :
    ¬ sets.parentAt (sets.rootAt position) < sets.rootAt position := by
  induction position using Nat.strongRecOn with
  | ind position inductionHypothesis =>
      by_cases earlier : sets.parentAt position < position
      · rw [rootAt_of_parent sets position earlier]
        exact inductionHypothesis _ earlier
      · rw [rootAt_of_root sets position earlier]
        exact earlier

/-- A root is its own root. -/
@[simp] theorem rootAt_rootAt (sets : DisjointSets) (position : Nat) :
    sets.rootAt (sets.rootAt position) = sets.rootAt position :=
  rootAt_of_root sets _ (rootAt_is_root sets position)

/-- A key with an earlier parent is one of those stored. -/
theorem stored_of_parent_earlier (sets : DisjointSets) (position : Nat)
    (earlier : sets.parentAt position < position) : position < sets.parents.length := by
  by_contra outside
  have absent : sets.parentAt position = position := by
    simp [parentAt, List.getD_eq_getElem?_getD, List.getElem?_eq_none (Nat.le_of_not_lt outside)]
  omega

/-! ## Replacing a parent -/

/-- Replacing one parent leaves all others as they were. -/
theorem parentAt_redirect (sets : DisjointSets) (position parent : Nat)
    (stored : position < sets.parents.length) (asked : Nat) :
    (sets.redirect position parent).parentAt asked =
      if asked = position then parent else sets.parentAt asked := by
  by_cases same : asked = position
  · subst asked
    simp [redirect, parentAt, List.getD_eq_getElem?_getD, stored]
  · simp [redirect, parentAt, List.getD_eq_getElem?_getD, same, Ne.symm same]

/-- Replacing a parent by a key that is no later keeps the sets sound. -/
theorem redirect_sound (sets : DisjointSets) (sound : sets.Sound) (position parent : Nat)
    (stored : position < sets.parents.length) (bound : parent ≤ position) :
    (sets.redirect position parent).Sound := by
  refine ⟨sound.distinct, by simpa [redirect] using sound.parented, ?_⟩
  intro asked
  rw [parentAt_redirect sets position parent stored]
  split
  · omega
  · exact sound.descending asked

/-- A shortcut to the end of a path changes no end.

The induction is on the position asked for: its path is the old one until it meets the
shortcut, and from there both end at the same root. -/
theorem rootAt_shortcut (sets : DisjointSets) (position : Nat)
    (earlier : sets.parentAt position < position) (asked : Nat) :
    (sets.redirect position (sets.rootAt position)).rootAt asked = sets.rootAt asked := by
  have stored := stored_of_parent_earlier sets position earlier
  have moved := parentAt_redirect sets position (sets.rootAt position) stored
  induction asked using Nat.strongRecOn with
  | ind asked inductionHypothesis =>
      by_cases same : asked = position
      · subst asked
        have rootEarlier : sets.rootAt position < position := by
          rw [rootAt_of_parent sets position earlier]
          exact Nat.lt_of_le_of_lt (rootAt_le sets _) earlier
        rw [rootAt_of_parent _ position (by simpa [moved] using rootEarlier), moved, if_pos rfl,
          inductionHypothesis _ rootEarlier, rootAt_rootAt]
      · by_cases descends : sets.parentAt asked < asked
        · rw [rootAt_of_parent _ asked (by simpa [moved, same] using descends), moved,
            if_neg same, inductionHypothesis _ descends, rootAt_of_parent sets asked descends]
        · rw [rootAt_of_root _ asked (by simpa [moved, same] using descends),
            rootAt_of_root sets asked descends]

/-- Linking a root to an earlier root moves its whole class there and nothing else. -/
theorem rootAt_link (sets : DisjointSets) (later earlier : Nat) (ordered : earlier < later)
    (stored : later < sets.parents.length) (laterRoot : sets.rootAt later = later)
    (earlierRoot : sets.rootAt earlier = earlier) (asked : Nat) :
    (sets.redirect later earlier).rootAt asked =
      if sets.rootAt asked = later then earlier else sets.rootAt asked := by
  have moved := parentAt_redirect sets later earlier stored
  induction asked using Nat.strongRecOn with
  | ind asked inductionHypothesis =>
      by_cases same : asked = later
      · subst asked
        rw [rootAt_of_parent _ later (by simpa [moved] using ordered), moved, if_pos rfl,
          inductionHypothesis _ ordered, earlierRoot, laterRoot, if_pos rfl,
          if_neg (Nat.ne_of_lt ordered)]
      · by_cases descends : sets.parentAt asked < asked
        · rw [rootAt_of_parent _ asked (by simpa [moved, same] using descends), moved,
            if_neg same, inductionHypothesis _ descends, rootAt_of_parent sets asked descends]
        · rw [rootAt_of_root _ asked (by simpa [moved, same] using descends),
            rootAt_of_root sets asked descends, if_neg same]

/-! ## Compression -/

/-- Compressing the path of a key keeps the keys, soundness and every end. -/
theorem compress_exact (sets : DisjointSets) (sound : sets.Sound) (root position : Nat)
    (atEnd : sets.rootAt position = root) :
    (sets.compress root position).keys = sets.keys ∧ (sets.compress root position).Sound ∧
      ∀ asked, (sets.compress root position).rootAt asked = sets.rootAt asked := by
  induction position using Nat.strongRecOn generalizing sets with
  | ind position inductionHypothesis =>
      rw [compress]
      by_cases earlier : sets.parentAt position < position
      · rw [if_pos earlier]
        have stored := stored_of_parent_earlier sets position earlier
        have bound : root ≤ position := atEnd ▸ rootAt_le sets position
        have kept : ∀ asked, (sets.redirect position root).rootAt asked = sets.rootAt asked := by
          subst atEnd
          exact rootAt_shortcut sets position earlier
        have redirected := redirect_sound sets sound position root stored bound
        have onward : (sets.redirect position root).rootAt (sets.parentAt position) = root := by
          rw [kept, ← rootAt_of_parent sets position earlier, atEnd]
        obtain ⟨keys, finallySound, roots⟩ :=
          inductionHypothesis _ earlier (sets.redirect position root) redirected onward
        exact ⟨keys, finallySound, fun asked => (roots asked).trans (kept asked)⟩
      · rw [if_neg earlier]
        exact ⟨rfl, sound, fun _ => rfl⟩

/-! ## Keys and their classes -/

/-- A key is found at a position exactly if it stands there. -/
theorem position?_iff (sets : DisjointSets) (sound : sets.Sound) (key : String)
    (position : Nat) : sets.position? key = some position ↔ sets.keys[position]? = some key :=
  idxOf?_eq_some_iff_getElem? sets.keys sound.distinct key position

/-- A key that is present has a position among the keys. -/
theorem position?_of_mem (sets : DisjointSets) (key : String) (present : key ∈ sets.keys) :
    ∃ position, sets.position? key = some position := by
  apply Option.isSome_iff_exists.mp
  exact List.isSome_idxOf?.mpr present

/-- A key that is found is one of the keys. -/
theorem mem_of_position? (sets : DisjointSets) (key : String) (position : Nat)
    (found : sets.position? key = some position) : key ∈ sets.keys := by
  apply List.isSome_idxOf?.mp
  exact Option.isSome_iff_exists.mpr ⟨position, found⟩

/-- A key is together with itself. -/
theorem together_refl (sets : DisjointSets) (key : String) (present : key ∈ sets.keys) :
    sets.Together key key := by
  obtain ⟨position, found⟩ := position?_of_mem sets key present
  exact ⟨position, position, found, found, rfl⟩

/-- Keys are together in either order. -/
theorem together_symm (sets : DisjointSets) (left right : String)
    (together : sets.Together left right) : sets.Together right left := by
  obtain ⟨first, second, atLeft, atRight, same⟩ := together
  exact ⟨second, first, atRight, atLeft, same.symm⟩

/-- Keys that are together with a third one are together. -/
theorem together_trans (sets : DisjointSets) (left middle right : String)
    (front : sets.Together left middle) (back : sets.Together middle right) :
    sets.Together left right := by
  obtain ⟨first, second, atLeft, atMiddle, frontSame⟩ := front
  obtain ⟨third, fourth, atMiddleAgain, atRight, backSame⟩ := back
  have equal : second = third := Option.some.inj (atMiddle.symm.trans atMiddleAgain)
  subst equal
  exact ⟨first, fourth, atLeft, atRight, frontSame.trans backSame⟩

/-- Keys that are together are both present. -/
theorem together_present (sets : DisjointSets) (left right : String)
    (together : sets.Together left right) : left ∈ sets.keys ∧ right ∈ sets.keys := by
  obtain ⟨first, second, atLeft, atRight, _⟩ := together
  exact ⟨mem_of_position? sets left first atLeft, mem_of_position? sets right second atRight⟩

/-- The representative of a present key is the key at the end of its path. -/
theorem representative?_of_position (sets : DisjointSets) (sound : sets.Sound) (key : String)
    (position : Nat) (found : sets.position? key = some position) :
    ∃ representative, sets.representative? key = some representative ∧
      sets.keys[sets.rootAt position]? = some representative := by
  have stands := (position?_iff sets sound key position).mp found
  obtain ⟨inside, _⟩ := List.getElem?_eq_some_iff.mp stands
  have rootInside : sets.rootAt position < sets.keys.length :=
    Nat.lt_of_le_of_lt (rootAt_le sets position) inside
  refine ⟨sets.keys[sets.rootAt position], ?_, List.getElem?_eq_getElem rootInside⟩
  simp [representative?, found, List.getElem?_eq_getElem rootInside]

/-- A key that is present has a representative. -/
theorem representative?_isSome (sets : DisjointSets) (sound : sets.Sound) (key : String)
    (present : key ∈ sets.keys) :
    ∃ representative, sets.representative? key = some representative := by
  obtain ⟨position, found⟩ := position?_of_mem sets key present
  obtain ⟨representative, named, _⟩ := representative?_of_position sets sound key position found
  exact ⟨representative, named⟩

/-- Two keys share a representative exactly when they are together. -/
theorem representative?_shared_iff (sets : DisjointSets) (sound : sets.Sound)
    (left right : String) :
    (∃ representative, sets.representative? left = some representative ∧
      sets.representative? right = some representative) ↔ sets.Together left right := by
  constructor
  · rintro ⟨representative, ofLeft, ofRight⟩
    obtain ⟨first, atLeft, stands⟩ := Option.bind_eq_some_iff.mp ofLeft
    obtain ⟨second, atRight, standsAgain⟩ := Option.bind_eq_some_iff.mp ofRight
    refine ⟨first, second, atLeft, atRight, ?_⟩
    have one := (position?_iff sets sound representative _).mpr stands
    have other := (position?_iff sets sound representative _).mpr standsAgain
    exact Option.some.inj (one.symm.trans other)
  · rintro ⟨first, second, atLeft, atRight, same⟩
    obtain ⟨representative, ofLeft, stands⟩ :=
      representative?_of_position sets sound left first atLeft
    obtain ⟨other, ofRight, standsAgain⟩ :=
      representative?_of_position sets sound right second atRight
    rw [← same] at standsAgain
    have equal : representative = other := Option.some.inj (stands.symm.trans standsAgain)
    exact ⟨representative, ofLeft, equal ▸ ofRight⟩

/-- The test that reads without a change decides `Together`. -/
theorem together_iff (sets : DisjointSets) (sound : sets.Sound) (left right : String) :
    sets.together left right = true ↔ sets.Together left right := by
  rw [← representative?_shared_iff sets sound]
  unfold together
  cases ofLeft : sets.representative? left with
  | none => simp
  | some leftRoot =>
      cases ofRight : sets.representative? right with
      | none => simp
      | some rightRoot => simp [eq_comm]

/-! ## Adding a key -/

/-- Adding a key makes it one of the keys, and no other. -/
theorem mem_keys_add (sets : DisjointSets) (key asked : String) :
    asked ∈ (sets.add key).keys ↔ asked ∈ sets.keys ∨ asked = key := by
  unfold add
  split
  · rename_i present
    constructor
    · exact Or.inl
    · rintro (old | rfl)
      · exact old
      · exact present
  · simp

/-- A new key is its own parent, and no other key has it as a parent. -/
theorem parentAt_add (sets : DisjointSets) (sound : sets.Sound) (key : String) (asked : Nat) :
    (sets.add key).parentAt asked = sets.parentAt asked := by
  unfold add
  split
  · rfl
  · simp only [parentAt, List.getD_eq_getElem?_getD, ← sound.parented]
    rcases Nat.lt_trichotomy asked sets.parents.length with old | new | outside
    · rw [List.getElem?_append_left old]
    · subst new
      simp
    · rw [List.getElem?_eq_none (by simp; omega), List.getElem?_eq_none (by omega)]

/-- Adding a key moves no root. -/
theorem rootAt_add (sets : DisjointSets) (sound : sets.Sound) (key : String) (asked : Nat) :
    (sets.add key).rootAt asked = sets.rootAt asked := by
  have parents := parentAt_add sets sound key
  induction asked using Nat.strongRecOn with
  | ind asked inductionHypothesis =>
      by_cases descends : sets.parentAt asked < asked
      · rw [rootAt_of_parent _ asked (by rwa [parents]), parents, inductionHypothesis _ descends,
          rootAt_of_parent sets asked descends]
      · rw [rootAt_of_root _ asked (by rwa [parents]), rootAt_of_root sets asked descends]

/-- Adding a key keeps the sets sound, as it is its own parent. -/
theorem add_sound (sets : DisjointSets) (sound : sets.Sound) (key : String) :
    (sets.add key).Sound := by
  refine ⟨?_, ?_, ?_⟩
  · unfold add
    split
    · exact sound.distinct
    · rename_i absent
      simpa using sound.distinct.concat absent
  · unfold add
    split
    · exact sound.parented
    · simp [sound.parented]
  · intro position
    rw [parentAt_add sets sound key]
    exact sound.descending position

/-- A key keeps its position when another one is added. -/
theorem position?_add (sets : DisjointSets) (sound : sets.Sound) (key asked : String)
    (position : Nat) (found : sets.position? asked = some position) :
    (sets.add key).position? asked = some position := by
  have stands := (position?_iff sets sound asked position).mp found
  obtain ⟨inside, _⟩ := List.getElem?_eq_some_iff.mp stands
  apply (position?_iff _ (add_sound sets sound key) asked position).mpr
  unfold add
  split
  · exact stands
  · rw [List.getElem?_append_left inside]
    exact stands

/-- After a key was added, a position is an old one or that of the key itself, and then the key
is new. -/
theorem position?_add_cases (sets : DisjointSets) (sound : sets.Sound) (key asked : String)
    (position : Nat) (found : (sets.add key).position? asked = some position) :
    sets.position? asked = some position ∧ position < sets.keys.length ∨
      asked = key ∧ position = sets.keys.length := by
  have stands := (position?_iff _ (add_sound sets sound key) asked position).mp found
  obtain ⟨inside, _⟩ := List.getElem?_eq_some_iff.mp stands
  by_cases old : position < sets.keys.length
  · refine Or.inl ⟨(position?_iff sets sound asked position).mpr ?_, old⟩
    unfold add at stands
    split at stands
    · exact stands
    · rwa [List.getElem?_append_left old] at stands
  · unfold add at inside stands
    split at inside
    · exact absurd inside old
    · rename_i absent
      have atEnd : position = sets.keys.length := by
        simp only [List.length_append, List.length_singleton] at inside
        omega
      subst atEnd
      simp only [absent, ↓reduceIte, List.getElem?_concat_length, Option.some.injEq] at stands
      exact Or.inr ⟨stands.symm, rfl⟩

/-- The position behind all keys is nobody's root but its own. -/
theorem rootAt_behind (sets : DisjointSets) (sound : sets.Sound) :
    sets.rootAt sets.keys.length = sets.keys.length := by
  apply rootAt_of_root
  simp [parentAt, List.getD_eq_getElem?_getD, sound.parented]

/-- Adding a key puts it in a set of its own, unless it is there, and changes no other set. -/
theorem together_add_iff (sets : DisjointSets) (sound : sets.Sound) (key left right : String) :
    (sets.add key).Together left right ↔ sets.Together left right ∨ left = key ∧ right = key := by
  constructor
  · rintro ⟨first, second, atLeft, atRight, same⟩
    rw [rootAt_add sets sound, rootAt_add sets sound] at same
    have behind := rootAt_behind sets sound
    have firstBound := rootAt_le sets first
    have secondBound := rootAt_le sets second
    -- an old key and the new one cannot share a root: roots of old keys stand before the end
    rcases position?_add_cases sets sound key left first atLeft with
      ⟨oldLeft, leftInside⟩ | ⟨leftNew, rfl⟩
    · rcases position?_add_cases sets sound key right second atRight with
        ⟨oldRight, _⟩ | ⟨_, rfl⟩
      · exact Or.inl ⟨first, second, oldLeft, oldRight, same⟩
      · omega
    · rcases position?_add_cases sets sound key right second atRight with
        ⟨_, rightInside⟩ | ⟨rightNew, _⟩
      · omega
      · exact Or.inr ⟨leftNew, rightNew⟩
  · rintro (old | ⟨rfl, rfl⟩)
    · obtain ⟨first, second, atLeft, atRight, same⟩ := old
      refine ⟨first, second, position?_add sets sound key left first atLeft,
        position?_add sets sound key right second atRight, ?_⟩
      rw [rootAt_add sets sound, rootAt_add sets sound, same]
    · exact together_refl _ right ((mem_keys_add sets right right).mpr (Or.inr rfl))

/-! ## Joining two keys -/

/-- Links the later of two roots to the earlier one. -/
def link (sets : DisjointSets) (one two : Nat) : DisjointSets :=
  if one = two then sets
  else if two < one then sets.redirect one two
  else sets.redirect two one

/-- Linking two roots moves the class of the later one to the earlier one. -/
theorem link_exact (sets : DisjointSets) (sound : sets.Sound) (one two : Nat)
    (oneStored : one < sets.parents.length) (twoStored : two < sets.parents.length)
    (oneRoot : sets.rootAt one = one) (twoRoot : sets.rootAt two = two) :
    (sets.link one two).keys = sets.keys ∧ (sets.link one two).Sound ∧
      ∀ asked, (sets.link one two).rootAt asked =
        if sets.rootAt asked = max one two then min one two else sets.rootAt asked := by
  rcases Nat.lt_trichotomy two one with ordered | rfl | ordered
  · have linked : sets.link one two = sets.redirect one two := by
      rw [link, if_neg (Nat.ne_of_gt ordered), if_pos ordered]
    rw [linked, Nat.max_eq_left (Nat.le_of_lt ordered), Nat.min_eq_right (Nat.le_of_lt ordered)]
    exact ⟨rfl, redirect_sound sets sound one two oneStored (Nat.le_of_lt ordered),
      rootAt_link sets one two ordered oneStored oneRoot twoRoot⟩
  · rw [link, if_pos rfl, Nat.max_self, Nat.min_self]
    refine ⟨rfl, sound, fun asked => ?_⟩
    split
    · assumption
    · rfl
  · have linked : sets.link one two = sets.redirect two one := by
      rw [link, if_neg (Nat.ne_of_lt ordered), if_neg (Nat.lt_asymm ordered)]
    rw [linked, Nat.max_eq_right (Nat.le_of_lt ordered), Nat.min_eq_left (Nat.le_of_lt ordered)]
    exact ⟨rfl, redirect_sound sets sound two one twoStored (Nat.le_of_lt ordered),
      rootAt_link sets two one ordered twoStored twoRoot oneRoot⟩

/-- Two keys that are present are joined by compressing both paths and linking the roots. -/
theorem union_eq_link (sets : DisjointSets) (left right : String) (first second : Nat)
    (atLeft : ((sets.add left).add right).position? left = some first)
    (atRight : ((sets.add left).add right).position? right = some second)
    (sound : ((sets.add left).add right).Sound) :
    ∃ compressed : DisjointSets,
      compressed.keys = ((sets.add left).add right).keys ∧ compressed.Sound ∧
      (∀ asked, compressed.rootAt asked = ((sets.add left).add right).rootAt asked) ∧
      sets.union left right = compressed.link (((sets.add left).add right).rootAt first)
        (((sets.add left).add right).rootAt second) := by
  rw [union]
  generalize (sets.add left).add right = added at atLeft atRight sound ⊢
  simp only [atLeft, atRight]
  obtain ⟨leftKeys, leftSound, leftRoots⟩ :=
    compress_exact added sound (added.rootAt first) first rfl
  -- the second root is looked up after the first path was compressed, and is the same one
  obtain ⟨rightKeys, rightSound, rightRoots⟩ :=
    compress_exact (added.compress (added.rootAt first) first) leftSound (added.rootAt second)
      second (leftRoots second)
  rw [leftRoots second]
  exact ⟨_, rightKeys.trans leftKeys, rightSound,
    fun asked => (rightRoots asked).trans (leftRoots asked), rfl⟩

/-- Joining two keys adds them where they are missing, and then moves the class with the later
root to the earlier root. -/
theorem union_exact (sets : DisjointSets) (sound : sets.Sound) (left right : String) :
    ∃ first second,
      ((sets.add left).add right).position? left = some first ∧
      ((sets.add left).add right).position? right = some second ∧
      (sets.union left right).keys = ((sets.add left).add right).keys ∧
      (sets.union left right).Sound ∧
      ∀ asked, (sets.union left right).rootAt asked =
        if ((sets.add left).add right).rootAt asked =
            max (((sets.add left).add right).rootAt first)
              (((sets.add left).add right).rootAt second) then
          min (((sets.add left).add right).rootAt first)
            (((sets.add left).add right).rootAt second)
        else ((sets.add left).add right).rootAt asked := by
  have addedSound : ((sets.add left).add right).Sound :=
    add_sound _ (add_sound sets sound left) right
  obtain ⟨first, atLeft⟩ := position?_of_mem ((sets.add left).add right) left
    (by simp [mem_keys_add])
  obtain ⟨second, atRight⟩ := position?_of_mem ((sets.add left).add right) right
    (by simp [mem_keys_add])
  obtain ⟨compressed, keys, compressedSound, roots, joined⟩ :=
    union_eq_link sets left right first second atLeft atRight addedSound
  refine ⟨first, second, atLeft, atRight, ?_⟩
  rw [joined]
  generalize (sets.add left).add right = added at addedSound atLeft atRight keys roots ⊢
  have stored : ∀ key position, added.position? key = some position →
      added.rootAt position < compressed.parents.length := by
    intro key position found
    obtain ⟨inside, _⟩ := List.getElem?_eq_some_iff.mp
      ((position?_iff added addedSound key position).mp found)
    rw [compressedSound.parented, keys]
    exact Nat.lt_of_le_of_lt (rootAt_le added position) inside
  have rooted : ∀ position, compressed.rootAt (added.rootAt position) = added.rootAt position :=
    fun position => (roots _).trans (rootAt_rootAt added position)
  obtain ⟨linkedKeys, linkedSound, linkedRoots⟩ :=
    link_exact compressed compressedSound (added.rootAt first) (added.rootAt second)
      (stored left first atLeft) (stored right second atRight) (rooted first) (rooted second)
  refine ⟨linkedKeys.trans keys, linkedSound, fun asked => ?_⟩
  rw [linkedRoots, roots]

/-- Joining two keys puts exactly their two classes together. -/
theorem together_union_iff (sets : DisjointSets) (sound : sets.Sound)
    (left right asked other : String) :
    (sets.union left right).Together asked other ↔
      ((sets.add left).add right).Together asked other ∨
      ((sets.add left).add right).Together asked left ∧
        ((sets.add left).add right).Together right other ∨
      ((sets.add left).add right).Together asked right ∧
        ((sets.add left).add right).Together left other := by
  obtain ⟨first, second, atLeft, atRight, keys, _, roots⟩ := union_exact sets sound left right
  generalize (sets.add left).add right = added at atLeft atRight keys roots ⊢
  have positions : ∀ key, (sets.union left right).position? key = added.position? key := by
    intro key
    simp only [position?, keys]
  constructor
  · rintro ⟨here, there, atAsked, atOther, same⟩
    rw [positions] at atAsked atOther
    rw [roots, roots] at same
    have cases : added.rootAt here = added.rootAt there ∨
        added.rootAt here = added.rootAt first ∧ added.rootAt second = added.rootAt there ∨
        added.rootAt here = added.rootAt second ∧ added.rootAt first = added.rootAt there := by
      split at same <;> split at same <;> omega
    rcases cases with equal | ⟨front, back⟩ | ⟨front, back⟩
    · exact Or.inl ⟨here, there, atAsked, atOther, equal⟩
    · exact Or.inr (Or.inl ⟨⟨here, first, atAsked, atLeft, front⟩,
        ⟨second, there, atRight, atOther, back⟩⟩)
    · exact Or.inr (Or.inr ⟨⟨here, second, atAsked, atRight, front⟩,
        ⟨first, there, atLeft, atOther, back⟩⟩)
  · have kept : ∀ one two, added.Together one two → (sets.union left right).Together one two := by
      rintro one two ⟨here, there, atOne, atTwo, same⟩
      refine ⟨here, there, (positions one).trans atOne, (positions two).trans atTwo, ?_⟩
      rw [roots, roots, same]
    have joined : (sets.union left right).Together left right := by
      refine ⟨first, second, (positions left).trans atLeft, (positions right).trans atRight, ?_⟩
      rw [roots, roots]
      split <;> split <;> omega
    have joinedBack := together_symm _ left right joined
    rintro (old | ⟨front, back⟩ | ⟨front, back⟩)
    · exact kept asked other old
    · exact together_trans _ _ _ _ (kept _ _ front) (together_trans _ _ _ _ joined (kept _ _ back))
    · exact together_trans _ _ _ _ (kept _ _ front)
        (together_trans _ _ _ _ joinedBack (kept _ _ back))

/-! ## The equivalence of the joined pairs -/

/-- Two keys were joined, in this order. -/
def Paired (pairs : List (String × String)) (left right : String) : Prop :=
  (left, right) ∈ pairs

open Relation

/-- One more pair relates the classes of its two members and nothing else. -/
theorem eqvGen_paired_append_iff (pairs : List (String × String))
    (left right asked other : String) :
    EqvGen (Paired (pairs ++ [(left, right)])) asked other ↔
      EqvGen (Paired pairs) asked other ∨
      EqvGen (Paired pairs) asked left ∧ EqvGen (Paired pairs) right other ∨
      EqvGen (Paired pairs) asked right ∧ EqvGen (Paired pairs) left other := by
  have widened : ∀ one two, EqvGen (Paired pairs) one two →
      EqvGen (Paired (pairs ++ [(left, right)])) one two := by
    intro one two related
    exact EqvGen.mono (fun _ _ paired => List.mem_append_left _ paired) _ _ related
  constructor
  · intro related
    induction related with
    | rel one two paired =>
        rcases List.mem_append.mp paired with old | new
        · exact Or.inl (.rel _ _ old)
        · obtain ⟨rfl, rfl⟩ := Prod.mk.inj (List.mem_singleton.mp new)
          exact Or.inr (Or.inl ⟨.refl _, .refl _⟩)
    | refl one => exact Or.inl (.refl one)
    | symm one two _ inductionHypothesis =>
        rcases inductionHypothesis with old | ⟨front, back⟩ | ⟨front, back⟩
        · exact Or.inl (.symm _ _ old)
        · exact Or.inr (Or.inr ⟨.symm _ _ back, .symm _ _ front⟩)
        · exact Or.inr (Or.inl ⟨.symm _ _ back, .symm _ _ front⟩)
    | trans one two three _ _ before after =>
        -- a path that uses the new pair twice, once each way, needs it no longer
        rcases before with old | ⟨front, back⟩ | ⟨front, back⟩ <;>
        rcases after with later | ⟨ahead, behind⟩ | ⟨ahead, behind⟩
        · exact Or.inl (.trans _ _ _ old later)
        · exact Or.inr (Or.inl ⟨.trans _ _ _ old ahead, behind⟩)
        · exact Or.inr (Or.inr ⟨.trans _ _ _ old ahead, behind⟩)
        · exact Or.inr (Or.inl ⟨front, .trans _ _ _ back later⟩)
        · exact Or.inr (Or.inl ⟨front, behind⟩)
        · exact Or.inl (.trans _ _ _ front behind)
        · exact Or.inr (Or.inr ⟨front, .trans _ _ _ back later⟩)
        · exact Or.inl (.trans _ _ _ front behind)
        · exact Or.inr (Or.inr ⟨front, behind⟩)
  · have joined : EqvGen (Paired (pairs ++ [(left, right)])) left right :=
      .rel _ _ (List.mem_append_right _ (List.mem_singleton.mpr rfl))
    rintro (old | ⟨front, back⟩ | ⟨front, back⟩)
    · exact widened _ _ old
    · exact .trans _ _ _ (widened _ _ front) (.trans _ _ _ joined (widened _ _ back))
    · exact .trans _ _ _ (widened _ _ front) (.trans _ _ _ (.symm _ _ joined) (widened _ _ back))

/-- The sets are the classes, among their keys, of the least equivalence over the pairs. -/
structure Represents (sets : DisjointSets) (pairs : List (String × String)) : Prop where
  sound : sets.Sound
  covered : ∀ left right, Paired pairs left right → left ∈ sets.keys ∧ right ∈ sets.keys
  exact : ∀ left right, sets.Together left right ↔
    left ∈ sets.keys ∧ right ∈ sets.keys ∧ EqvGen (Paired pairs) left right

/-- The equivalence relates a key that is missing to itself only. -/
theorem Represents.related_present {sets : DisjointSets} {pairs : List (String × String)}
    (represents : sets.Represents pairs) (left right : String)
    (related : EqvGen (Paired pairs) left right) :
    left = right ∨ left ∈ sets.keys ∧ right ∈ sets.keys := by
  induction related with
  | rel one two paired => exact Or.inr (represents.covered one two paired)
  | refl one => exact Or.inl rfl
  | symm one two _ inductionHypothesis =>
      rcases inductionHypothesis with equal | ⟨front, back⟩
      · exact Or.inl equal.symm
      · exact Or.inr ⟨back, front⟩
  | trans one two three _ _ before after =>
      rcases before with rfl | ⟨front, middle⟩
      · exact after
      · rcases after with rfl | ⟨_, back⟩
        · exact Or.inr ⟨front, middle⟩
        · exact Or.inr ⟨front, back⟩

/-- Without keys there is nothing to relate. -/
theorem represents_empty : empty.Represents [] := by
  refine ⟨⟨List.nodup_nil, rfl, fun position => ?_⟩, ?_, ?_⟩
  · simp [empty, parentAt]
  · intro left right paired
    simp [Paired] at paired
  · intro left right
    constructor
    · intro together
      have present := together_present empty left right together
      simp [empty] at present
    · rintro ⟨impossible, _⟩
      simp [empty] at impossible

/-- Adding a key relates nothing. -/
theorem Represents.add {sets : DisjointSets} {pairs : List (String × String)}
    (represents : sets.Represents pairs) (key : String) : (sets.add key).Represents pairs := by
  refine ⟨add_sound sets represents.sound key, ?_, ?_⟩
  · intro left right paired
    obtain ⟨front, back⟩ := represents.covered left right paired
    exact ⟨(mem_keys_add _ _ _).mpr (Or.inl front), (mem_keys_add _ _ _).mpr (Or.inl back)⟩
  · intro left right
    rw [together_add_iff sets represents.sound, mem_keys_add, mem_keys_add]
    constructor
    · rintro (old | ⟨rfl, rfl⟩)
      · obtain ⟨front, back, related⟩ := (represents.exact left right).mp old
        exact ⟨Or.inl front, Or.inl back, related⟩
      · exact ⟨Or.inr rfl, Or.inr rfl, .refl _⟩
    · rintro ⟨front, _, related⟩
      rcases represents.related_present left right related with rfl | ⟨old, oldToo⟩
      · rcases front with present | rfl
        · exact Or.inl (together_refl sets left present)
        · exact Or.inr ⟨rfl, rfl⟩
      · exact Or.inl ((represents.exact left right).mpr ⟨old, oldToo, related⟩)

/-- A union adds its two keys, and no others. -/
theorem mem_keys_union (sets : DisjointSets) (sound : sets.Sound) (left right asked : String) :
    asked ∈ (sets.union left right).keys ↔ asked ∈ sets.keys ∨ asked = left ∨ asked = right := by
  obtain ⟨_, _, _, _, keys, _, _⟩ := union_exact sets sound left right
  rw [keys, mem_keys_add, mem_keys_add, or_assoc]

/-- Joining two keys that are there adds none. -/
theorem keys_union_of_mem (sets : DisjointSets) (sound : sets.Sound) (left right : String)
    (leftIn : left ∈ sets.keys) (rightIn : right ∈ sets.keys) :
    (sets.union left right).keys = sets.keys := by
  obtain ⟨_, _, _, _, keys, _, _⟩ := union_exact sets sound left right
  have addLeft : sets.add left = sets := if_pos leftIn
  have addRight : sets.add right = sets := if_pos rightIn
  rw [keys, addLeft, addRight]

/-- Joining two keys adds their pair to the equivalence. -/
theorem Represents.union {sets : DisjointSets} {pairs : List (String × String)}
    (represents : sets.Represents pairs) (left right : String) :
    (sets.union left right).Represents (pairs ++ [(left, right)]) := by
  have added : ((sets.add left).add right).Represents pairs :=
    (represents.add left).add right
  obtain ⟨_, _, _, _, keys, sound, _⟩ := union_exact sets represents.sound left right
  have leftPresent : left ∈ ((sets.add left).add right).keys := by simp [mem_keys_add]
  have rightPresent : right ∈ ((sets.add left).add right).keys := by simp [mem_keys_add]
  refine ⟨sound, ?_, ?_⟩
  · intro one two paired
    rw [keys]
    rcases List.mem_append.mp paired with old | new
    · exact added.covered one two old
    · obtain ⟨rfl, rfl⟩ := Prod.mk.inj (List.mem_singleton.mp new)
      exact ⟨leftPresent, rightPresent⟩
  · intro one two
    rw [together_union_iff sets represents.sound, eqvGen_paired_append_iff, keys]
    simp only [added.exact]
    tauto

end Flowplan.DisjointSets
