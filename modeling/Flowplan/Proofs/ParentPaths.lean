import Flowplan.Proofs.Ledgers

/-!
# Paths to representatives

Looking a key up takes two loops. The first follows parents until a key is its own parent. The
second goes the same way once more and makes that last key the parent of every key it passes.
Neither loop counts its turns, so `Climbs` and `Flattens` relate where a loop starts to where it
stops: a loop without an end stops nowhere and satisfies neither.

Whatever was asked before, both loops end for every key, because parents have smaller numbers than
their children. The second loop moves exactly the parents on the path that the first one took.
-/

namespace Flowplan.DisjointSets

/-- The sets after requests one after another. -/
def afterRequests (sets : DisjointSets) : List Request → DisjointSets
  | [] => sets
  | request :: rest => (sets.serve request).2.afterRequests rest

/-- Following parents passes some keys and stops at the first one that is its own parent. -/
inductive Climbs (sets : DisjointSets) : Nat → List Nat → Nat → Prop
  | stop {root : Nat} (rooted : sets.parentAt root = root) : Climbs sets root [] root
  | go {position root : Nat} {path : List Nat} (below : sets.parentAt position ≠ position)
      (onward : Climbs sets (sets.parentAt position) path root) :
      Climbs sets position (position :: path) root

/-- Going from parent to parent until the root is met, and leaving the root as the parent of every
key on the way. The next key is read before the parent of this one is replaced. -/
inductive Flattens (root : Nat) : DisjointSets → Nat → DisjointSets → Prop
  | stop {sets : DisjointSets} : Flattens root sets root sets
  | go {sets after : DisjointSets} {position : Nat} (away : position ≠ root)
      (onward : Flattens root (sets.redirect position root) (sets.parentAt position) after) :
      Flattens root sets position after

/-- The key at one position represents the key at another. -/
def RootOf (sets : DisjointSets) (position root : Nat) : Prop :=
  ∃ path, sets.Climbs position path root

/-! ## Sets that requests lead to -/

/-- No request makes a key the parent of an earlier one. -/
theorem serve_sound {sets : DisjointSets} (sound : sets.Sound) (request : Request) :
    (sets.serve request).2.Sound := by
  cases request with
  | add key => exact add_sound sets sound key
  | union left right =>
      obtain ⟨_, _, _, _, _, joined, _⟩ := union_exact sets sound left right
      exact joined
  | find key => exact (find_exact sets sound key).2.sound
  | same left right => exact (same_exact sets sound left right).2.sound

/-- No sequence of requests makes a key the parent of an earlier one. -/
theorem afterRequests_sound {sets : DisjointSets} (sound : sets.Sound) (requests : List Request) :
    (sets.afterRequests requests).Sound := by
  induction requests generalizing sets with
  | nil => exact sound
  | cons request rest inductionHypothesis => exact inductionHypothesis (serve_sound sound request)

namespace Sound

variable {sets : DisjointSets}

/-- A parent other than the key itself comes earlier. -/
theorem parent_earlier (sound : sets.Sound) {position : Nat}
    (below : sets.parentAt position ≠ position) : sets.parentAt position < position :=
  Nat.lt_of_le_of_ne (sound.descending position) below

/-- The parent of a key is a key. -/
theorem parent_present (sound : sets.Sound) {key : String} {position : Nat}
    (found : sets.position? key = some position) :
    ∃ parent, sets.position? parent = some (sets.parentAt position) := by
  obtain ⟨inside, _⟩ := List.getElem?_eq_some_iff.mp ((position?_iff sets sound _ _).mp found)
  have parentInside := Nat.lt_of_le_of_lt (sound.descending position) inside
  exact ⟨_, (position?_iff sets sound _ _).mpr (List.getElem?_eq_getElem parentInside)⟩

/-! ## The first loop -/

/-- The first loop ends, since the position it has come to gets smaller at every turn. -/
theorem climbs (sound : sets.Sound) (position : Nat) :
    ∃ path, sets.Climbs position path (sets.rootAt position) := by
  induction position using Nat.strongRecOn with
  | ind position inductionHypothesis =>
      by_cases rooted : sets.parentAt position = position
      · rw [rootAt_of_root sets position (by omega)]
        exact ⟨[], .stop rooted⟩
      · have earlier := sound.parent_earlier rooted
        obtain ⟨path, onward⟩ := inductionHypothesis _ earlier
        rw [rootAt_of_parent sets position earlier]
        exact ⟨position :: path, .go rooted onward⟩

end Sound

namespace Climbs

variable {sets : DisjointSets} {position root : Nat} {path : List Nat}

/-- The loop that follows parents stops at the root. -/
theorem root_eq (climbs : sets.Climbs position path root) (sound : sets.Sound) :
    root = sets.rootAt position := by
  induction climbs with
  | stop rooted => exact (rootAt_of_root sets _ (by omega)).symm
  | go below _ inductionHypothesis =>
      rw [rootAt_of_parent sets _ (sound.parent_earlier below)]
      exact inductionHypothesis

/-- The loop runs in one way only. -/
theorem unique (climbs : sets.Climbs position path root) {otherPath : List Nat} {otherRoot : Nat}
    (other : sets.Climbs position otherPath otherRoot) : path = otherPath ∧ root = otherRoot := by
  induction climbs generalizing otherPath with
  | stop rooted =>
      cases other with
      | stop _ => exact ⟨rfl, rfl⟩
      | go below _ => exact absurd rooted below
  | go below _ inductionHypothesis =>
      cases other with
      | stop rooted => exact absurd rooted below
      | go _ onward =>
          obtain ⟨rfl, rfl⟩ := inductionHypothesis onward
          exact ⟨rfl, rfl⟩

/-- What is passed lies above the root and no later than the start. -/
theorem between (climbs : sets.Climbs position path root) (sound : sets.Sound) :
    root ≤ position ∧ ∀ passed ∈ path, root < passed ∧ passed ≤ position := by
  induction climbs with
  | stop _ => exact ⟨Nat.le_refl _, fun _ member => nomatch member⟩
  | go below _ inductionHypothesis =>
      have earlier := sound.parent_earlier below
      obtain ⟨above, within⟩ := inductionHypothesis
      refine ⟨by omega, List.forall_mem_cons.mpr ⟨by omega, ?_⟩⟩
      intro passed member
      have bounds := within passed member
      omega

/-- A path is not changed by a parent that moves outside of it. -/
theorem redirect (climbs : sets.Climbs position path root) {moved : Nat} (parent : Nat)
    (stored : moved < sets.parents.length) (outside : moved ∉ path) (notRoot : moved ≠ root) :
    (sets.redirect moved parent).Climbs position path root := by
  have parents := parentAt_redirect sets moved parent stored
  induction climbs with
  | stop rooted =>
      refine .stop ?_
      rw [parents, if_neg notRoot.symm, rooted]
  | @go position root path below _ inductionHypothesis =>
      have ⟨notHere, notLater⟩ := List.ne_and_not_mem_of_not_mem_cons outside
      have kept : (sets.redirect moved parent).parentAt position = sets.parentAt position := by
        rw [parents, if_neg (Ne.symm notHere)]
      refine .go (kept ▸ below) ?_
      rw [kept]
      exact inductionHypothesis notLater notRoot

/-! ## The second loop -/

/-- The second loop ends where compression does, and has moved the parents of what it passed.

The induction is on the path. The parent that one turn moves lies behind the rest of the path, which
is therefore still the same after that turn. -/
theorem compress (climbs : sets.Climbs position path root) (sound : sets.Sound) :
    Flattens root sets position (sets.compress root position) ∧
      ∀ asked, (sets.compress root position).parentAt asked =
        if asked ∈ path then root else sets.parentAt asked := by
  induction path generalizing sets position with
  | nil =>
      cases climbs with
      | stop rooted =>
          rw [DisjointSets.compress, if_neg (by omega)]
          exact ⟨.stop, fun asked => (if_neg List.not_mem_nil).symm⟩
  | cons start rest inductionHypothesis =>
      cases climbs with
      | go below onward =>
          have earlier := sound.parent_earlier below
          have stored := stored_of_parent_earlier sets start earlier
          obtain ⟨above, within⟩ := onward.between sound
          have outside : start ∉ rest := by
            intro member
            have bounds := within start member
            omega
          have redirected := redirect_sound sets sound start root stored (by omega)
          have turned : sets.compress root start =
              (sets.redirect start root).compress root (sets.parentAt start) := by
            rw [DisjointSets.compress, if_pos earlier]
            rfl
          obtain ⟨flattens, parents⟩ := inductionHypothesis
            (onward.redirect root stored outside (by omega)) redirected
          rw [turned]
          refine ⟨.go (by omega) flattens, ?_⟩
          intro asked
          rw [parents, parentAt_redirect sets start root stored]
          by_cases here : asked = start
          · simp [here]
          · simp [here]

end Climbs

/-- The key that the loop stops at is the root, and the loop stops. -/
theorem rootOf_iff {sets : DisjointSets} (sound : sets.Sound) (position root : Nat) :
    sets.RootOf position root ↔ root = sets.rootAt position := by
  constructor
  · rintro ⟨path, climbs⟩
    exact climbs.root_eq sound
  · rintro rfl
    exact sound.climbs position

/-- Moved parents that keep the roots keep where the loop stops. -/
theorem Keeps.rootOf_iff {sets after : DisjointSets} (keeps : sets.Keeps after)
    (sound : sets.Sound) (position root : Nat) :
    after.RootOf position root ↔ sets.RootOf position root := by
  rw [DisjointSets.rootOf_iff keeps.sound, DisjointSets.rootOf_iff sound, keeps.roots]

/-- Whatever was asked before, the parent of a key is the key itself or a key with a smaller number,
so that both loops end for every key. Looking a key up keeps the keys, their numbers and the root of
every key. The keys on the path from the key to its root get this root as their parent, and no other
parent moves. A key that is not there changes nothing. -/
theorem find_moves_path (requests : List Request) :
    let sets := empty.afterRequests requests
    (∀ key position, sets.position? key = some position → sets.parentAt position ≠ position →
      sets.parentAt position < position ∧
        ∃ parent, sets.position? parent = some (sets.parentAt position)) ∧
    (∀ key position, sets.position? key = some position →
      ∃ path root representative, sets.Climbs position path root ∧
        Flattens root sets position (sets.find key).2 ∧
        sets.position? representative = some root ∧ (sets.find key).1 = some representative ∧
        (sets.find key).2.keys = sets.keys ∧
        (∀ asked root, (sets.find key).2.RootOf asked root ↔ sets.RootOf asked root) ∧
        ∀ asked, (sets.find key).2.parentAt asked =
          if asked ∈ path then root else sets.parentAt asked) ∧
    ∀ key, key ∉ sets.keys → sets.find key = (none, sets) := by
  intro sets
  have sound : sets.Sound := afterRequests_sound represents_empty.sound requests
  refine ⟨?_, ?_, ?_⟩
  · intro key position found below
    exact ⟨sound.parent_earlier below, sound.parent_present found⟩
  · intro key position found
    obtain ⟨path, climbs⟩ := sound.climbs position
    obtain ⟨flattens, parents⟩ := climbs.compress sound
    obtain ⟨representative, named, stands⟩ :=
      representative?_of_position sets sound key position found
    obtain ⟨told, keeps⟩ := find_exact sets sound key
    have after : (sets.find key).2 = sets.compress (sets.rootAt position) position := by
      simp only [find, found]
    refine ⟨path, sets.rootAt position, representative, climbs, after ▸ flattens,
      (position?_iff sets sound _ _).mpr stands, told.trans named, keeps.keys,
      keeps.rootOf_iff sound, ?_⟩
    rw [after]
    exact parents
  · intro key absent
    simp only [find, position?, List.idxOf?_eq_none_iff.mpr absent]

/-- Every key but the first ends up behind the one added just before it. -/
def rowRequests : List Request :=
  [.add "a", .add "b", .union "c" "d", .union "b" "c", .union "a" "b"]

/-- The path from the last key passes all others. After one lookup they all have the first one as
their parent. -/
theorem rowRequests_moved :
    let sets := empty.afterRequests rowRequests
    sets = ⟨["a", "b", "c", "d"], [0, 0, 1, 2]⟩ ∧ sets.Climbs 3 [3, 2, 1] 0 ∧
      Flattens 0 sets 3 (sets.find "d").2 ∧
      (∃ representative, sets.position? representative = some 0 ∧
        (sets.find "d").1 = some representative) ∧
      ∀ asked ∈ [0, 1, 2, 3], (sets.find "d").2.parentAt asked = 0 := by
  have state : empty.afterRequests rowRequests = ⟨["a", "b", "c", "d"], [0, 0, 1, 2]⟩ := by
    decide +kernel
  obtain ⟨_, found, _⟩ := find_moves_path rowRequests
  rw [state] at found ⊢
  obtain ⟨path, root, representative, climbs, flattens, named, told, _, _, parents⟩ :=
    found "d" 3 rfl
  have row : Climbs ⟨["a", "b", "c", "d"], [0, 0, 1, 2]⟩ 3 [3, 2, 1] 0 :=
    .go (by decide) (.go (by decide) (.go (by decide) (.stop rfl)))
  obtain ⟨rfl, rfl⟩ := row.unique climbs
  refine ⟨rfl, row, flattens, ⟨representative, named, told⟩, ?_⟩
  simp only [parents]
  decide

end Flowplan.DisjointSets
