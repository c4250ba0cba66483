/-!
# Disjoint sets of keys

Keys are numbered in the order in which they are added. Each key has a parent, which is the
key itself for the representative of a set and an earlier key otherwise; so following parents
ends at the representative, which is the key of the set that was added first. Looking a
representative up makes it the parent of every key met on the way, which changes no set.

A parent which is not earlier than its key ends the walk. No operation here produces one
other than the key itself.
-/

namespace Flowplan

/-- Sets of keys, by the position of each key's parent. -/
structure DisjointSets where
  /-- The keys in the order they were added. -/
  keys : List String
  /-- The position of the parent of each key. -/
  parents : List Nat
  deriving DecidableEq, Repr

namespace DisjointSets

def empty : DisjointSets := ⟨[], []⟩

def position? (sets : DisjointSets) (key : String) : Option Nat :=
  sets.keys.idxOf? key

/-- The parent of the key at a position. -/
def parentAt (sets : DisjointSets) (position : Nat) : Nat :=
  sets.parents.getD position position

/-- The position at the end of the parents' path. -/
def rootAt (sets : DisjointSets) (position : Nat) : Nat :=
  if sets.parentAt position < position then sets.rootAt (sets.parentAt position) else position
termination_by position

/-- Makes `root` the parent of every key on the path from a position. -/
def compress (sets : DisjointSets) (root position : Nat) : DisjointSets :=
  if sets.parentAt position < position then
    compress { sets with parents := sets.parents.set position root } root
      (sets.parentAt position)
  else sets
termination_by position

/-- Adds a key as a set of its own, unless it is there. -/
def add (sets : DisjointSets) (key : String) : DisjointSets :=
  if key ∈ sets.keys then sets
  else ⟨sets.keys ++ [key], sets.parents ++ [sets.keys.length]⟩

/-- The representative of a key's set, read without any change. -/
def representative? (sets : DisjointSets) (key : String) : Option String :=
  (sets.position? key).bind fun position => sets.keys[sets.rootAt position]?

/-- The representative of a key's set, with the path to it compressed. -/
def find (sets : DisjointSets) (key : String) : Option String × DisjointSets :=
  match sets.position? key with
  | none => (none, sets)
  | some position =>
      let root := sets.rootAt position
      (sets.keys[root]?, sets.compress root position)

/-- Joins the sets of two keys, adding the keys where they are missing. The representative
added earlier represents the joined set. -/
def union (sets : DisjointSets) (left right : String) : DisjointSets :=
  let added := (sets.add left).add right
  match added.position? left, added.position? right with
  | some leftPosition, some rightPosition =>
      let leftRoot := added.rootAt leftPosition
      let afterLeft := added.compress leftRoot leftPosition
      let rightRoot := afterLeft.rootAt rightPosition
      let afterRight := afterLeft.compress rightRoot rightPosition
      if leftRoot = rightRoot then afterRight
      else if rightRoot < leftRoot then
        { afterRight with parents := afterRight.parents.set leftRoot rightRoot }
      else { afterRight with parents := afterRight.parents.set rightRoot leftRoot }
  | _, _ => added

/-- Whether two keys are present and in one set, with the paths compressed. -/
def same (sets : DisjointSets) (left right : String) : Bool × DisjointSets :=
  match sets.find left with
  | (none, after) => (false, after)
  | (some leftRoot, after) =>
      match after.find right with
      | (none, last) => (false, last)
      | (some rightRoot, last) => (leftRoot = rightRoot, last)

/-- Whether two keys are present and in one set, read without any change. -/
def together (sets : DisjointSets) (left right : String) : Bool :=
  match sets.representative? left, sets.representative? right with
  | some leftRoot, some rightRoot => leftRoot = rightRoot
  | _, _ => false

end DisjointSets

end Flowplan
