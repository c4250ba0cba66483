import Flowplan.Proofs.Classes

/-!
# Disjoint sets against a ledger

A ledger notes the keys in the order in which they were first named, and the pairs of keys that
were joined. It keeps no representatives: every question is answered from the least equivalence
over the pairs, worked out anew. The representative of a key is the first key noted among those
equivalent to it.

Disjoint sets answer as the ledger does, whatever they are asked and in whatever order. Looking a
key up moves parents but changes no path's end (`Keeps`), so the questions leave what they follow
in the ledger as it is.
-/

namespace Flowplan

namespace DisjointSets

/-- What disjoint sets are asked. -/
inductive Request where
  | add (key : String)
  | union (left right : String)
  | find (key : String)
  | same (left right : String)
  deriving DecidableEq, Repr

/-- What they reply. Where a key has no representative, the empty text stands for it. -/
inductive Reply where
  | nothing
  | found (representative : String) (present : Bool)
  | same (answer : Bool)
  deriving DecidableEq, Repr

/-- The reply to one request, with the sets after it. -/
def serve (sets : DisjointSets) : Request → Reply × DisjointSets
  | .add key => (.nothing, sets.add key)
  | .union left right => (.nothing, sets.union left right)
  | .find key => (.found ((sets.find key).1.getD "") (sets.find key).1.isSome, (sets.find key).2)
  | .same left right => (.same (sets.same left right).1, (sets.same left right).2)

/-- The replies to requests made one after another. -/
def replies (sets : DisjointSets) : List Request → List Reply
  | [] => []
  | request :: rest => (sets.serve request).1 :: (sets.serve request).2.replies rest

/-! ## Deciding the equivalence of joined pairs -/

/-- Whether the pairs relate two keys. One more pair relates the classes of its two members. -/
def linked : List (String × String) → String → String → Bool
  | [], left, right => left = right
  | (one, two) :: rest, left, right =>
      linked rest left right || linked rest left one && linked rest two right ||
        linked rest left two && linked rest one right

/-- It does not matter at which end a pair is noted. -/
theorem paired_cons (pair : String × String) (pairs : List (String × String)) :
    Paired (pair :: pairs) = Paired (pairs ++ [pair]) := by
  funext left right
  apply propext
  exact (List.perm_append_singleton pair pairs).mem_iff.symm

/-- Pairs link two keys exactly if the least equivalence over them relates these. -/
theorem linked_iff (pairs : List (String × String)) (left right : String) :
    linked pairs left right = true ↔ Relation.EqvGen (Paired pairs) left right := by
  induction pairs generalizing left right with
  | nil =>
      constructor
      · intro same
        obtain rfl := of_decide_eq_true same
        exact .refl left
      · intro related
        rcases represents_empty.related_present left right related with same | ⟨absent, _⟩
        · exact decide_eq_true same
        · cases absent
  | cons pair rest inductionHypothesis =>
      obtain ⟨one, two⟩ := pair
      rw [paired_cons, eqvGen_paired_append_iff]
      simp only [linked, Bool.or_eq_true, Bool.and_eq_true, inductionHypothesis, or_assoc]

end DisjointSets

open DisjointSets

/-- Keys in the order first named, and the pairs of keys that were joined. -/
structure Ledger where
  keys : List String
  pairs : List (String × String)
  deriving DecidableEq, Repr

namespace Ledger

/-- The ledger in which nothing is noted. -/
def empty : Ledger := ⟨[], []⟩

/-- Notes a key behind all others, unless it is there. -/
def enter (ledger : Ledger) (key : String) : Ledger :=
  if key ∈ ledger.keys then ledger else { ledger with keys := ledger.keys ++ [key] }

/-- Notes a pair, after its members. -/
def join (ledger : Ledger) (left right : String) : Ledger :=
  { (ledger.enter left).enter right with pairs := ledger.pairs ++ [(left, right)] }

/-- The least equivalence over the pairs. -/
def Equivalent (ledger : Ledger) : String → String → Prop :=
  Relation.EqvGen (Paired ledger.pairs)

instance (ledger : Ledger) (left right : String) : Decidable (ledger.Equivalent left right) :=
  decidable_of_iff _ (linked_iff ledger.pairs left right)

/-- The first key noted that is equivalent to a given one. -/
def earliest (ledger : Ledger) (key : String) : String :=
  (ledger.keys.find? fun noted => ledger.Equivalent noted key).getD key

/-- The reply to a request. -/
def reply (ledger : Ledger) : Request → Reply
  | .add _ => .nothing
  | .union _ _ => .nothing
  | .find key =>
      if key ∈ ledger.keys then .found (ledger.earliest key) true else .found "" false
  | .same left right =>
      .same (left ∈ ledger.keys ∧ right ∈ ledger.keys ∧ ledger.Equivalent left right)

/-- The ledger after a request. Questions leave no trace. -/
def note (ledger : Ledger) : Request → Ledger
  | .add key => ledger.enter key
  | .union left right => ledger.join left right
  | .find _ => ledger
  | .same _ _ => ledger

/-- The replies to requests made one after another. -/
def replies (ledger : Ledger) : List Request → List Reply
  | [] => []
  | request :: rest => ledger.reply request :: (ledger.note request).replies rest

end Ledger

namespace DisjointSets

/-! ## Looking keys up -/

/-- Parents may have moved, but every path ends where it did. -/
structure Keeps (sets after : DisjointSets) : Prop where
  keys : after.keys = sets.keys
  sound : after.Sound
  roots : ∀ asked, after.rootAt asked = sets.rootAt asked

namespace Keeps

variable {sets after last : DisjointSets}

/-- Sets keep what they are. -/
theorem refl (sound : sets.Sound) : sets.Keeps sets :=
  ⟨rfl, sound, fun _ => rfl⟩

/-- What is kept twice is kept. -/
theorem trans (first : sets.Keeps after) (second : after.Keeps last) : sets.Keeps last :=
  ⟨second.keys.trans first.keys, second.sound, fun asked =>
    (second.roots asked).trans (first.roots asked)⟩

/-- Keys are found where they were. -/
theorem position?_eq (keeps : sets.Keeps after) (key : String) :
    after.position? key = sets.position? key := by
  rw [position?, position?, keeps.keys]

/-- Keys have the representatives they had. -/
theorem representative?_eq (keeps : sets.Keeps after) (key : String) :
    after.representative? key = sets.representative? key := by
  simp only [representative?, keeps.position?_eq, keeps.keys, keeps.roots]

/-- The same keys are together. -/
theorem together_iff (keeps : sets.Keeps after) (left right : String) :
    after.Together left right ↔ sets.Together left right := by
  simp only [Together, keeps.position?_eq, keeps.roots]

/-- The same pairs are represented. -/
theorem represents (keeps : sets.Keeps after) {pairs : List (String × String)}
    (represents : sets.Represents pairs) : after.Represents pairs := by
  refine ⟨keeps.sound, ?_, ?_⟩
  · simpa only [keeps.keys] using represents.covered
  · intro left right
    rw [keeps.together_iff, keeps.keys, represents.exact]

end Keeps

/-- Looking a key up tells its representative and moves no path's end. -/
theorem find_exact (sets : DisjointSets) (sound : sets.Sound) (key : String) :
    (sets.find key).1 = sets.representative? key ∧ sets.Keeps (sets.find key).2 := by
  unfold find representative?
  cases sets.position? key with
  | none => exact ⟨rfl, .refl sound⟩
  | some position =>
      obtain ⟨keys, compressed, roots⟩ :=
        compress_exact sets sound (sets.rootAt position) position rfl
      exact ⟨rfl, keys, compressed, roots⟩

/-- Asking whether two keys are in one set tells it and moves no path's end. -/
theorem same_exact (sets : DisjointSets) (sound : sets.Sound) (left right : String) :
    (sets.same left right).1 = sets.together left right ∧ sets.Keeps (sets.same left right).2 := by
  obtain ⟨ofLeft, keeps⟩ := find_exact sets sound left
  obtain ⟨ofRight, keepsAgain⟩ := find_exact (sets.find left).2 keeps.sound right
  rw [keeps.representative?_eq] at ofRight
  have both := keeps.trans keepsAgain
  unfold same together
  rw [← ofLeft, ← ofRight]
  generalize sets.find left = foundLeft at keeps both ⊢
  obtain ⟨leftRoot, after⟩ := foundLeft
  cases leftRoot with
  | none => exact ⟨rfl, keeps⟩
  | some leftRoot =>
      dsimp only at both ⊢
      generalize after.find right = foundRight at both ⊢
      obtain ⟨rightRoot, last⟩ := foundRight
      cases rightRoot with
      | none => exact ⟨rfl, both⟩
      | some rightRoot => exact ⟨rfl, both⟩

/-- The representative of a key is the first among all keys equivalent to it: the path of an earlier
one would end before the representative. -/
theorem Represents.representative_first {sets : DisjointSets} {pairs : List (String × String)}
    (represents : sets.Represents pairs) {key representative : String}
    (named : sets.representative? key = some representative) :
    First (fun noted => Relation.EqvGen (Paired pairs) noted key) sets.keys representative := by
  have sound := represents.sound
  obtain ⟨position, found, stands⟩ := Option.bind_eq_some_iff.mp named
  have present := mem_of_position? sets key position found
  obtain ⟨inside, atRoot⟩ := List.getElem?_eq_some_iff.mp stands
  refine ⟨sets.keys.take (sets.rootAt position), sets.keys.drop (sets.rootAt position + 1),
    ?_, ?_, ?_⟩
  · rw [← atRoot, ← List.drop_eq_getElem_cons inside, List.take_append_drop]
  · have together : sets.Together representative key :=
      ⟨sets.rootAt position, position, (position?_iff sets sound _ _).mpr stands, found,
        rootAt_rootAt sets position⟩
    exact ((represents.exact _ _).mp together).2.2
  · intro noted inFront related
    obtain ⟨earlier, bound, standsEarlier⟩ := List.mem_take_iff_getElem.mp inFront
    have before : earlier < sets.rootAt position := by omega
    obtain ⟨first, second, atNoted, atKey, same⟩ := (represents.exact _ _).mpr
      ⟨List.mem_of_mem_take inFront, present, related⟩
    have atEarlier := (position?_iff sets sound noted earlier).mpr
      (List.getElem?_eq_some_iff.mpr ⟨_, standsEarlier⟩)
    obtain rfl : earlier = first := Option.some.inj (atEarlier.symm.trans atNoted)
    obtain rfl : position = second := Option.some.inj (found.symm.trans atKey)
    have ends := rootAt_le sets earlier
    omega

/-! ## Following a ledger -/

/-- The sets have the keys and the classes of a ledger. -/
structure Follows (sets : DisjointSets) (ledger : Ledger) : Prop where
  keys : sets.keys = ledger.keys
  classes : sets.Represents ledger.pairs

namespace Follows

variable {sets : DisjointSets} {ledger : Ledger}

/-- Empty sets follow the empty ledger. -/
theorem empty : DisjointSets.empty.Follows Ledger.empty :=
  ⟨rfl, represents_empty⟩

/-- Adding a key is entering it in the ledger. -/
theorem add (follows : sets.Follows ledger) (key : String) :
    (sets.add key).Follows (ledger.enter key) := by
  by_cases present : key ∈ ledger.keys
  · have known : key ∈ sets.keys := follows.keys ▸ present
    rw [DisjointSets.add, if_pos known, Ledger.enter, if_pos present]
    exact follows
  · have unknown : key ∉ sets.keys := follows.keys ▸ present
    refine ⟨?_, ?_⟩
    · rw [DisjointSets.add, if_neg unknown, Ledger.enter, if_neg present, follows.keys]
    · rw [Ledger.enter, if_neg present]
      exact follows.classes.add key

/-- A union is a pair noted in the ledger. -/
theorem union (follows : sets.Follows ledger) (left right : String) :
    (sets.union left right).Follows (ledger.join left right) := by
  obtain ⟨_, _, _, _, keys, _, _⟩ := union_exact sets follows.classes.sound left right
  exact ⟨keys.trans ((follows.add left).add right).keys, follows.classes.union left right⟩

/-- Moving parents does not concern the ledger. -/
theorem keeps (follows : sets.Follows ledger) {after : DisjointSets} (kept : sets.Keeps after) :
    after.Follows ledger :=
  ⟨kept.keys.trans follows.keys, kept.represents follows.classes⟩

/-- The representative of a key is the earliest key equivalent to it, if it has been entered. -/
theorem representative?_eq (follows : sets.Follows ledger) (key : String) :
    sets.representative? key = if key ∈ ledger.keys then some (ledger.earliest key) else none := by
  by_cases present : key ∈ ledger.keys
  · have known : key ∈ sets.keys := follows.keys ▸ present
    obtain ⟨representative, named⟩ :=
      representative?_isSome sets follows.classes.sound key known
    obtain ⟨before, after, split, related, unrelated⟩ :=
      follows.classes.representative_first named
    have first : (ledger.keys.find? fun noted => ledger.Equivalent noted key) =
        some representative := by
      rw [List.find?_eq_some_iff_append]
      refine ⟨decide_eq_true related, before, after, follows.keys ▸ split, ?_⟩
      intro noted inFront
      have apart : ¬ ledger.Equivalent noted key := unrelated noted inFront
      simpa using apart
    rw [if_pos present, named, Ledger.earliest, first, Option.getD_some]
  · have unknown : key ∉ sets.keys := follows.keys ▸ present
    rw [if_neg present, representative?, position?, List.idxOf?_eq_none_iff.mpr unknown]
    rfl

/-- Two keys are told to be together exactly if both have been entered and are equivalent. -/
theorem together_eq (follows : sets.Follows ledger) (left right : String) :
    sets.together left right =
      decide (left ∈ ledger.keys ∧ right ∈ ledger.keys ∧ ledger.Equivalent left right) := by
  rw [Bool.eq_iff_iff, together_iff sets follows.classes.sound, follows.classes.exact,
    follows.keys, decide_eq_true_iff]
  exact Iff.rfl

/-- One request is answered as the ledger answers it, and the sets follow the ledger on. -/
theorem serve (follows : sets.Follows ledger) (request : Request) :
    (sets.serve request).1 = ledger.reply request ∧
      (sets.serve request).2.Follows (ledger.note request) := by
  have sound := follows.classes.sound
  cases request with
  | add key => exact ⟨rfl, follows.add key⟩
  | union left right => exact ⟨rfl, follows.union left right⟩
  | find key =>
      obtain ⟨told, kept⟩ := find_exact sets sound key
      refine ⟨?_, follows.keeps kept⟩
      simp only [DisjointSets.serve, Ledger.reply, told, follows.representative?_eq]
      split <;> rfl
  | same left right =>
      obtain ⟨told, kept⟩ := same_exact sets sound left right
      refine ⟨?_, follows.keeps kept⟩
      simp only [DisjointSets.serve, Ledger.reply, told, follows.together_eq]

/-- Whatever is requested, the sets reply as the ledger does. -/
theorem replies (follows : sets.Follows ledger) (requests : List Request) :
    sets.replies requests = ledger.replies requests := by
  induction requests generalizing sets ledger with
  | nil => rfl
  | cons request rest inductionHypothesis =>
      obtain ⟨told, onward⟩ := follows.serve request
      rw [DisjointSets.replies, Ledger.replies, told, inductionHypothesis onward]

end Follows

/-- Whatever fresh disjoint sets are asked, and in whatever order, they reply as the ledger does.

Two keys are in one set exactly if both are noted and the joined pairs make them equivalent, and
the representative of a noted key is the first key noted in its class. -/
theorem replies_as_ledger (requests : List Request) :
    empty.replies requests = Ledger.empty.replies requests :=
  Follows.empty.replies requests

/-- A class keeps its first key when it is joined to another one from either side. -/
example : Ledger.empty.replies [.add "a", .union "c" "b", .find "b", .union "b" "a", .find "c",
    .same "a" "d", .find "d"] = [.nothing, .nothing, .found "c" true, .nothing, .found "a" true,
      .same false, .found "" false] := by
  decide

end DisjointSets

end Flowplan
