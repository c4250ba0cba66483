import Flowplan.Proofs.Lists

/-!
# Filing by key

A lowering files what it meets in two places: vertices under the representative of their group,
and edges under the pair of stages they lead between. Both times an item joins the file of its
key, behind what is there, and a key met for the first time opens a file behind all others. Items
without a key are passed over.

`Filing` names the parts, and `Filing.Holds` says what the files are after any number of items.
It is kept by passing over an item, by opening a file and by extending one.
-/

namespace Flowplan

/-- How items are filed: the key of an item and what is noted of it, the key a file stands under
and what is in it. -/
structure Filing (Item Key File Entry : Type) where
  keyOf : Item → Option Key
  entry : Item → Entry
  name : File → Key
  contents : File → List Entry

namespace Filing

variable {Item Key File Entry : Type} [DecidableEq Key]

/-- The files hold the items that have a key: each those of its name, in order. The files stand
in the order of their first entries. -/
structure Holds (filing : Filing Item Key File Entry) (items : List Item) (files : List File) :
    Prop where
  distinct : (files.map filing.name).Nodup
  contents : ∀ file ∈ files, filing.contents file =
    (items.filter fun item => filing.keyOf item = some (filing.name file)).map filing.entry
  inhabited : ∀ file ∈ files, filing.contents file ≠ []
  covered : ∀ item ∈ items, ∀ key, filing.keyOf item = some key → key ∈ files.map filing.name
  firsts : (files.filterMap fun file => (filing.contents file).head?).Sublist
    (items.map filing.entry)

/-- No files are needed to hold no items. -/
theorem holds_nil (filing : Filing Item Key File Entry) : filing.Holds [] [] := by
  refine ⟨List.nodup_nil, ?_, ?_, ?_, List.Sublist.refl []⟩ <;> simp

namespace Holds

variable {filing : Filing Item Key File Entry} {items : List Item} {files : List File}

/-- An item without a key changes nothing. -/
theorem passed (holds : filing.Holds items files) (item : Item)
    (unkeyed : filing.keyOf item = none) : filing.Holds (items ++ [item]) files := by
  refine ⟨holds.distinct, ?_, holds.inhabited, ?_, ?_⟩
  · intro file member
    simpa [unkeyed] using holds.contents file member
  · intro earlier member key keyed
    rcases List.mem_append.mp member with old | last
    · exact holds.covered earlier old key keyed
    · obtain rfl := List.mem_singleton.mp last
      exact absurd (unkeyed.symm.trans keyed) (by simp)
  · rw [List.map_append]
    exact holds.firsts.trans (List.sublist_append_left _ _)

/-- A new key opens a file behind all others. -/
theorem opened (holds : filing.Holds items files) (item : Item) (file : File)
    (keyed : filing.keyOf item = some (filing.name file))
    (new : filing.name file ∉ files.map filing.name)
    (single : filing.contents file = [filing.entry item]) :
    filing.Holds (items ++ [item]) (files ++ [file]) := by
  have others : ∀ other ∈ files, filing.name file ≠ filing.name other :=
    fun other member same => new (same ▸ List.mem_map_of_mem member)
  refine ⟨?_, ?_, ?_, ?_, ?_⟩
  · simpa using holds.distinct.concat new
  · intro asked member
    rcases List.mem_append.mp member with old | last
    · simpa [keyed, others asked old] using holds.contents asked old
    · obtain rfl := List.mem_singleton.mp last
      -- an earlier item of this key would have opened the file already
      have fresh : (items.filter fun earlier =>
          filing.keyOf earlier = some (filing.name asked)) = [] := by
        apply List.filter_eq_nil_iff.mpr
        intro earlier earlierIn same
        exact new (holds.covered earlier earlierIn _ (of_decide_eq_true same))
      simp [fresh, keyed, single]
  · intro asked member
    rcases List.mem_append.mp member with old | last
    · exact holds.inhabited asked old
    · obtain rfl := List.mem_singleton.mp last
      simp [single]
  · intro earlier member key earlierKeyed
    rw [List.map_append]
    rcases List.mem_append.mp member with old | last
    · exact List.mem_append_left _ (holds.covered earlier old key earlierKeyed)
    · obtain rfl := List.mem_singleton.mp last
      have same : key = filing.name file := Option.some.inj (earlierKeyed.symm.trans keyed)
      exact List.mem_append_right _ (by simp [same])
  · simpa [single] using holds.firsts.append (List.Sublist.refl [filing.entry item])

/-- An item of a known key goes to the end of its file, and no other file changes. -/
theorem extended {front back : List File} {file : File}
    (holds : filing.Holds items (front ++ file :: back)) (item : Item) (longer : File)
    (keyed : filing.keyOf item = some (filing.name file))
    (sameName : filing.name longer = filing.name file)
    (appended : filing.contents longer = filing.contents file ++ [filing.entry item]) :
    filing.Holds (items ++ [item]) (front ++ longer :: back) := by
  have sameNames : (front ++ longer :: back).map filing.name =
      (front ++ file :: back).map filing.name := by
    simp [sameName]
  have fileIn : file ∈ front ++ file :: back := by simp
  have kept : ∀ other ∈ front ++ back, other ∈ front ++ file :: back :=
    fun other member => List.perm_middle.mem_iff.mpr (List.mem_cons_of_mem file member)
  have others : ∀ other ∈ front ++ back, filing.name file ≠ filing.name other := by
    have distinct : ((file :: (front ++ back)).map filing.name).Nodup :=
      (List.perm_middle.map filing.name).nodup_iff.mp holds.distinct
    intro other member same
    exact (List.nodup_cons.mp distinct).1 (same ▸ List.mem_map_of_mem member)
  refine ⟨?_, ?_, ?_, ?_, ?_⟩
  · rw [sameNames]
    exact holds.distinct
  · intro asked member
    rcases List.mem_cons.mp (List.perm_middle.mem_iff.mp member) with rfl | other
    · simp [sameName, keyed, appended, holds.contents file fileIn]
    · simpa [keyed, others asked other] using holds.contents asked (kept asked other)
  · intro asked member
    rcases List.mem_cons.mp (List.perm_middle.mem_iff.mp member) with rfl | other
    · simp [appended]
    · exact holds.inhabited asked (kept asked other)
  · intro earlier member key earlierKeyed
    rw [sameNames]
    rcases List.mem_append.mp member with old | last
    · exact holds.covered earlier old key earlierKeyed
    · obtain rfl := List.mem_singleton.mp last
      have same : key = filing.name file := Option.some.inj (earlierKeyed.symm.trans keyed)
      exact same ▸ List.mem_map_of_mem fileIn
  · have sameHead : (filing.contents longer).head? = (filing.contents file).head? := by
      rw [appended]
      exact List.head?_append_of_ne_nil _ (holds.inhabited file fileIn)
    have sameHeads : ((front ++ longer :: back).filterMap fun asked =>
        (filing.contents asked).head?) =
          (front ++ file :: back).filterMap fun asked => (filing.contents asked).head? := by
      simp [List.filterMap_append, List.filterMap_cons, sameHead]
    rw [sameHeads, List.map_append]
    exact holds.firsts.trans (List.sublist_append_left _ _)

/-- A file stands under a key exactly if some item has the key. -/
theorem named_iff (holds : filing.Holds items files) (key : Key) :
    key ∈ files.map filing.name ↔ ∃ item ∈ items, filing.keyOf item = some key := by
  constructor
  · intro named
    obtain ⟨file, fileIn, rfl⟩ := List.mem_map.mp named
    obtain ⟨entry, entryIn⟩ := List.exists_mem_of_ne_nil _ (holds.inhabited file fileIn)
    rw [holds.contents file fileIn] at entryIn
    obtain ⟨item, chosen, _⟩ := List.mem_map.mp entryIn
    obtain ⟨itemIn, keyed⟩ := List.mem_filter.mp chosen
    exact ⟨item, itemIn, of_decide_eq_true keyed⟩
  · rintro ⟨item, itemIn, keyed⟩
    exact holds.covered item itemIn key keyed

/-- The files together hold the items that have a key. -/
theorem contents_perm (holds : filing.Holds items files) :
    (files.flatMap filing.contents).Perm
      ((items.filter fun item => (filing.keyOf item).isSome).map filing.entry) := by
  have byKey : files.flatMap filing.contents =
      ((files.map fun file => some (filing.name file)).flatMap fun asked =>
        (items.filter fun item => (filing.keyOf item).isSome).filter fun item =>
          filing.keyOf item = asked).map filing.entry := by
    rw [List.flatMap_map, List.map_flatMap]
    apply List.flatMap_congr
    intro file member
    rw [holds.contents file member, List.filter_filter]
    congr 1
    apply List.filter_congr
    intro item _
    by_cases keyed : filing.keyOf item = some (filing.name file) <;> simp [keyed]
  rw [byKey]
  refine (flatMap_filter_perm filing.keyOf _ ?_ _ ?_).map filing.entry
  · simpa [Function.comp_def] using holds.distinct.map fun _ _ same => Option.some.inj same
  · intro item member
    obtain ⟨itemIn, hasKey⟩ := List.mem_filter.mp member
    obtain ⟨key, keyed⟩ := Option.isSome_iff_exists.mp hasKey
    obtain ⟨file, fileIn, rfl⟩ := List.mem_map.mp (holds.covered item itemIn key keyed)
    exact List.mem_map.mpr ⟨file, fileIn, keyed.symm⟩

end Holds

end Filing

end Flowplan
