import Flowplan.Job.Snapshot
import Flowplan.Proofs.JobGraphs
import Mathlib.Data.List.Perm.Subperm

/-!
# What snapshots tell apart

Bags and snapshots are compared in one direction only: they have to be of one size, and what the
first one holds the second one has to hold too. Nothing is held twice, so nothing is then left over
in the second one, and the test means that both hold the same (`Bag.Filled.agrees_iff`,
`Snapshot.agrees_iff`).

A snapshot files vertices and edges under texts that begin differently, whatever the ids are. So it
has one entry for each element, and two snapshots agree exactly if their graphs have the same
vertices and edges by id, each with the same properties.
-/

namespace Flowplan

/-! ## One size and one direction -/

/-- A list without repetitions that is included in one of its length lists the same. -/
theorem perm_of_included {α : Type} {list other : List α} (distinct : list.Nodup)
    (included : ∀ value ∈ list, value ∈ other) (sizes : list.length = other.length) :
    list.Perm other :=
  (List.subperm_of_subset distinct included).perm_of_length_le (Nat.le_of_eq sizes.symm)

namespace Bag

variable {bag other : Bag} {target otherTarget : Target}

/-- A filled bag agrees with itself. -/
theorem Filled.agrees_self (filled : Filled target bag) : bag.agrees (some bag) = true := by
  have held : ∀ value ∈ bag.values, bag.get? value.kind = some value :=
    fun value member => (filled.mem_iff value).mp member
  simpa [agrees] using held

/-- Filled bags agree exactly if they are the same bag. -/
theorem Filled.agrees_iff (filled : Filled target bag) (otherFilled : Filled otherTarget other) :
    bag.agrees (some other) = true ↔ bag = other := by
  constructor
  · intro agreed
    simp only [agrees, Bool.and_eq_true, decide_eq_true_eq, List.all_eq_true] at agreed
    obtain ⟨⟨targets, sizes⟩, held⟩ := agreed
    obtain rfl : target = otherTarget := by
      rw [← filled.target_eq, targets, otherFilled.target_eq]
    have same : bag.values.Perm other.values :=
      perm_of_included filled.values_distinct
        (fun value member => (otherFilled.mem_iff value).mpr (held value member)) sizes
    refine filled.ext otherFilled fun kind => Option.ext fun value => ?_
    constructor
    · intro read
      obtain ⟨member, rfl⟩ := bag.get?_some kind value read
      exact held value member
    · intro read
      obtain ⟨member, rfl⟩ := other.get?_some kind value read
      exact (filled.mem_iff value).mp (same.mem_iff.mpr member)
  · rintro rfl
    exact filled.agrees_self

/-- To agree is an equivalence between bags that accepted values lead to. -/
theorem agrees_equivalence :
    Equivalence fun one two : { bag : Bag // bag.Filled bag.target } =>
      one.val.agrees (some two.val) = true := by
  have same : ∀ one two : { bag : Bag // bag.Filled bag.target },
      one.val.agrees (some two.val) = true ↔ one.val = two.val :=
    fun one two => one.property.agrees_iff two.property
  constructor
  · intro one
    exact (same one one).mpr rfl
  · intro one two agreed
    exact (same two one).mpr ((same one two).mp agreed).symm
  · intro one two three first second
    exact (same one three).mpr (((same one two).mp first).trans ((same two three).mp second))

section Entries

variable {α : Type} {id : α → String} {bag : α → Bag} {target : Target} {items others : List α}

/-- Items are found among others by id and bag if there are others of their ids with the same
values. -/
theorem entry_found (filled : ∀ item ∈ items, (bag item).Filled target)
    (otherFilled : ∀ item ∈ others, (bag item).Filled target)
    (named : ∀ name ∈ items.map id, name ∈ others.map id)
    (values : ∀ one ∈ items, ∀ two ∈ others, id one = id two →
      ∀ kind, (bag one).get? kind = (bag two).get? kind) :
    ∀ entry ∈ items.map fun item => (id item, bag item),
      entry ∈ others.map fun item => (id item, bag item) := by
  intro entry member
  obtain ⟨one, oneIn, rfl⟩ := List.mem_map.mp member
  obtain ⟨two, twoIn, sameId⟩ := List.mem_map.mp (named _ (List.mem_map_of_mem oneIn))
  have same : bag one = bag two :=
    (filled one oneIn).ext (otherFilled two twoIn) (values one oneIn two twoIn sameId.symm)
  exact List.mem_map.mpr ⟨two, twoIn, by rw [sameId, same]⟩

/-- Items have the ids and bags of others exactly if they have the same ids and, for each id, the
same values. -/
theorem same_entries_iff (otherDistinct : (others.map id).Nodup)
    (filled : ∀ item ∈ items, (bag item).Filled target)
    (otherFilled : ∀ item ∈ others, (bag item).Filled target) :
    (∀ entry, entry ∈ items.map (fun item => (id item, bag item)) ↔
        entry ∈ others.map fun item => (id item, bag item)) ↔
      (∀ name, name ∈ items.map id ↔ name ∈ others.map id) ∧
        ∀ one ∈ items, ∀ two ∈ others, id one = id two →
          ∀ kind, (bag one).get? kind = (bag two).get? kind := by
  constructor
  · intro same
    refine ⟨?_, ?_⟩
    · have names : ∀ list : List α,
          list.map id = (list.map fun item => (id item, bag item)).map Prod.fst := by simp
      intro name
      rw [names items, names others]
      simp only [List.mem_map (f := Prod.fst), same]
    · intro one oneIn two twoIn sameId kind
      obtain ⟨found, foundIn, entry⟩ := List.mem_map.mp ((same _).mp (List.mem_map_of_mem oneIn))
      obtain ⟨foundId, foundBag⟩ := Prod.mk.inj entry
      obtain rfl : found = two :=
        List.inj_on_of_nodup_map otherDistinct foundIn twoIn (foundId.trans sameId)
      rw [foundBag]
  · rintro ⟨names, values⟩ entry
    constructor
    · exact entry_found filled otherFilled (fun name => (names name).mp) values entry
    · refine entry_found otherFilled filled (fun name => (names name).mpr) ?_ entry
      intro two twoIn one oneIn sameId kind
      exact (values one oneIn two twoIn sameId.symm kind).symm

end Entries

end Bag

namespace Snapshot

/-- No key is filed under twice, and accepted values lead to every bag. -/
structure Proper (snapshot : Snapshot) : Prop where
  distinct : (snapshot.entries.map Prod.fst).Nodup
  filled : ∀ entry ∈ snapshot.entries, entry.2.Filled entry.2.target

/-- A proper snapshot finds under a key what is filed there. -/
theorem Proper.get?_iff {snapshot : Snapshot} (proper : snapshot.Proper) (key : String)
    (bag : Bag) : snapshot.get? key = some bag ↔ (key, bag) ∈ snapshot.entries :=
  lookup_iff_mem_of_distinct snapshot.entries proper.distinct key bag

/-- Proper snapshots agree exactly if the same is filed in both. -/
theorem agrees_iff {left right : Snapshot} (leftProper : left.Proper) (rightProper : right.Proper) :
    left.agrees right = true ↔ ∀ entry, entry ∈ left.entries ↔ entry ∈ right.entries := by
  have found : ∀ entry ∈ left.entries,
      entry.2.agrees (right.get? entry.1) = true ↔ entry ∈ right.entries := by
    rintro ⟨key, bag⟩ member
    rw [← rightProper.get?_iff]
    cases filed : right.get? key with
    | none => simp [Bag.agrees]
    | some other =>
        have otherIn := (rightProper.get?_iff key other).mp filed
        rw [(leftProper.filled _ member).agrees_iff (rightProper.filled _ otherIn),
          Option.some.injEq, eq_comm]
  simp only [agrees, Bool.and_eq_true, decide_eq_true_eq, List.all_eq_true]
  constructor
  · rintro ⟨sizes, agreed⟩
    have same := perm_of_included leftProper.distinct.of_map
      (fun entry member => (found entry member).mp (agreed entry member)) sizes
    exact fun entry => same.mem_iff
  · intro same
    have listed : left.entries.Perm right.entries :=
      (List.perm_ext_iff_of_nodup leftProper.distinct.of_map rightProper.distinct.of_map).mpr same
    exact ⟨listed.length_eq, fun entry member => (found entry member).mpr ((same entry).mp member)⟩

/-- To agree is an equivalence between proper snapshots. -/
theorem agrees_equivalence :
    Equivalence fun one two : { snapshot : Snapshot // snapshot.Proper } =>
      one.val.agrees two.val = true := by
  have same : ∀ one two : { snapshot : Snapshot // snapshot.Proper },
      one.val.agrees two.val = true ↔ ∀ entry, entry ∈ one.val.entries ↔ entry ∈ two.val.entries :=
    fun one two => agrees_iff one.property two.property
  constructor
  · intro one
    exact (same one one).mpr fun _ => Iff.rfl
  · intro one two agreed
    exact (same two one).mpr fun entry => ((same one two).mp agreed entry).symm
  · intro one two three first second
    exact (same one three).mpr fun entry =>
      ((same one two).mp first entry).trans ((same two three).mp second entry)

/-! ## Filing -/

/-- A bag goes behind the others if nothing was filed under its key. -/
theorem file_new {key : String} {bag : Bag} {entries : List (String × Bag)}
    (new : key ∉ entries.map Prod.fst) : file key bag entries = entries ++ [(key, bag)] := by
  induction entries with
  | nil => rfl
  | cons first rest inductionHypothesis =>
      have ⟨notHere, notLater⟩ := List.ne_and_not_mem_of_not_mem_cons new
      rw [file, if_neg (Ne.symm notHere), inductionHypothesis notLater, List.cons_append]

/-- Elements with different keys are filed one behind the other. -/
theorem file_all (elements : List Element) (entries : List (String × Bag))
    (distinct : (entries.map Prod.fst ++ elements.map Element.snapshotKey).Nodup) :
    elements.foldl (fun filed element => file element.snapshotKey element.bag filed) entries =
      entries ++ elements.map fun element => (element.snapshotKey, element.bag) := by
  induction elements generalizing entries with
  | nil => simp
  | cons element rest inductionHypothesis =>
      have new : element.snapshotKey ∉ entries.map Prod.fst := by
        intro old
        exact (List.nodup_append.mp distinct).2.2 _ old _ List.mem_cons_self rfl
      rw [List.foldl_cons, file_new new, inductionHypothesis]
      · simp
      · simpa using distinct

end Snapshot

namespace JobGraph

/-- What a snapshot files: every vertex and every edge under its id, behind a word for which of the
two it is. -/
def filings (graph : JobGraph) : List (String × Bag) :=
  (graph.vertices.map fun vertex => ("vertex/" ++ vertex.id, vertex.bag)) ++
    graph.edges.map fun edge => ("edge/" ++ edge.id, edge.bag)

/-- Two graphs have vertices of the same ids and edges of the same ids, and those of one id hold the
same values. -/
structure SameProperties (left right : JobGraph) : Prop where
  vertexIds : ∀ id, id ∈ left.vertices.map Vertex.id ↔ id ∈ right.vertices.map Vertex.id
  edgeIds : ∀ id, id ∈ left.edges.map Edge.id ↔ id ∈ right.edges.map Edge.id
  vertexValues : ∀ one ∈ left.vertices, ∀ two ∈ right.vertices, one.id = two.id →
    ∀ kind, one.bag.get? kind = two.bag.get? kind
  edgeValues : ∀ one ∈ left.edges, ∀ two ∈ right.edges, one.id = two.id →
    ∀ kind, one.bag.get? kind = two.bag.get? kind

/-! ## Keys -/

/-- No vertex is filed where an edge is, since the keys begin with different letters. -/
theorem keys_apart (id other : String) : "vertex/" ++ id ≠ "edge/" ++ other := by
  intro same
  have letters := congrArg (fun text => text.toList.head?) same
  simp at letters

variable {graph : JobGraph}

/-- What is filed as a vertex is the bag of a vertex of this id. -/
theorem mem_filings_vertex (id : String) (bag : Bag) :
    ("vertex/" ++ id, bag) ∈ graph.filings ↔
      (id, bag) ∈ graph.vertices.map fun vertex => (vertex.id, vertex.bag) := by
  have apart : ∀ other, "edge/" ++ other ≠ "vertex/" ++ id :=
    fun other => (keys_apart id other).symm
  simp [filings, apart]

/-- What is filed as an edge is the bag of an edge of this id. -/
theorem mem_filings_edge (id : String) (bag : Bag) :
    ("edge/" ++ id, bag) ∈ graph.filings ↔
      (id, bag) ∈ graph.edges.map fun edge => (edge.id, edge.bag) := by
  have apart : ∀ other, "vertex/" ++ other ≠ "edge/" ++ id := fun other => keys_apart other id
  simp [filings, apart]

/-- No two vertices of a sound graph have the same id. -/
theorem Sound.vertex_ids_distinct (sound : graph.Sound) :
    (graph.vertices.map Vertex.id).Nodup := by
  rw [← sound.ids_eq]
  exact sound.intact.distinct

/-- Nothing is filed twice. -/
theorem Sound.filings_distinct (sound : graph.Sound) : (graph.filings.map Prod.fst).Nodup := by
  have keys : graph.filings.map Prod.fst = (graph.vertices.map Vertex.id).map ("vertex/" ++ ·) ++
      (graph.edges.map Edge.id).map ("edge/" ++ ·) := by
    simp [filings, Function.comp_def]
  rw [keys]
  refine List.nodup_append.mpr
    ⟨sound.vertex_ids_distinct.map ?_, sound.edge_ids_distinct.map ?_, ?_⟩
  · exact fun _ _ same => (String.append_right_inj _).mp same
  · exact fun _ _ same => (String.append_right_inj _).mp same
  · intro key ofVertex other ofEdge same
    obtain ⟨id, _, rfl⟩ := List.mem_map.mp ofVertex
    obtain ⟨otherId, _, rfl⟩ := List.mem_map.mp ofEdge
    exact keys_apart id otherId same

/-- Elements are filed under the names of their targets, which tell vertices from edges. -/
theorem Sound.elements_filed (sound : graph.Sound) :
    (graph.elements.map fun element => (element.snapshotKey, element.bag)).Perm graph.filings := by
  have vertices : ∀ vertex ∈ graph.vertices,
      (Element.vertex vertex).snapshotKey = "vertex/" ++ vertex.id := by
    intro vertex member
    simp only [Element.snapshotKey, Element.bag, (sound.vertices vertex member).target_eq]
    rfl
  have edges : ∀ edge ∈ graph.edges, (Element.edge edge).snapshotKey = "edge/" ++ edge.id := by
    intro edge member
    simp only [Element.snapshotKey, Element.bag, (sound.edges edge member).target_eq]
    rfl
  rw [elements, List.map_append, List.map_map, List.map_map]
  refine List.Perm.append ?_ (List.Perm.of_eq (List.map_congr_left ?_))
  · refine (sound.intact.topological_perm.map _).trans (List.Perm.of_eq (List.map_congr_left ?_))
    intro vertex member
    exact congrArg (·, vertex.bag) (vertices vertex member)
  · intro edge member
    exact congrArg (·, edge.bag) (edges edge member)

/-- A snapshot has one entry for each vertex and each edge. -/
theorem Sound.snapshot_perm (sound : graph.Sound) :
    (Snapshot.take graph).entries.Perm graph.filings := by
  have distinct : (graph.elements.map Element.snapshotKey).Nodup := by
    have keys := (sound.elements_filed.map Prod.fst).nodup_iff.mpr sound.filings_distinct
    rw [List.map_map] at keys
    exact keys
  have taken : (Snapshot.take graph).entries =
      graph.elements.map fun element => (element.snapshotKey, element.bag) :=
    Snapshot.file_all graph.elements [] distinct
  rw [taken]
  exact sound.elements_filed

/-- The snapshot of a sound graph is proper. -/
theorem Sound.snapshot_proper (sound : graph.Sound) : (Snapshot.take graph).Proper := by
  refine ⟨(sound.snapshot_perm.map _).nodup_iff.mpr sound.filings_distinct, ?_⟩
  intro entry member
  rcases List.mem_append.mp (sound.snapshot_perm.mem_iff.mp member) with ofVertex | ofEdge
  · obtain ⟨vertex, vertexIn, rfl⟩ := List.mem_map.mp ofVertex
    have filled := sound.vertices vertex vertexIn
    exact filled.target_eq.symm ▸ filled
  · obtain ⟨edge, edgeIn, rfl⟩ := List.mem_map.mp ofEdge
    have filled := sound.edges edge edgeIn
    exact filled.target_eq.symm ▸ filled

/-! ## Comparing graphs by what is filed -/

/-- What is filed of a graph is filed of another one whose vertices and edges include those of the
first by id and bag. -/
theorem filings_included {left right : JobGraph}
    (vertices : ∀ entry, entry ∈ left.vertices.map (fun vertex => (vertex.id, vertex.bag)) →
      entry ∈ right.vertices.map fun vertex => (vertex.id, vertex.bag))
    (edges : ∀ entry, entry ∈ left.edges.map (fun edge => (edge.id, edge.bag)) →
      entry ∈ right.edges.map fun edge => (edge.id, edge.bag)) :
    ∀ entry ∈ left.filings, entry ∈ right.filings := by
  intro entry member
  rcases List.mem_append.mp member with ofVertex | ofEdge
  · obtain ⟨vertex, vertexIn, rfl⟩ := List.mem_map.mp ofVertex
    exact (mem_filings_vertex _ _).mpr (vertices _ (List.mem_map_of_mem vertexIn))
  · obtain ⟨edge, edgeIn, rfl⟩ := List.mem_map.mp ofEdge
    exact (mem_filings_edge _ _).mpr (edges _ (List.mem_map_of_mem edgeIn))

/-- The same is filed of two graphs exactly if it is for their vertices and for their edges. -/
theorem same_filings_iff (left right : JobGraph) :
    (∀ entry, entry ∈ left.filings ↔ entry ∈ right.filings) ↔
      (∀ entry, entry ∈ left.vertices.map (fun vertex => (vertex.id, vertex.bag)) ↔
        entry ∈ right.vertices.map fun vertex => (vertex.id, vertex.bag)) ∧
      ∀ entry, entry ∈ left.edges.map (fun edge => (edge.id, edge.bag)) ↔
        entry ∈ right.edges.map fun edge => (edge.id, edge.bag) := by
  constructor
  · intro same
    refine ⟨?_, ?_⟩
    · rintro ⟨id, bag⟩
      rw [← mem_filings_vertex, ← mem_filings_vertex, same]
    · rintro ⟨id, bag⟩
      rw [← mem_filings_edge, ← mem_filings_edge, same]
  · rintro ⟨vertices, edges⟩ entry
    constructor
    · exact filings_included (fun entry => (vertices entry).mp) (fun entry => (edges entry).mp)
        entry
    · exact filings_included (fun entry => (vertices entry).mpr) (fun entry => (edges entry).mpr)
        entry

/-- Sound graphs have the same properties exactly if the same is filed of both. -/
theorem Sound.sameProperties_iff {left right : JobGraph} (leftSound : left.Sound)
    (rightSound : right.Sound) :
    left.SameProperties right ↔ ∀ entry, entry ∈ left.filings ↔ entry ∈ right.filings := by
  rw [same_filings_iff,
    Bag.same_entries_iff rightSound.vertex_ids_distinct leftSound.vertices rightSound.vertices,
    Bag.same_entries_iff rightSound.edge_ids_distinct leftSound.edges rightSound.edges]
  constructor
  · rintro ⟨vertexIds, edgeIds, vertexValues, edgeValues⟩
    exact ⟨⟨vertexIds, vertexValues⟩, edgeIds, edgeValues⟩
  · rintro ⟨⟨vertexIds, vertexValues⟩, edgeIds, edgeValues⟩
    exact ⟨vertexIds, edgeIds, vertexValues, edgeValues⟩

end JobGraph

/-- The snapshots of two made graphs agree exactly if the graphs have vertices and edges of the same
ids, each with the same value under every kind.

A snapshot has one entry for each vertex and one for each edge, whatever their ids are. To agree is
an equivalence between bags in use, and between snapshots that file such bags, as the snapshots of
made graphs do. -/
theorem snapshots_tell_properties (left right : JobGraph) (leftMade : left.Made)
    (rightMade : right.Made) :
    ((Snapshot.take left).agrees (Snapshot.take right) = true ↔ left.SameProperties right) ∧
    (Snapshot.take left).entries.Perm
      ((left.vertices.map fun vertex => ("vertex/" ++ vertex.id, vertex.bag)) ++
        left.edges.map fun edge => ("edge/" ++ edge.id, edge.bag)) ∧
    (Snapshot.take left).Proper ∧
    Equivalence (fun one two : { bag : Bag // bag.Filled bag.target } =>
      one.val.agrees (some two.val) = true) ∧
    Equivalence fun one two : { snapshot : Snapshot // snapshot.Proper } =>
      one.val.agrees two.val = true := by
  have leftSound := leftMade.sound
  have rightSound := rightMade.sound
  have leftProper := leftSound.snapshot_proper
  refine ⟨?_, leftSound.snapshot_perm, leftProper, Bag.agrees_equivalence,
    Snapshot.agrees_equivalence⟩
  rw [Snapshot.agrees_iff leftProper rightSound.snapshot_proper,
    leftSound.sameProperties_iff rightSound]
  simp only [leftSound.snapshot_perm.mem_iff, rightSound.snapshot_perm.mem_iff]

/-- A vertex and an edge of one id, which has a slash. -/
def namesakes : JobGraph where
  vertices := [.bare "a/b" none, .bare "c" none]
  edges := [.bare "a/b" "a/b" "c"]
  ids := ["a/b", "c"]
  links := [⟨"a/b", "a/b", "c"⟩]
  order := [0, 1]

/-- A builder hands this graph out. -/
theorem namesakes_made : namesakes.Made := by
  refine .ofLists namesakes.vertices namesakes.edges ?_ ?_ rfl rfl rfl
  · simp only [namesakes, List.forall_mem_cons]
    exact ⟨.empty, .empty, nofun⟩
  · simp only [namesakes, List.forall_mem_cons]
    exact ⟨.empty, nofun⟩

/-- The same graph with an encoder on its edge. -/
def namesakesEncoded : JobGraph :=
  namesakes.setBag (.edge 0) ⟨.edge, [.encoder "x"]⟩

/-- The encoder is accepted, so this graph is made as well. -/
theorem namesakesEncoded_made : namesakesEncoded.Made :=
  .annotated (.edge 0) (some (.encoder "x")) namesakes_made rfl

/-- The vertex and the edge of one id have an entry each, and the encoder on the edge is noticed. -/
theorem namesakes_told :
    namesakes.Made ∧ namesakesEncoded.Made ∧
      (Snapshot.take namesakes).entries.Perm
        [("vertex/a/b", .empty .vertex), ("vertex/c", .empty .vertex),
          ("edge/a/b", .empty .edge)] ∧
      (Snapshot.take namesakes).agrees (Snapshot.take namesakes) = true ∧
      (Snapshot.take namesakes).agrees (Snapshot.take namesakesEncoded) = false := by
  obtain ⟨_, entries, proper, _, equivalence⟩ :=
    snapshots_tell_properties namesakes namesakes namesakes_made namesakes_made
  obtain ⟨encoded, _⟩ :=
    snapshots_tell_properties namesakes namesakesEncoded namesakes_made namesakesEncoded_made
  refine ⟨namesakes_made, namesakesEncoded_made, entries, equivalence.refl ⟨_, proper⟩, ?_⟩
  rw [← Bool.not_eq_true, encoded]
  intro same
  have read := same.edgeValues (.bare "a/b" "a/b" "c") List.mem_cons_self
    ⟨"a/b", "a/b", "c", ⟨.edge, [.encoder "x"]⟩⟩ List.mem_cons_self rfl .encoder
  cases read

end Flowplan
