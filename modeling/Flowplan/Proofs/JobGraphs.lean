import Flowplan.Job.Graph
import Flowplan.Proofs.Bags
import Flowplan.Proofs.BuiltGraphs
import Flowplan.Proofs.Classes
import Mathlib.Logic.Relation

/-!
# Job graphs and their components

A job graph is `Made` by a builder from vertices and edges with filled bags, and by storing
further values in the bags afterwards. It stays intact through all of this.

Edges that do not shuffle divide the vertices into components: two vertices are `Joined` if a
path of such edges connects them, whatever the directions of the edges. The shuffles lead from
component to component (`Crosses`). All of this is said about the graph alone.
-/

namespace Flowplan.JobGraph

/-- Job graphs which a builder handed out, with the values stored in them since. -/
inductive Made : JobGraph → Prop
  | built {builder : Builder Vertex Edge} {graph : JobGraph} (reached : builder.Reached)
      (vertices : ∀ vertex ∈ builder.vertices, vertex.bag.Filled .vertex)
      (edges : ∀ edge ∈ builder.edges, edge.bag.Filled .edge)
      (handedOut : builder.build = .ok graph) : Made graph
  | annotated {graph after : JobGraph} (place : Place) (value : Option Value)
      (before : Made graph) (stored : graph.setAt place value = .ok after) : Made after

/-- Two vertices are the ends of an edge that does not shuffle, in either direction. -/
def Adjacent (graph : JobGraph) (left right : String) : Prop :=
  ∃ edge ∈ graph.edges, edge.isShuffle = false ∧
    (edge.source = left ∧ edge.destination = right ∨
      edge.source = right ∧ edge.destination = left)

/-- A path of edges that do not shuffle connects two vertices. -/
def Joined (graph : JobGraph) : String → String → Prop :=
  Relation.ReflTransGen graph.Adjacent

/-- A shuffle goes from the component of one vertex to the component of another. -/
def Crosses (graph : JobGraph) (left right : String) : Prop :=
  ∃ edge ∈ graph.edges, edge.isShuffle = true ∧ graph.Joined left edge.source ∧
    graph.Joined edge.destination right

/-- An edge is a shuffle within one component. -/
def Encloses (graph : JobGraph) (edge : Edge) : Prop :=
  edge.isShuffle = true ∧ graph.Joined edge.source edge.destination

/-- A round of shuffles leads from a component back to itself. -/
def Entangled (graph : JobGraph) : Prop :=
  ∃ id, Relation.TransGen graph.Crosses id id

/-- The edges by the topological order of their destinations, and then by insertion. -/
def arrivals (graph : JobGraph) : List Edge :=
  graph.topological.flatMap fun vertex => graph.incoming vertex.id

/-! ## Values stored in the bags -/

/-- Replacing one member by one that looks alike changes no looks. -/
theorem map_modify_of_same {α β : Type} (look : α → β) (revise : α → α)
    (same : ∀ value, look (revise value) = look value) (list : List α) (position : Nat) :
    (list.modify position revise).map look = list.map look := by
  apply List.ext_getElem?
  intro asked
  simp only [List.getElem?_map, List.getElem?_modify]
  cases list[asked]? with
  | none => simp
  | some value => by_cases here : position = asked <;> simp [here, same]

/-- What a list holds after one member was revised it held before, or it is the revised member. -/
theorem mem_modify {α : Type} (revise : α → α) (list : List α) (position : Nat) (value : α)
    (member : value ∈ list.modify position revise) :
    value ∈ list ∨ ∃ former, list[position]? = some former ∧ value = revise former := by
  obtain ⟨asked, stands⟩ := List.mem_iff_getElem?.mp member
  rw [List.getElem?_modify] at stands
  obtain ⟨former, atAsked, rfl⟩ := Option.map_eq_some_iff.mp stands
  by_cases here : position = asked
  · subst here
    exact Or.inr ⟨former, atAsked, by simp⟩
  · refine Or.inl (List.mem_iff_getElem?.mpr ⟨asked, ?_⟩)
    simp [atAsked, here]

/-- Replacing a bag keeps the shape of a graph. -/
theorem setBag_alike (graph : JobGraph) (place : Place) (bag : Bag) :
    graph.Alike (graph.setBag place bag) := by
  cases place with
  | vertex position =>
      refine ⟨rfl, rfl, rfl, ?_, rfl⟩
      exact map_modify_of_same Node.id (fun vertex : Vertex => { vertex with bag := bag })
        (fun _ => rfl) graph.vertices position
  | edge position =>
      refine ⟨rfl, rfl, rfl, rfl, ?_⟩
      exact map_modify_of_same Arc.link (fun edge : Edge => { edge with bag := bag })
        (fun _ => rfl) graph.edges position

/-- A made graph is intact, and its bags are filled. -/
structure Sound (graph : JobGraph) : Prop where
  intact : graph.Intact
  vertices : ∀ vertex ∈ graph.vertices, vertex.bag.Filled .vertex
  edges : ∀ edge ∈ graph.edges, edge.bag.Filled .edge

/-- Storing a value replaces one bag by what it becomes, if there is an element at all. -/
theorem setAt_cases (graph after : JobGraph) (place : Place) (value : Option Value)
    (stored : graph.setAt place value = .ok after) :
    after = graph ∨ ∃ element bag, graph.element? place = some element ∧
      element.bag.set value = .ok bag ∧ after = graph.setBag place bag := by
  unfold setAt at stored
  cases found : graph.element? place with
  | none =>
      rw [found] at stored
      exact Or.inl (Except.ok.inj stored).symm
  | some element =>
      rw [found] at stored
      cases result : element.bag.set value with
      | error fault => simp [result, Except.map] at stored
      | ok bag =>
          simp only [result, Except.map, Except.ok.injEq] at stored
          exact Or.inr ⟨element, bag, rfl, result, stored.symm⟩

/-- Storing a value at one place keeps the shape of a graph. -/
theorem setAt_alike {graph after : JobGraph} {place : Place} {value : Option Value}
    (stored : graph.setAt place value = .ok after) : graph.Alike after := by
  rcases setAt_cases graph after place value stored with rfl | ⟨_, bag, _, _, rfl⟩
  · exact .refl _
  · exact setBag_alike graph place bag

/-- What holds after every single value that is stored holds after storing at many places, whether
or not a value is refused on the way. -/
theorem setWhere_induction {value : Option Value} (holds : JobGraph → Prop)
    (step : ∀ {now next : JobGraph} {place : Place}, holds now → now.setAt place value = .ok next →
      holds next)
    {graph after : JobGraph} {selects : Element → Bool} {places : List Place}
    {fault : Option Fault} (start : holds graph)
    (stored : graph.setWhere selects value places = (fault, after)) : holds after := by
  induction places generalizing graph with
  | nil =>
      obtain ⟨_, rfl⟩ := Prod.mk.inj stored
      exact start
  | cons place rest inductionHypothesis =>
      rw [setWhere] at stored
      split at stored
      · cases one : graph.setAt place value with
        | error refusal =>
            rw [one] at stored
            obtain ⟨_, rfl⟩ := Prod.mk.inj stored
            exact start
        | ok changed =>
            rw [one] at stored
            exact inductionHypothesis (step start one) stored
      · exact inductionHypothesis start stored

/-- Storing a value at several places keeps the shape of a graph. -/
theorem setWhere_alike {graph after : JobGraph} {selects : Element → Bool} {value : Option Value}
    {places : List Place} {fault : Option Fault}
    (stored : graph.setWhere selects value places = (fault, after)) : graph.Alike after :=
  setWhere_induction graph.Alike (fun alike one => alike.trans (setAt_alike one)) (.refl graph)
    stored

/-- Storing a value at several places leaves a made graph made. -/
theorem Made.setWhere {graph after : JobGraph} (made : graph.Made) {selects : Element → Bool}
    {value : Option Value} {places : List Place} {fault : Option Fault}
    (stored : graph.setWhere selects value places = (fault, after)) : after.Made :=
  setWhere_induction Made (fun before one => .annotated _ _ before one) made stored

/-- Storing a value keeps a graph sound. -/
theorem Sound.setAt {graph after : JobGraph} (sound : graph.Sound) (place : Place)
    (value : Option Value) (stored : graph.setAt place value = .ok after) : after.Sound := by
  rcases setAt_cases graph after place value stored with rfl | ⟨element, bag, found, set, rfl⟩
  · exact sound
  · refine ⟨sound.intact.congr (setBag_alike graph place bag), ?_, ?_⟩
    · intro vertex member
      cases place with
      | edge position => exact sound.vertices vertex member
      | vertex position =>
          rcases mem_modify _ _ _ vertex member with old | ⟨former, stands, rfl⟩
          · exact sound.vertices vertex old
          · obtain rfl : element = .vertex former := by
              simpa [element?, stands] using found.symm
            exact .set value (sound.vertices former (List.mem_of_getElem? stands)) set
    · intro edge member
      cases place with
      | vertex position => exact sound.edges edge member
      | edge position =>
          rcases mem_modify _ _ _ edge member with old | ⟨former, stands, rfl⟩
          · exact sound.edges edge old
          · obtain rfl : element = .edge former := by
              simpa [element?, stands] using found.symm
            exact .set value (sound.edges former (List.mem_of_getElem? stands)) set

/-- Made graphs are sound. -/
theorem Made.sound {graph : JobGraph} (made : graph.Made) : graph.Sound := by
  induction made with
  | built reached vertices edges handedOut =>
      obtain ⟨intact, sameVertices, sameEdges⟩ := reached.proper.build_intact _ handedOut
      exact ⟨intact, sameVertices ▸ vertices, sameEdges ▸ edges⟩
  | annotated place value _ stored inductionHypothesis =>
      exact inductionHypothesis.setAt place value stored

/-- Lists of filled elements that a builder accepts make a graph. -/
theorem Made.ofLists {graph : JobGraph} (vertices : List Vertex) (edges : List Edge)
    {withVertices complete : Builder Vertex Edge}
    (filledVertices : ∀ vertex ∈ vertices, vertex.bag.Filled .vertex)
    (filledEdges : ∀ edge ∈ edges, edge.bag.Filled .edge)
    (added : Builder.empty.addVertices vertices = .ok withVertices)
    (connected : withVertices.connectAll edges = .ok complete)
    (handedOut : complete.build = .ok graph) : graph.Made := by
  obtain ⟨reachedVertices, allVertices, noEdges⟩ :=
    Builder.Reached.empty.addVertices vertices added
  obtain ⟨reached, sameVertices, allEdges⟩ := reachedVertices.connectAll edges connected
  refine .built reached ?_ ?_ handedOut
  · rw [sameVertices, allVertices]
    exact filledVertices
  · rw [allEdges, noEdges]
    exact filledEdges

/-- The index of a sound graph lists the ids of its vertices. -/
theorem Sound.ids_eq {graph : JobGraph} (sound : graph.Sound) :
    graph.ids = graph.vertices.map Vertex.id :=
  sound.intact.indexed

/-- No two edges of a sound graph have the same id. -/
theorem Sound.edge_ids_distinct {graph : JobGraph} (sound : graph.Sound) :
    (graph.edges.map Edge.id).Nodup := by
  have distinct := sound.intact.distinctLinks
  rw [sound.intact.linked, List.map_map] at distinct
  exact distinct

/-- The topological order of a sound graph lists all ids. -/
theorem Sound.topological_perm {graph : JobGraph} (sound : graph.Sound) :
    (graph.topological.map Vertex.id).Perm graph.ids :=
  sound.intact.topological_ids_perm

/-! ## Components -/

/-- Vertices are adjacent in either order. -/
theorem adjacent_symm (graph : JobGraph) (left right : String)
    (adjacent : graph.Adjacent left right) : graph.Adjacent right left := by
  obtain ⟨edge, member, plain, ends⟩ := adjacent
  exact ⟨edge, member, plain, ends.symm⟩

/-- Vertices are joined in either order. -/
theorem Joined.symm {graph : JobGraph} {left right : String} (joined : graph.Joined left right) :
    graph.Joined right left := by
  induction joined with
  | refl => exact .refl
  | tail _ adjacent inductionHypothesis =>
      exact .head (adjacent_symm graph _ _ adjacent) inductionHypothesis

/-- The ends of an edge that does not shuffle are joined. -/
theorem joined_of_plain (graph : JobGraph) (edge : Edge) (member : edge ∈ graph.edges)
    (plain : edge.isShuffle = false) : graph.Joined edge.source edge.destination :=
  .single ⟨edge, member, plain, Or.inl ⟨rfl, rfl⟩⟩

/-- The ends of the edges that do not shuffle. -/
def plainPairs (edges : List Edge) : List (String × String) :=
  (edges.filter fun edge => edge.isShuffle = false).map fun edge => (edge.source, edge.destination)

/-- Two keys are paired exactly if an edge that does not shuffle leads from one to the other. -/
theorem paired_plainPairs_iff (edges : List Edge) (left right : String) :
    DisjointSets.Paired (plainPairs edges) left right ↔
      ∃ edge ∈ edges, edge.isShuffle = false ∧ edge.source = left ∧ edge.destination = right := by
  simp [DisjointSets.Paired, plainPairs, and_assoc]

/-- Being joined is the least equivalence that relates the ends of the edges that do not
shuffle, in whatever order these are listed. -/
theorem joined_iff_eqvGen (graph : JobGraph) (edges : List Edge)
    (same : ∀ edge, edge ∈ edges ↔ edge ∈ graph.edges) (left right : String) :
    graph.Joined left right ↔
      Relation.EqvGen (DisjointSets.Paired (plainPairs edges)) left right := by
  have adjacent : graph.Adjacent = Relation.SymmGen (DisjointSets.Paired (plainPairs edges)) := by
    funext one two
    apply propext
    have either : Relation.SymmGen (DisjointSets.Paired (plainPairs edges)) one two ↔
        DisjointSets.Paired (plainPairs edges) one two ∨
          DisjointSets.Paired (plainPairs edges) two one := Iff.rfl
    simp only [either, paired_plainPairs_iff, same, Adjacent]
    constructor
    · rintro ⟨edge, member, plain, forth | back⟩
      · exact Or.inl ⟨edge, member, plain, forth⟩
      · exact Or.inr ⟨edge, member, plain, back⟩
    · rintro (⟨edge, member, plain, forth⟩ | ⟨edge, member, plain, back⟩)
      · exact ⟨edge, member, plain, Or.inl forth⟩
      · exact ⟨edge, member, plain, Or.inr back⟩
  rw [Joined, adjacent, Relation.EqvGen.reflTransGen_symmGen]

/-- Known vertices are joined to known vertices only. -/
theorem Sound.joined_known {graph : JobGraph} (sound : graph.Sound) {left right : String}
    (joined : graph.Joined left right) (known : left ∈ graph.ids) : right ∈ graph.ids := by
  induction joined with
  | refl => exact known
  | tail _ adjacent _ =>
      obtain ⟨edge, member, _, ⟨_, rfl⟩ | ⟨rfl, _⟩⟩ := adjacent
      · exact (sound.intact.ends edge member).2.1
      · exact (sound.intact.ends edge member).1

/-- The edges of a sound graph lead between known vertices. -/
theorem Sound.ends_known {graph : JobGraph} (sound : graph.Sound) (edge : Edge)
    (member : edge ∈ graph.edges) : edge.source ∈ graph.ids ∧ edge.destination ∈ graph.ids :=
  ⟨(sound.intact.ends edge member).1, (sound.intact.ends edge member).2.1⟩

/-- A shuffle that crosses starts at a known component. -/
theorem Sound.crosses_known {graph : JobGraph} (sound : graph.Sound) {left right : String}
    (crosses : graph.Crosses left right) : left ∈ graph.ids := by
  obtain ⟨edge, member, _, toSource, _⟩ := crosses
  exact sound.joined_known toSource.symm (sound.ends_known edge member).1

/-! ## Arrivals -/

/-- Every edge arrives once. -/
theorem Sound.arrivals_perm {graph : JobGraph} (sound : graph.Sound) :
    graph.arrivals.Perm graph.edges :=
  sound.intact.incoming_perm

/-- Every edge of a sound graph arrives. -/
theorem Sound.mem_arrivals {graph : JobGraph} (sound : graph.Sound) (edge : Edge) :
    edge ∈ graph.arrivals ↔ edge ∈ graph.edges :=
  sound.arrivals_perm.mem_iff

end Flowplan.JobGraph
