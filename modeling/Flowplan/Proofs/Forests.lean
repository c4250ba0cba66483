import Flowplan.Proofs.Plannable

/-!
# Forests

A job graph is a forest if no walk along its edges, in whatever directions, comes back to where it
started without taking an edge twice. Every edge of a forest is a bridge: no walk connects its ends
without it.

This is all that lowering needs. A shuffle within a component, a round of shuffles and two shuffles
between the same components would each give a way around one of the shuffles. And since every edge
that does not shuffle joins two components that were apart before, the stages can be counted.
-/

namespace Flowplan

/-- An edge leads from one vertex to the other, in one of its directions. -/
def Edge.Connects (edge : Edge) (left right : String) : Prop :=
  edge.source = left ∧ edge.destination = right ∨ edge.source = right ∧ edge.destination = left

namespace JobGraph

/-- A walk from one vertex to another, with the edges it takes in order. -/
inductive Walks (graph : JobGraph) : String → List Edge → String → Prop
  | stay (id : String) : Walks graph id [] id
  | go {edge : Edge} {rest : List Edge} {start next finish : String} (member : edge ∈ graph.edges)
      (connects : edge.Connects start next) (onward : Walks graph next rest finish) :
      Walks graph start (edge :: rest) finish

/-- Whatever walk comes back to where it started takes no edge at all, or one of them twice. -/
def Forest (graph : JobGraph) : Prop :=
  ∀ id edges, graph.Walks id edges id → edges.Nodup → edges = []

/-- A walk connects two vertices without taking a certain edge. -/
def Bypasses (graph : JobGraph) (edge : Edge) (left right : String) : Prop :=
  ∃ edges, graph.Walks left edges right ∧ edge ∉ edges

variable {graph : JobGraph}

/-! ## Walks -/

namespace Walks

/-- An edge is a walk between its ends, in either direction. -/
theorem single {edge : Edge} (member : edge ∈ graph.edges) {left right : String}
    (connects : edge.Connects left right) : graph.Walks left [edge] right :=
  .go member connects (.stay right)

/-- A walk goes on where another one ends. -/
theorem append {start middle finish : String} {front back : List Edge}
    (first : graph.Walks start front middle) (second : graph.Walks middle back finish) :
    graph.Walks start (front ++ back) finish := by
  induction first with
  | stay _ => exact second
  | go member connects _ inductionHypothesis =>
      exact .go member connects (inductionHypothesis second)

/-- A walk can be taken backwards. -/
theorem reverse {start finish : String} {edges : List Edge}
    (walk : graph.Walks start edges finish) : graph.Walks finish edges.reverse start := by
  induction walk with
  | stay id => exact .stay id
  | go member connects _ inductionHypothesis =>
      rw [List.reverse_cons]
      exact inductionHypothesis.append (single member connects.symm)

/-- A walk that takes an edge goes on from one of its ends to the other. -/
theorem cut {start finish : String} {front back : List Edge} {edge : Edge}
    (walk : graph.Walks start (front ++ edge :: back) finish) :
    ∃ near far, edge ∈ graph.edges ∧ edge.Connects near far ∧ graph.Walks far back finish := by
  induction front generalizing start with
  | nil =>
      cases walk with
      | go member connects onward => exact ⟨_, _, member, connects, onward⟩
  | cons first rest inductionHypothesis =>
      cases walk with
      | go _ _ onward => exact inductionHypothesis onward

/-- A walk can be shortened until it takes every edge once. Where an edge is taken again, what lies
between the two times is left out. -/
theorem shortened {start finish : String} {edges : List Edge}
    (walk : graph.Walks start edges finish) :
    ∃ shorter, graph.Walks start shorter finish ∧ shorter.Nodup ∧
      ∀ edge ∈ shorter, edge ∈ edges := by
  induction walk with
  | stay id => exact ⟨[], .stay id, List.nodup_nil, fun _ member => nomatch member⟩
  | @go edge rest start next finish member connects _ inductionHypothesis =>
      obtain ⟨shorter, walk, distinct, among⟩ := inductionHypothesis
      by_cases again : edge ∈ shorter
      · obtain ⟨front, back, rfl⟩ := List.append_of_mem again
        have tail : (edge :: back).Nodup := (List.nodup_append.mp distinct).2.1
        have inside : ∀ other ∈ edge :: back, other ∈ edge :: rest := fun other later =>
          List.mem_cons_of_mem edge (among other (List.mem_append_right front later))
        obtain ⟨near, far, _, alsoConnects, onward⟩ := walk.cut
        -- the second time ends at one of the two ends of the first time
        have ends : far = next ∨ far = start := by
          rcases connects with ⟨rfl, rfl⟩ | ⟨rfl, rfl⟩ <;>
            rcases alsoConnects with ⟨rfl, rfl⟩ | ⟨rfl, rfl⟩ <;> simp
        rcases ends with rfl | rfl
        · exact ⟨edge :: back, .go member connects onward, tail, inside⟩
        · exact ⟨back, onward, (List.nodup_cons.mp tail).2,
            fun other later => inside other (List.mem_cons_of_mem edge later)⟩
      · refine ⟨edge :: shorter, .go member connects walk,
          List.nodup_cons.mpr ⟨again, distinct⟩, ?_⟩
        intro other later
        exact (List.mem_cons.mp later).elim (fun here => here ▸ List.mem_cons_self)
          fun behind => List.mem_cons_of_mem edge (among other behind)

end Walks

namespace Bypasses

variable {edge : Edge}

/-- Two ways round an edge make one. -/
theorem trans {left middle right : String} (first : graph.Bypasses edge left middle)
    (second : graph.Bypasses edge middle right) : graph.Bypasses edge left right := by
  obtain ⟨front, walk, notFront⟩ := first
  obtain ⟨back, onward, notBack⟩ := second
  exact ⟨front ++ back, walk.append onward,
    fun member => (List.mem_append.mp member).elim notFront notBack⟩

/-- A way round an edge leads back as well. -/
theorem symm {left right : String} (bypasses : graph.Bypasses edge left right) :
    graph.Bypasses edge right left := by
  obtain ⟨edges, walk, avoided⟩ := bypasses
  exact ⟨edges.reverse, walk.reverse, fun member => avoided (List.mem_reverse.mp member)⟩

/-- Any other edge leads from its source to its destination without this one. -/
theorem other {taken : Edge} (member : taken ∈ graph.edges) (different : taken ≠ edge) :
    graph.Bypasses edge taken.source taken.destination :=
  ⟨[taken], .single member (Or.inl ⟨rfl, rfl⟩), by simpa using different.symm⟩

end Bypasses

/-- What some edges that do not shuffle connect, a walk along them connects. -/
theorem walks_of_eqvGen {edges : List Edge} (known : ∀ edge ∈ edges, edge ∈ graph.edges)
    {left right : String}
    (related : Relation.EqvGen (DisjointSets.Paired (plainPairs edges)) left right) :
    ∃ taken, graph.Walks left taken right ∧
      ∀ edge ∈ taken, edge ∈ edges ∧ edge.isShuffle = false := by
  induction related with
  | rel one two paired =>
      obtain ⟨edge, member, plain, rfl, rfl⟩ := (paired_plainPairs_iff edges one two).mp paired
      refine ⟨[edge], .single (known edge member) (Or.inl ⟨rfl, rfl⟩), ?_⟩
      intro other here
      rw [List.mem_singleton.mp here]
      exact ⟨member, plain⟩
  | refl one => exact ⟨[], .stay one, fun _ member => nomatch member⟩
  | symm one two _ inductionHypothesis =>
      obtain ⟨taken, walk, plain⟩ := inductionHypothesis
      exact ⟨taken.reverse, walk.reverse,
        fun edge member => plain edge (List.mem_reverse.mp member)⟩
  | trans one two three _ _ firstHypothesis secondHypothesis =>
      obtain ⟨front, walk, frontPlain⟩ := firstHypothesis
      obtain ⟨back, onward, backPlain⟩ := secondHypothesis
      exact ⟨front ++ back, walk.append onward, fun edge member =>
        (List.mem_append.mp member).elim (frontPlain edge) (backPlain edge)⟩

/-- Joined vertices are connected without any shuffle. -/
theorem Joined.bypasses {edge : Edge} (shuffles : edge.isShuffle = true) {left right : String}
    (joined : graph.Joined left right) : graph.Bypasses edge left right := by
  obtain ⟨taken, walk, plain⟩ := walks_of_eqvGen (fun _ member => member)
    ((graph.joined_iff_eqvGen graph.edges (fun _ => Iff.rfl) left right).mp joined)
  refine ⟨taken, walk, ?_⟩
  intro member
  rw [(plain edge member).2] at shuffles
  cases shuffles

/-! ## Edges of a forest -/

/-- If nothing goes around any edge, the graph is a forest: a round trip would go around the first
edge it takes. -/
theorem forest_of_bridges {graph : JobGraph}
    (bridges : ∀ edge ∈ graph.edges, ¬ graph.Bypasses edge edge.source edge.destination) :
    graph.Forest := by
  intro id edges walk distinct
  cases walk with
  | stay _ => rfl
  | @go edge rest _ next _ member connects onward =>
      have around : graph.Bypasses edge next id := ⟨rest, onward, (List.nodup_cons.mp distinct).1⟩
      rcases connects with ⟨rfl, rfl⟩ | ⟨rfl, rfl⟩
      · exact absurd around.symm (bridges edge member)
      · exact absurd around (bridges edge member)

namespace Forest

variable (forest : graph.Forest) {edge : Edge} (member : edge ∈ graph.edges)

include forest member

/-- Nothing connects the ends of an edge but the edge itself. -/
theorem bridge : ¬ graph.Bypasses edge edge.source edge.destination := by
  rintro ⟨edges, walk, avoided⟩
  obtain ⟨shorter, onward, distinct, among⟩ := walk.reverse.shortened
  have new : edge ∉ shorter := fun again => avoided (List.mem_reverse.mp (among edge again))
  have round : graph.Walks edge.source (edge :: shorter) edge.source :=
    .go member (Or.inl ⟨rfl, rfl⟩) onward
  cases forest _ _ round (List.nodup_cons.mpr ⟨new, distinct⟩)

/-- In a forest no shuffle lies within a component, as the way round it would come back. -/
theorem outside : ¬ graph.Encloses edge := by
  rintro ⟨shuffles, joined⟩
  exact forest.bridge member (joined.bypasses shuffles)

/-- Between two components there is at most one shuffle. -/
theorem shuffle_unique {other : Edge} (otherIn : other ∈ graph.edges)
    (shuffles : edge.isShuffle = true) (sources : graph.Joined edge.source other.source)
    (destinations : graph.Joined edge.destination other.destination) : other = edge := by
  by_contra different
  exact forest.bridge member (((sources.bypasses shuffles).trans (.other otherIn different)).trans
    (destinations.bypasses shuffles).symm)

/-- Shuffles do not lead back to where one of them started: whatever they lead to is connected to
its destination without it. -/
theorem not_back {start finish : String} (shuffles : edge.isShuffle = true)
    (reached : graph.Bypasses edge edge.destination start)
    (path : Relation.ReflTransGen graph.Crosses start finish) :
    graph.Bypasses edge edge.destination finish := by
  induction path with
  | refl => exact reached
  | tail _ crosses inductionHypothesis =>
      obtain ⟨next, nextIn, _, toSource, fromDestination⟩ := crosses
      have atSource := inductionHypothesis.trans (toSource.bypasses shuffles)
      by_cases same : next = edge
      · subst same
        exact absurd atSource.symm (forest.bridge member)
      · exact (atSource.trans (.other nextIn same)).trans (fromDestination.bypasses shuffles)

end Forest

/-- In a forest no shuffles lead from a component back to itself. -/
theorem Forest.free (forest : graph.Forest) : ¬ graph.Entangled := by
  rintro ⟨id, cycle⟩
  obtain ⟨next, ⟨edge, member, shuffles, toSource, fromDestination⟩, path⟩ :=
    Relation.TransGen.head'_iff.mp cycle
  have back := forest.not_back member shuffles (fromDestination.bypasses shuffles) path
  exact forest.bridge member (back.trans (toSource.bypasses shuffles)).symm

/-- A forest can be lowered once every edge has a pattern, strictly or not. -/
theorem Forest.plannable (forest : graph.Forest)
    (patterned : ∀ edge ∈ graph.edges, edge.pattern? ≠ none) (strict : Bool) :
    graph.Plannable strict where
  patterned := patterned
  outside _ member := forest.outside member
  free := forest.free
  agrees := by
    intro _ left leftIn right rightIn leftShuffles _ sources destinations kind _ one two leftHeld
      rightHeld
    obtain rfl := forest.shuffle_unique leftIn rightIn leftShuffles sources destinations
    exact Option.some.inj (leftHeld.symm.trans rightHeld)

end JobGraph

end Flowplan
