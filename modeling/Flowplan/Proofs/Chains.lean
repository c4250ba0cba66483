import Flowplan.Proofs.ForestPlans
import Flowplan.Proofs.SketchCalls

/-!
# Chains

The chain of some patterns has one vertex more than there are patterns, and its edges lead from each
vertex to the next. Every call that puts it together is accepted: the ids of its vertices tell their
positions, and so do the ids of its edges.

Whoever walks along a chain without taking one of its edges stays on the same side of that edge. So
chains are forests, and each shuffle of a chain begins a new stage.
-/

namespace Flowplan

namespace Sketch

/-! ## Ids along a chain -/

/-- The id of a vertex in a chain tells its position. -/
theorem chainId_injective {first second : Nat} (same : chainId first = chainId second) :
    first = second :=
  Source.digits_injective first second
    (congrArg String.toList ((String.append_right_inj "V").mp same))

/-- The id of the edge that leaves a position of a chain. -/
def chainEdgeId (position : Nat) : String :=
  edgeId (chainId position) (chainId (position + 1))

/-- An edge's id tells its position: the digits of the first end stop at the dash. -/
theorem chainEdgeId_injective {first second : Nat}
    (same : chainEdgeId first = chainEdgeId second) : first = second := by
  unfold chainEdgeId edgeId chainId at same
  rw [String.append_assoc, String.append_assoc, String.append_assoc, String.append_assoc,
    String.append_right_inj] at same
  have letters := congrArg String.toList same
  simp only [String.toList_append, Nat.toString_eq_repr] at letters
  have arrow : "->".toList = ['-', '>'] := by decide
  rw [arrow] at letters
  exact Source.digits_injective first second (append_cons_inj_of_not_mem
    (Source.dash_not_digit first) (Source.dash_not_digit second) letters).1

/-- The vertex at a position of a chain. -/
def chainVertex (position : Nat) : Vertex :=
  .bare (chainId position) (some (chainId position))

/-- The edge that leaves a position of a chain, with its pattern. -/
def chainEdge (position : Nat) (pattern : Pattern) : Edge :=
  .along pattern (chainEdgeId position) (chainId position) (chainId (position + 1))

/-- The edges of a chain. -/
def chainEdges (patterns : List Pattern) : List Edge :=
  patterns.zipIdx.map fun entry => chainEdge entry.2 entry.1

/-- A chain of one more pattern has one more edge, which leaves its last vertex. -/
theorem chainEdges_concat (patterns : List Pattern) (pattern : Pattern) :
    chainEdges (patterns ++ [pattern]) =
      chainEdges patterns ++ [chainEdge patterns.length pattern] := by
  simp [chainEdges, List.zipIdx_append]

/-- The edges of a chain are those that leave its positions, each with the pattern there. -/
theorem mem_chainEdges_iff (patterns : List Pattern) (edge : Edge) :
    edge ∈ chainEdges patterns ↔
      ∃ position pattern, patterns[position]? = some pattern ∧
        edge = chainEdge position pattern := by
  simp only [chainEdges, List.mem_map, Prod.exists, List.mem_zipIdx_iff_getElem?]
  constructor
  · rintro ⟨pattern, position, stands, rfl⟩
    exact ⟨position, pattern, stands, rfl⟩
  · rintro ⟨position, pattern, stands, rfl⟩
    exact ⟨pattern, position, stands, rfl⟩

/-- The edges of a chain have its patterns, in order. -/
theorem chainEdges_patterns (patterns : List Pattern) :
    (chainEdges patterns).map Edge.pattern? = patterns.map some := by
  have each : (Edge.pattern? ∘ fun entry : Pattern × Nat => chainEdge entry.2 entry.1) =
      some ∘ Prod.fst := rfl
  rw [chainEdges, List.map_map, each, ← List.map_map, List.zipIdx_map_fst]

/-- A valid pattern is stored. -/
theorem pattern_stored {pattern : Pattern} (valid : (Value.pattern pattern).validate = .ok ()) :
    (Bag.empty .edge).set (some (.pattern pattern)) = .ok ⟨.edge, [.pattern pattern]⟩ := by
  refine (Bag.set_ok_iff _ _ _).mpr ⟨?_, rfl⟩
  have sound := (Value.pattern pattern).validate_ok_iff.mp valid
  have declared : (Value.pattern pattern).kind.declared = true := rfl
  have suits : (Value.pattern pattern).kind.target = (Bag.empty .edge).target := rfl
  simp [Bag.objection, declared, suits, sound]

/-! ## Putting a chain together -/

/-- A sketch that holds the chain of some patterns and nothing else. -/
structure Chained (sketch : Sketch) (patterns : List Pattern) : Prop where
  quiet : sketch.fault = none
  reached : sketch.builder.Reached
  vertices : sketch.builder.vertices = (List.range (patterns.length + 1)).map chainVertex
  edges : sketch.builder.edges = chainEdges patterns
  unasked : ∀ position, patterns.length ≤ position →
    sketch.timesAsked (chainEdgeId position) = 0

/-- The chain of no patterns is a single vertex. -/
theorem chained_start : (empty.vertex (chainId 0) []).Chained [] := by
  have accepted := (Builder.addVertex_ok_iff (.empty : Builder Vertex Edge) _
    (chainVertex 0)).mpr ⟨List.not_mem_nil, rfl⟩
  rw [vertex_accepted empty (chainId 0) [] rfl rfl accepted]
  exact ⟨rfl, Builder.Reached.empty.addVertex _ accepted, rfl, rfl, fun _ _ => rfl⟩

namespace Chained

variable {sketch : Sketch} {patterns : List Pattern}

/-- A chain has vertices at all positions up to its length, and at no others. -/
theorem mem_ids_iff (chained : sketch.Chained patterns) (position : Nat) :
    chainId position ∈ sketch.builder.ids ↔ position ≤ patterns.length := by
  have ids : sketch.builder.ids = (List.range (patterns.length + 1)).map chainId := by
    rw [Builder.ids, chained.vertices, List.map_map]
    rfl
  rw [ids, List.mem_map]
  constructor
  · rintro ⟨other, within, same⟩
    rw [← chainId_injective same]
    exact Nat.le_of_lt_succ (List.mem_range.mp within)
  · intro within
    exact ⟨position, List.mem_range.mpr (Nat.lt_succ_of_le within), rfl⟩

/-- One more pattern appends one vertex and one edge. -/
theorem extended (chained : sketch.Chained patterns) {pattern : Pattern}
    (valid : (Value.pattern pattern).validate = .ok ()) :
    ((sketch.vertex (chainId (patterns.length + 1)) []).edge (chainId patterns.length)
      (chainId (patterns.length + 1)) [some (.pattern pattern)]).Chained
        (patterns ++ [pattern]) := by
  have newVertex : chainId (patterns.length + 1) ∉ sketch.builder.ids := by
    rw [chained.mem_ids_iff]
    omega
  have added := (Builder.addVertex_ok_iff sketch.builder _
    (chainVertex (patterns.length + 1))).mpr ⟨newVertex, rfl⟩
  rw [vertex_accepted sketch (chainId (patterns.length + 1)) [] chained.quiet rfl added]
  generalize larger : ({ sketch.builder with
    vertices := sketch.builder.vertices ++ [chainVertex (patterns.length + 1)] } :
    Builder Vertex Edge) = builder at added ⊢
  have ids : builder.ids = sketch.builder.ids ++ [chainId (patterns.length + 1)] := by
    rw [← larger]
    exact List.map_append
  have edges : builder.edges = chainEdges patterns := by
    rw [← larger]
    exact chained.edges
  have sourceKnown : chainId patterns.length ∈ builder.ids :=
    ids ▸ List.mem_append_left _ ((chained.mem_ids_iff _).mpr (Nat.le_refl _))
  have destinationKnown : chainId (patterns.length + 1) ∈ builder.ids :=
    ids ▸ List.mem_append_right _ List.mem_cons_self
  have newEdge : chainEdgeId patterns.length ∉ builder.links.map Link.id := by
    rw [Builder.links, edges, List.map_map]
    intro known
    obtain ⟨edge, member, same⟩ := List.mem_map.mp known
    obtain ⟨position, other, stands, rfl⟩ := (mem_chainEdges_iff patterns edge).mp member
    obtain ⟨within, _⟩ := List.getElem?_eq_some_iff.mp stands
    exact absurd (chainEdgeId_injective same) (Nat.ne_of_lt within)
  have forward : chainId patterns.length ≠ chainId (patterns.length + 1) :=
    fun same => Nat.ne_of_lt (Nat.lt_succ_self _) (chainId_injective same)
  have connected := (Builder.connect_ok_iff builder _ (chainEdge patterns.length pattern)).mpr
    ⟨(builder.linkDefect_none_iff _).mpr ⟨newEdge, forward, sourceKnown, destinationKnown⟩, rfl⟩
  have stored : (Bag.empty .edge).setAll [some (.pattern pattern)] =
      .ok ⟨.edge, [.pattern pattern]⟩ := by
    simp [Bag.setAll, pattern_stored valid, bind, Except.bind]
  rw [edge_accepted { sketch with builder := builder } _ _ _ chained.quiet sourceKnown
    destinationKnown stored (chained.unasked _ (Nat.le_refl _)) connected]
  refine ⟨chained.quiet, (chained.reached.addVertex _ added).connect _ connected, ?_, ?_, ?_⟩
  · show builder.vertices = _
    rw [← larger, chained.vertices, List.length_append, List.length_singleton,
      @List.range_succ (patterns.length + 1), List.map_append, List.map_singleton]
  · rw [chainEdges_concat, ← edges]
  · intro position beyond
    rw [List.length_append, List.length_singleton] at beyond
    rw [timesAsked_cons, if_neg]
    · exact chained.unasked position (by omega)
    · intro same
      have earlier : position = patterns.length := chainEdgeId_injective same
      omega

/-- All patterns are appended, one after another. -/
theorem extendChain {done : List Pattern} (chained : sketch.Chained done) (rest : List Pattern)
    (valid : ∀ pattern ∈ rest, (Value.pattern pattern).validate = .ok ()) :
    (sketch.extendChain done.length rest).Chained (done ++ rest) := by
  induction rest generalizing sketch done with
  | nil => simpa [Sketch.extendChain] using chained
  | cons pattern rest inductionHypothesis =>
      have further := inductionHypothesis (chained.extended (valid pattern List.mem_cons_self))
        fun later member => valid later (List.mem_cons_of_mem pattern member)
      simpa [Sketch.extendChain] using further

end Chained

/-- The calls that put a chain of valid patterns together are all accepted. -/
theorem chain_chained (patterns : List Pattern)
    (valid : ∀ pattern ∈ patterns, (Value.pattern pattern).validate = .ok ()) :
    (chain patterns).Chained patterns :=
  chained_start.extendChain patterns valid

/-! ## The graph of a chain -/

namespace Chained

variable {sketch : Sketch} {patterns : List Pattern}

/-- Edges lead to later positions, so that no path comes back. -/
theorem acyclic (chained : sketch.Chained patterns) : sketch.builder.unsorted.Acyclic := by
  have forward : ∀ start finish, Relation.TransGen sketch.builder.unsorted.Leads start finish →
      ∃ first second, start = chainId first ∧ finish = chainId second ∧ first < second := by
    intro start finish path
    have leads : ∀ near far, sketch.builder.unsorted.Leads near far →
        ∃ position, near = chainId position ∧ far = chainId (position + 1) := by
      rintro near far ⟨edge, member, rfl, rfl⟩
      obtain ⟨position, pattern, _, rfl⟩ :=
        (mem_chainEdges_iff patterns edge).mp (chained.edges ▸ member)
      exact ⟨position, rfl, rfl⟩
    induction path with
    | single step =>
        obtain ⟨position, rfl, rfl⟩ := leads _ _ step
        exact ⟨position, position + 1, rfl, rfl, Nat.lt_succ_self position⟩
    | tail _ step inductionHypothesis =>
        obtain ⟨first, second, rfl, reached, before⟩ := inductionHypothesis
        obtain ⟨position, atPosition, rfl⟩ := leads _ _ step
        have same := chainId_injective (reached.symm.trans atPosition)
        exact ⟨first, position + 1, rfl, rfl, by omega⟩
  intro id cycle
  obtain ⟨first, second, atFirst, atSecond, before⟩ := forward id id cycle
  exact absurd (chainId_injective (atFirst.symm.trans atSecond)) (Nat.ne_of_lt before)

/-- A chain of valid patterns is handed out. -/
theorem built (chained : sketch.Chained patterns)
    (valid : ∀ pattern ∈ patterns, (Value.pattern pattern).validate = .ok ()) :
    ∃ graph, sketch.build = .ok graph ∧ graph.Made ∧ graph.size = patterns.length + 1 ∧
      graph.edges = chainEdges patterns := by
  rcases chained.reached.proper.build_cases with ⟨_, graph, built⟩ | ⟨cyclic, _⟩
  · obtain ⟨_, vertices, edges⟩ := chained.reached.proper.build_intact graph built
    refine ⟨graph, ?_, .built chained.reached ?_ ?_ built, ?_, edges.trans chained.edges⟩
    · rw [build, chained.quiet, built]
    · intro vertex member
      obtain ⟨position, _, rfl⟩ := List.mem_map.mp (chained.vertices ▸ member)
      exact .empty
    · intro edge member
      obtain ⟨position, pattern, stands, rfl⟩ :=
        (mem_chainEdges_iff patterns edge).mp (chained.edges ▸ member)
      exact Edge.along_filled _ _ _ _ (pattern_stored (valid pattern (List.mem_of_getElem? stands)))
    · rw [Dag.size, vertices, chained.vertices, List.length_map, List.length_range]
  · exact absurd chained.acyclic cyclic

end Chained

/-- Without taking the edge behind a position, a walk stays on its side. -/
theorem walks_beside {graph : JobGraph} {patterns : List Pattern}
    (edges : graph.edges = chainEdges patterns) {position : Nat} {pattern : Pattern}
    (stands : patterns[position]? = some pattern) {start : Nat} {finish : String}
    {taken : List Edge} (walk : graph.Walks (chainId start) taken finish)
    (avoided : chainEdge position pattern ∉ taken) :
    ∃ reached, finish = chainId reached ∧ (start ≤ position ↔ reached ≤ position) := by
  generalize isStart : chainId start = id at walk
  induction walk generalizing start with
  | stay _ => exact ⟨start, isStart.symm, Iff.rfl⟩
  | @go edge rest _ next _ member connects _ inductionHypothesis =>
      have notFirst := List.ne_of_not_mem_cons avoided
      have notLater := List.not_mem_of_not_mem_cons avoided
      obtain ⟨place, other, otherStands, rfl⟩ :=
        (mem_chainEdges_iff patterns edge).mp (edges ▸ member)
      have elsewhere : place ≠ position := by
        rintro rfl
        have same : other = pattern := Option.some.inj (otherStands.symm.trans stands)
        exact notFirst (same ▸ rfl)
      have beside : ∃ after, chainId after = next ∧ (start ≤ position ↔ after ≤ position) := by
        rcases connects with ⟨atStart, atNext⟩ | ⟨atNext, atStart⟩
        · obtain rfl := chainId_injective (isStart.trans atStart.symm)
          exact ⟨start + 1, atNext, by omega⟩
        · obtain rfl := chainId_injective (isStart.trans atStart.symm)
          exact ⟨place, atNext, by omega⟩
      obtain ⟨after, atNext, sides⟩ := beside
      obtain ⟨reached, atReached, sameSides⟩ := inductionHypothesis notLater atNext
      exact ⟨reached, atReached, sides.trans sameSides⟩

/-- A graph with the edges of a chain is a forest. -/
theorem forest_of_chainEdges {graph : JobGraph} {patterns : List Pattern}
    (edges : graph.edges = chainEdges patterns) : graph.Forest := by
  apply JobGraph.forest_of_bridges
  rintro edge member ⟨taken, walk, avoided⟩
  obtain ⟨position, pattern, stands, rfl⟩ :=
    (mem_chainEdges_iff patterns edge).mp (edges ▸ member)
  obtain ⟨reached, atEnd, sides⟩ := walks_beside edges stands walk avoided
  obtain rfl := chainId_injective atEnd
  exact absurd (sides.mp (Nat.le_refl position)) (Nat.not_succ_le_self position)

/-- A chain has as many shuffles as there are among its patterns. -/
theorem countP_isShuffle (patterns : List Pattern) :
    (chainEdges patterns).countP Edge.isShuffle = patterns.count .shuffle := by
  have shuffles : Edge.isShuffle = (fun pattern => pattern == some .shuffle) ∘ Edge.pattern? := by
    funext edge
    exact (beq_eq_decide _ _).symm
  rw [shuffles, ← List.countP_map, chainEdges_patterns, ← List.count_eq_countP]
  exact List.count_map_of_injective patterns some (Option.some_injective Pattern) .shuffle

/-- Each shuffle of a chain begins a new stage. -/
theorem stages_of_mirrors {plan : Plan} {graph : JobGraph} (mirrors : plan.Mirrors graph)
    {patterns : List Pattern} (size : graph.size = patterns.length + 1)
    (edges : graph.edges = chainEdges patterns) :
    plan.stages.length = 1 + patterns.count .shuffle := by
  have divided : graph.edges.length = patterns.count .shuffle +
      (graph.edges.filter fun edge => edge.isShuffle = false).length := by
    rw [← countP_isShuffle, ← edges, ← List.countP_eq_length_filter,
      List.length_eq_countP_add_countP Edge.isShuffle]
    simp only [Bool.not_eq_true]
  have length : graph.edges.length = patterns.length := by
    rw [edges, chainEdges, List.length_map, List.length_zipIdx]
  have counted := mirrors.stages
  omega

end Sketch

/-! ## Plans -/

/-- If the patterns of all edges are given, no edge is without one. -/
theorem JobGraph.patterned_of_held {graph : JobGraph} {patterns : List Pattern}
    (held : graph.edges.map Edge.pattern? = patterns.map some) :
    ∀ edge ∈ graph.edges, edge.pattern? ≠ none := by
  intro edge member missing
  obtain ⟨pattern, _, same⟩ := List.mem_map.mp (held ▸ List.mem_map_of_mem member)
  exact Option.some_ne_none pattern (same.trans missing)

/-- Every forest with a pattern on each edge is lowered, strictly or not, to a plan that mirrors it.
Every list of valid patterns makes a chain, which is such a forest, with a stage for its start and
one for each shuffle. -/
theorem forests_mirrored :
    (∀ graph : JobGraph, graph.Made → graph.Forest → graph.size < 2 ^ 64 →
      (∀ edge ∈ graph.edges, edge.pattern? ≠ none) → ∀ strict source,
        ∃ plan, ((lower strict (some graph)).run source).1.outcome = .ok plan ∧
          plan.Mirrors graph) ∧
    ∀ patterns : List Pattern,
      (∀ pattern ∈ patterns, (Value.pattern pattern).validate = .ok ()) →
        ∃ graph, (Sketch.chain patterns).build = .ok graph ∧ graph.Made ∧ graph.Forest ∧
          graph.size = patterns.length + 1 ∧ graph.edges.map Edge.pattern? = patterns.map some ∧
          (graph.size < 2 ^ 64 → ∀ strict source,
            ∃ plan, ((lower strict (some graph)).run source).1.outcome = .ok plan ∧
              plan.stages.length = 1 + patterns.count .shuffle) := by
  refine ⟨?_, ?_⟩
  · intro graph made forest bound patterned strict source
    exact forest.lowers made.sound bound patterned strict source
  · intro patterns valid
    obtain ⟨graph, built, made, size, edges⟩ :=
      (Sketch.chain_chained patterns valid).built valid
    have forest := Sketch.forest_of_chainEdges edges
    have held : graph.edges.map Edge.pattern? = patterns.map some :=
      edges ▸ Sketch.chainEdges_patterns patterns
    refine ⟨graph, built, made, forest, size, held, ?_⟩
    intro bound strict source
    obtain ⟨plan, lowered, mirrors⟩ :=
      forest.lowers made.sound bound (JobGraph.patterned_of_held held) strict source
    exact ⟨plan, lowered, Sketch.stages_of_mirrors mirrors size edges⟩

/-- A chain with two shuffles has three stages. -/
theorem shuffled_twice :
    ∃ graph plan, (Sketch.chain [.shuffle, .broadcast, .shuffle]).build = .ok graph ∧
      ((lower true (some graph)).run (.start "s")).1.outcome = .ok plan ∧
      plan.Mirrors graph ∧ plan.stages.length = 3 := by
  obtain ⟨graph, built, made, forest, size, held, counted⟩ :=
    forests_mirrored.2 [.shuffle, .broadcast, .shuffle]
      (by simp only [List.forall_mem_cons]; exact ⟨rfl, rfl, rfl, nofun⟩)
  have bound : graph.size < 2 ^ 64 := by
    rw [size]
    decide
  obtain ⟨plan, lowered, mirrors⟩ := forests_mirrored.1 graph made forest bound
    (JobGraph.patterned_of_held held) true (.start "s")
  obtain ⟨other, alsoLowered, stages⟩ := counted bound true (.start "s")
  obtain rfl := Except.ok.inj (lowered.symm.trans alsoLowered)
  exact ⟨graph, plan, built, lowered, mirrors, stages⟩

end Flowplan
