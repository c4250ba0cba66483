import Flowplan.Job.Sketch
import Flowplan.Proofs.BuiltGraphs
import Flowplan.Proofs.Texts
import Mathlib.Data.List.Induction

/-!
# Calls to a sketch

A sketch names the edges it is asked for. The rule is that the first edge from `a` to `b` is `a->b`
and the n-th one `a->b#n`, so an edge is named by its pair of ends and its number among the edges
of this pair. The sketch itself counts texts and not pairs: how often an edge was asked for under
the text `a->b`.

The two ways of counting are the same as long as the rule names no two edges alike, and then every
call is accepted. Ids of vertices are arbitrary, so the rule may name two edges alike. It does not
do so if no destination holds an arrow and none is another one with a number behind it.
-/

namespace Flowplan.Sketch

/-- What a sketch is asked to add. -/
inductive Call where
  | vertex (id : String) (values : List (Option Value))
  | edge (source destination : String) (values : List (Option Value))

namespace Call

/-- The id of the vertex that a call asks for, if it asks for one. -/
def vertexId? : Call → Option String
  | vertex id _ => some id
  | edge _ _ _ => none

/-- The ends of the edge that a call asks for, if it asks for one. -/
def ends? : Call → Option (String × String)
  | vertex _ _ => none
  | edge source destination _ => some (source, destination)

/-- The ids of the vertices asked for, in order. -/
def vertexIds (calls : List Call) : List String :=
  calls.filterMap vertexId?

/-- The ends of the edges asked for, in order. -/
def pairs (calls : List Call) : List (String × String) :=
  calls.filterMap ends?

/-- A vertex is new, an edge leads between two different vertices which are there, and all values
are accepted. -/
def Suits (before : List Call) : Call → Prop
  | vertex id values =>
      id ∉ vertexIds before ∧ ((Bag.empty .vertex).setAll values).isOk = true
  | edge source destination values =>
      source ≠ destination ∧ source ∈ vertexIds before ∧ destination ∈ vertexIds before ∧
        ((Bag.empty .edge).setAll values).isOk = true

instance (before : List Call) : (call : Call) → Decidable (call.Suits before)
  | vertex _ _ => inferInstanceAs (Decidable (_ ∧ _))
  | edge _ _ _ => inferInstanceAs (Decidable (_ ∧ _))

/-- Each of some further calls suits the calls before it. -/
def OrderlyAfter (before : List Call) : List Call → Prop
  | [] => True
  | call :: rest => call.Suits before ∧ OrderlyAfter (before ++ [call]) rest

instance decidableOrderlyAfter : (before calls : List Call) → Decidable (OrderlyAfter before calls)
  | _, [] => inferInstanceAs (Decidable True)
  | before, call :: rest =>
      have := decidableOrderlyAfter (before ++ [call]) rest
      inferInstanceAs (Decidable (call.Suits before ∧ OrderlyAfter (before ++ [call]) rest))

/-- Vertices are new, edges lead between different vertices which were added before, and all values
are accepted. -/
def Orderly (calls : List Call) : Prop :=
  OrderlyAfter [] calls

instance (calls : List Call) : Decidable (Orderly calls) :=
  decidableOrderlyAfter [] calls

/-- Calls in two parts are orderly exactly if the first part is, and the second one after it. -/
theorem orderlyAfter_append (before first second : List Call) :
    OrderlyAfter before (first ++ second) ↔
      OrderlyAfter before first ∧ OrderlyAfter (before ++ first) second := by
  induction first generalizing before with
  | nil => simp [OrderlyAfter]
  | cons call rest inductionHypothesis =>
      simp only [List.cons_append, OrderlyAfter, inductionHypothesis, and_assoc, List.append_assoc,
        List.nil_append]

/-- Calls in two parts are orderly from the start exactly if the first part is, and the second one
after it. -/
theorem orderly_append (first second : List Call) :
    Orderly (first ++ second) ↔ Orderly first ∧ OrderlyAfter first second :=
  orderlyAfter_append [] first second

end Call

open Call

/-- The sketch after a call. -/
def perform (sketch : Sketch) : Call → Sketch
  | .vertex id values => sketch.vertex id values
  | .edge source destination values => sketch.edge source destination values

/-- The sketch after calls one after another. -/
def afterCalls (sketch : Sketch) (calls : List Call) : Sketch :=
  calls.foldl perform sketch

/-! ## The rule -/

/-- The id which the rule gives to an edge by its ends and its number. -/
def pairId (pair : String × String) (number : Nat) : String :=
  if number = 1 then pair.1 ++ "->" ++ pair.2
  else pair.1 ++ "->" ++ pair.2 ++ "#" ++ toString number

/-- Each pair with its number among the equal ones. -/
def numbered (pairs : List (String × String)) : List ((String × String) × Nat) :=
  pairs.zipIdx.map fun entry => (entry.1, (pairs.take (entry.2 + 1)).count entry.1)

/-- The edges of calls, named by the rule. -/
def ruled (calls : List Call) : List Link :=
  (numbered (pairs calls)).map fun entry => ⟨pairId entry.1 entry.2, entry.1.1, entry.1.2⟩

/-- No call is refused, and every edge asked for is added and named by the rule. -/
def NamedByPairs (calls : List Call) : Prop :=
  ∀ before, before <+: calls → (empty.afterCalls before).fault = none ∧
    (empty.afterCalls before).builder.links = ruled before

/-- One more pair gets the next number of this pair. -/
theorem numbered_concat (pairs : List (String × String)) (pair : String × String) :
    numbered (pairs ++ [pair]) = numbered pairs ++ [(pair, pairs.count pair + 1)] := by
  have earlier : ∀ entry ∈ pairs.zipIdx,
      (pairs ++ [pair]).take (entry.2 + 1) = pairs.take (entry.2 + 1) := by
    intro entry member
    obtain ⟨inside, _⟩ := List.getElem?_eq_some_iff.mp (List.mem_zipIdx_iff_getElem?.mp member)
    exact List.take_append_of_le_length inside
  have whole : (pairs ++ [pair]).take (pairs.length + 1) = pairs ++ [pair] :=
    List.take_of_length_le (by simp)
  rw [numbered, List.zipIdx_append, List.map_append]
  congr 1
  · apply List.map_congr_left
    intro entry member
    rw [earlier entry member]
  · simp [whole]

/-- Numbers of a pair start at one and do not exceed its count. -/
theorem mem_numbered {pairs : List (String × String)} {pair : String × String} {number : Nat}
    (member : (pair, number) ∈ numbered pairs) :
    pair ∈ pairs ∧ 1 ≤ number ∧ number ≤ pairs.count pair := by
  induction pairs using List.reverseRecOn with
  | nil => cases member
  | append_singleton before last inductionHypothesis =>
      rw [numbered_concat, List.mem_append, List.mem_singleton] at member
      rw [List.mem_append, List.mem_singleton, List.count_append]
      rcases member with old | new
      · obtain ⟨inside, positive, bound⟩ := inductionHypothesis old
        exact ⟨Or.inl inside, positive, Nat.le_add_right_of_le bound⟩
      · obtain ⟨rfl, rfl⟩ := Prod.mk.inj new
        exact ⟨Or.inr rfl, by omega, by simp⟩

/-- Every pair is the first one of its kind somewhere. -/
theorem first_numbered {pairs : List (String × String)} {pair : String × String}
    (member : pair ∈ pairs) : (pair, 1) ∈ numbered pairs := by
  induction pairs using List.reverseRecOn with
  | nil => cases member
  | append_singleton before last inductionHypothesis =>
      rw [numbered_concat, List.mem_append, List.mem_singleton]
      by_cases earlier : pair ∈ before
      · exact Or.inl (inductionHypothesis earlier)
      · obtain rfl : pair = last := by simpa [earlier] using member
        rw [List.count_eq_zero_of_not_mem earlier]
        exact Or.inr rfl

/-- No pair has the same number twice. -/
theorem numbered_distinct (pairs : List (String × String)) : (numbered pairs).Nodup := by
  induction pairs using List.reverseRecOn with
  | nil => exact List.nodup_nil
  | append_singleton before last inductionHypothesis =>
      rw [numbered_concat, ← List.concat_eq_append]
      refine inductionHypothesis.concat ?_
      intro again
      obtain ⟨_, _, bound⟩ := mem_numbered again
      omega

/-- One more edge adds the pair of its ends. -/
theorem pairs_concat_edge (calls : List Call) (source destination : String)
    (values : List (Option Value)) :
    pairs (calls ++ [.edge source destination values]) =
      pairs calls ++ [(source, destination)] := by
  simp [pairs, ends?]

/-- One more vertex adds no pair. -/
theorem pairs_concat_vertex (calls : List Call) (id : String) (values : List (Option Value)) :
    pairs (calls ++ [.vertex id values]) = pairs calls := by
  rw [pairs, List.filterMap_append]
  exact List.append_nil _

/-- One more edge is named by its pair and the next number of this pair. -/
theorem ruled_concat_edge (calls : List Call) (source destination : String)
    (values : List (Option Value)) :
    ruled (calls ++ [.edge source destination values]) = ruled calls ++
      [⟨pairId (source, destination) ((pairs calls).count (source, destination) + 1), source,
        destination⟩] := by
  rw [ruled, pairs_concat_edge, numbered_concat, List.map_append]
  rfl

/-- One more vertex changes nothing in what the rule says. -/
theorem ruled_concat_vertex (calls : List Call) (id : String) (values : List (Option Value)) :
    ruled (calls ++ [.vertex id values]) = ruled calls := by
  rw [ruled, pairs_concat_vertex, ruled]

/-- Later calls do not change what the rule says of earlier ones. -/
theorem ruled_prefix_append (before after : List Call) :
    ruled before <+: ruled (before ++ after) := by
  induction after using List.reverseRecOn with
  | nil => rw [List.append_nil]
  | append_singleton after call inductionHypothesis =>
      rw [← List.append_assoc]
      cases call with
      | vertex id values =>
          rw [ruled_concat_vertex]
          exact inductionHypothesis
      | edge source destination values =>
          rw [ruled_concat_edge]
          exact inductionHypothesis.trans (List.prefix_append _ _)

/-! ## When the rule tells edges apart -/

/-- If the rule names no two edges alike, pairs with the same text are the same pair: their first
edges would be named by this text both. -/
theorem pair_eq_of_distinct {calls : List Call} (distinct : ((ruled calls).map Link.id).Nodup)
    {pair other : String × String} (pairIn : pair ∈ pairs calls) (otherIn : other ∈ pairs calls)
    (same : edgeId pair.1 pair.2 = edgeId other.1 other.2) : pair = other := by
  rw [ruled, List.map_map] at distinct
  have entries := List.inj_on_of_nodup_map distinct (first_numbered pairIn)
    (first_numbered otherIn) same
  exact (Prod.mk.inj entries).1

/-- What follows the text of a pair in the name of an edge: nothing for the first one. -/
def suffix (number : Nat) : List Char :=
  if number = 1 then [] else '#' :: (toString number).toList

/-- The name of an edge, cut at the arrow between its ends. -/
theorem toList_pairId (pair : String × String) (number : Nat) :
    (pairId pair number).toList =
      pair.1.toList ++ '-' :: '>' :: (pair.2.toList ++ suffix number) := by
  have arrow : "->".toList = ['-', '>'] := by decide
  have hash : "#".toList = ['#'] := by decide
  unfold pairId suffix
  split <;> simp [arrow, hash]

/-- Behind the ends of an edge there is no arrow, only a number. -/
theorem arrow_not_in_suffix (number : Nat) : ¬ ['-', '>'] <:+: suffix number := by
  intro stands
  have member : '-' ∈ suffix number := stands.subset List.mem_cons_self
  unfold suffix at member
  split at member
  · cases member
  · rcases List.mem_cons.mp member with same | digit
    · exact absurd same (by decide)
    · exact not_mem_digits (by decide) number digit

/-- An id without an arrow has none with a number behind it either. -/
theorem arrow_not_in_end {id : String} (free : ¬ ['-', '>'] <:+: id.toList) (number : Nat) :
    ¬ ['-', '>'] <:+: id.toList ++ suffix number := by
  intro stands
  rcases pair_infix_append stands with inId | inSuffix | ⟨_, headed⟩
  · exact free inId
  · exact arrow_not_in_suffix number inSuffix
  · unfold suffix at headed
    split at headed
    · cases headed
    · exact absurd (Option.some.inj headed) (by decide)

/-- Two ids with numbers behind them tell both, unless one of the ids is the other one with a
number behind it. -/
theorem append_suffix_inj {id other : String} {number otherNumber : Nat}
    (apart : ∀ number, 1 < number → id.toList ≠ other.toList ++ '#' :: (toString number).toList)
    (otherApart : ∀ number, 1 < number →
      other.toList ≠ id.toList ++ '#' :: (toString number).toList)
    (positive : 1 ≤ number) (otherPositive : 1 ≤ otherNumber)
    (same : id.toList ++ suffix number = other.toList ++ suffix otherNumber) :
    id = other ∧ number = otherNumber := by
  unfold suffix at same
  by_cases first : number = 1
  · by_cases otherFirst : otherNumber = 1
    · rw [if_pos first, if_pos otherFirst, List.append_nil, List.append_nil] at same
      exact ⟨String.toList_injective same, first.trans otherFirst.symm⟩
    · rw [if_pos first, if_neg otherFirst, List.append_nil] at same
      exact absurd same (apart otherNumber (by omega))
  · by_cases otherFirst : otherNumber = 1
    · rw [if_neg first, if_pos otherFirst, List.append_nil] at same
      exact absurd same.symm (otherApart number (by omega))
    · rw [if_neg first, if_neg otherFirst, List.append_cons, List.append_cons other.toList] at same
      -- digits are no hashes, so both lists are cut behind their last hash
      have hashless : ∀ number : Nat, '#' ∉ (toString number).toList := not_mem_digits (by decide)
      obtain ⟨fronts, digits⟩ := append_inj_of_ends (by simp) (by simp) (hashless number)
        (hashless otherNumber) same
      exact ⟨String.toList_injective (List.append_cancel_right fronts), toString_injective digits⟩

/-- No id holds an arrow, and none is another one with a number above one behind it. -/
structure Clear (ids : List String) : Prop where
  arrows : ∀ id ∈ ids, ¬ ['-', '>'] <:+: id.toList
  hashes : ∀ id ∈ ids, ∀ other ∈ ids, ∀ number : Nat, 1 < number →
    id ≠ other ++ "#" ++ toString number

/-- Between destinations of clear ids the rule names no two edges alike. -/
theorem Clear.distinct {calls : List Call} (clear : Clear ((pairs calls).map Prod.snd)) :
    ((ruled calls).map Link.id).Nodup := by
  have apart : ∀ pair ∈ pairs calls, ∀ other ∈ pairs calls, ∀ number : Nat, 1 < number →
      pair.2.toList ≠ other.2.toList ++ '#' :: (toString number).toList := by
    intro pair pairIn other otherIn number large same
    have hash : "#".toList = ['#'] := by decide
    refine clear.hashes _ (List.mem_map_of_mem pairIn) _ (List.mem_map_of_mem otherIn) number large
      (String.toList_injective ?_)
    rw [same, String.toList_append, String.toList_append, hash, List.append_assoc]
    rfl
  rw [ruled, List.map_map]
  refine List.Nodup.map_on ?_ (numbered_distinct _)
  rintro ⟨pair, number⟩ member ⟨other, otherNumber⟩ otherMember same
  obtain ⟨pairIn, positive, _⟩ := mem_numbered member
  obtain ⟨otherIn, otherPositive, _⟩ := mem_numbered otherMember
  have letters : (pairId pair number).toList = (pairId other otherNumber).toList :=
    congrArg String.toList same
  rw [toList_pairId, toList_pairId] at letters
  -- the arrow between the ends is the last one, since there is none behind it
  obtain ⟨sources, ends⟩ := append_pair_inj (by decide)
    (arrow_not_in_end (clear.arrows _ (List.mem_map_of_mem pairIn)) number)
    (arrow_not_in_end (clear.arrows _ (List.mem_map_of_mem otherIn)) otherNumber) letters
  obtain ⟨destinations, numbers⟩ := append_suffix_inj (apart pair pairIn other otherIn)
    (apart other otherIn pair pairIn) positive otherPositive ends
  rw [Prod.mk.injEq]
  exact ⟨Prod.ext (String.toList_injective sources) destinations, numbers⟩

/-! ## Accepted calls -/

/-- A vertex that the builder accepts is added, with the values given. -/
theorem vertex_accepted (sketch : Sketch) (id : String) (values : List (Option Value)) {bag : Bag}
    (quiet : sketch.fault = none) (stored : (Bag.empty .vertex).setAll values = .ok bag)
    {after : Builder Vertex Edge}
    (accepted : sketch.builder.addVertex { Vertex.bare id (some id) with bag := bag } = .ok after) :
    sketch.vertex id values = { sketch with builder := after } := by
  simp [vertex, quiet, stored, bind, Except.bind, accepted, settle]

/-- An edge that the builder accepts is added under the name with its number, and its text is
counted once more. -/
theorem edge_accepted (sketch : Sketch) (source destination : String)
    (values : List (Option Value)) {bag : Bag} (quiet : sketch.fault = none)
    (sourceKnown : source ∈ sketch.builder.ids)
    (destinationKnown : destination ∈ sketch.builder.ids)
    (stored : (Bag.empty .edge).setAll values = .ok bag) {times : Nat}
    (asked : sketch.timesAsked (edgeId source destination) = times)
    {after : Builder Vertex Edge}
    (accepted : sketch.builder.connect { Edge.bare
      (numberedId (edgeId source destination) (times + 1)) source destination with bag := bag } =
        .ok after) :
    sketch.edge source destination values =
      { sketch with
        builder := after
        asked := (edgeId source destination, times + 1) :: sketch.asked } := by
  simp [edge, quiet, sourceKnown, destinationKnown, stored, asked, bind, Except.bind, accepted,
    settle]

/-- Counting a text once more changes the count of this text alone. -/
theorem timesAsked_cons (sketch : Sketch) (builder : Builder Vertex Edge) (asked other : String)
    (times : Nat) :
    { sketch with builder := builder, asked := (asked, times) :: sketch.asked }.timesAsked other =
      if other = asked then times else sketch.timesAsked other := by
  by_cases same : other = asked
  · simp [timesAsked, same]
  · simp only [timesAsked, List.lookup_cons, beq_false_of_ne same, if_neg same]

/-! ## Following the rule -/

/-- The texts of the pairs asked for. -/
def texts (calls : List Call) : List String :=
  (pairs calls).map fun pair => edgeId pair.1 pair.2

/-- The sketch took all calls and named the edges by the rule. It counts texts. -/
structure Follows (sketch : Sketch) (calls : List Call) : Prop where
  quiet : sketch.fault = none
  ids : sketch.builder.ids = vertexIds calls
  links : sketch.builder.links = ruled calls
  counts : ∀ text, sketch.timesAsked text = (texts calls).count text

/-- A sketch that was asked for nothing follows the rule. -/
theorem follows_empty : empty.Follows [] :=
  ⟨rfl, rfl, rfl, fun _ => rfl⟩

/-- The sketch and the rule put numbers behind a text in the same way. -/
theorem numberedId_edgeId (source destination : String) (times : Nat) :
    numberedId (edgeId source destination) (times + 1) =
      pairId (source, destination) (times + 1) := by
  cases times with
  | zero => rfl
  | succ times => simp [numberedId, pairId, edgeId]

/-- Where texts tell pairs, counting texts counts pairs. -/
theorem count_texts {calls : List Call} (pair : String × String)
    (told : ∀ other ∈ pairs calls, edgeId other.1 other.2 = edgeId pair.1 pair.2 → other = pair) :
    (texts calls).count (edgeId pair.1 pair.2) = (pairs calls).count pair := by
  rw [texts, List.count, List.countP_map, List.count]
  apply List.countP_congr
  intro other member
  simp only [Function.comp_apply, beq_iff_eq]
  constructor
  · exact told other member
  · rintro rfl
    rfl

namespace Follows

variable {sketch : Sketch} {calls : List Call}

/-- A suitable vertex is added, and does not concern the names of edges. -/
theorem vertex (follows : sketch.Follows calls) {id : String} {values : List (Option Value)}
    (suits : (Call.vertex id values).Suits calls) :
    (sketch.vertex id values).Follows (calls ++ [.vertex id values]) := by
  obtain ⟨new, isOk⟩ := suits
  obtain ⟨bag, stored⟩ := exists_ok isOk
  have accepted := (Builder.addVertex_ok_iff sketch.builder _
    { Vertex.bare id (some id) with bag := bag }).mpr ⟨follows.ids ▸ new, rfl⟩
  rw [vertex_accepted sketch id values follows.quiet stored accepted]
  refine ⟨follows.quiet, ?_, ?_, ?_⟩
  · have longer : vertexIds (calls ++ [.vertex id values]) = vertexIds calls ++ [id] := by
      simp [vertexIds, vertexId?]
    rw [longer, ← follows.ids]
    exact List.map_append
  · rw [ruled_concat_vertex, ← follows.links]
    rfl
  · rw [texts, pairs_concat_vertex]
    exact follows.counts

/-- An edge gets the name that the rule gives it, if this name is new and the text of its pair is
not that of another pair. -/
theorem edge (follows : sketch.Follows calls) {source destination : String}
    {values : List (Option Value)} (suits : (Call.edge source destination values).Suits calls)
    (distinct : ((ruled (calls ++ [.edge source destination values])).map Link.id).Nodup) :
    (sketch.edge source destination values).Follows
      (calls ++ [.edge source destination values]) := by
  obtain ⟨different, sourceIn, destinationIn, isOk⟩ := suits
  obtain ⟨bag, stored⟩ := exists_ok isOk
  have asked : sketch.timesAsked (edgeId source destination) =
      (pairs calls).count (source, destination) := by
    rw [follows.counts]
    refine count_texts (source, destination) ?_
    intro other otherIn same
    refine pair_eq_of_distinct distinct ?_ ?_ same
    · exact pairs_concat_edge calls source destination values ▸ List.mem_append_left _ otherIn
    · exact pairs_concat_edge calls source destination values ▸ List.mem_append_right _ (by simp)
  have named := numberedId_edgeId source destination ((pairs calls).count (source, destination))
  have links := ruled_concat_edge calls source destination values
  have new : numberedId (edgeId source destination)
      ((pairs calls).count (source, destination) + 1) ∉ sketch.builder.links.map Link.id := by
    rw [links, List.map_append, ← follows.links] at distinct
    intro old
    exact (List.nodup_append.mp distinct).2.2 _ old _ (by simp) named
  have sourceKnown : source ∈ sketch.builder.ids := follows.ids ▸ sourceIn
  have destinationKnown : destination ∈ sketch.builder.ids := follows.ids ▸ destinationIn
  have accepted := (Builder.connect_ok_iff sketch.builder _
    { Edge.bare (numberedId (edgeId source destination)
      ((pairs calls).count (source, destination) + 1)) source destination with bag := bag }).mpr
    ⟨(sketch.builder.linkDefect_none_iff _).mpr ⟨new, different, sourceKnown, destinationKnown⟩,
      rfl⟩
  rw [edge_accepted sketch source destination values follows.quiet sourceKnown destinationKnown
    stored asked accepted]
  refine ⟨follows.quiet, ?_, ?_, ?_⟩
  · have same : vertexIds (calls ++ [.edge source destination values]) = vertexIds calls := by
      rw [vertexIds, List.filterMap_append]
      exact List.append_nil _
    rw [same]
    exact follows.ids
  · rw [links, ← follows.links, ← named]
    exact List.map_append
  · intro text
    have longer : texts (calls ++ [.edge source destination values]) =
        texts calls ++ [edgeId source destination] := by
      rw [texts, pairs_concat_edge, List.map_append]
      rfl
    rw [timesAsked_cons, longer, List.count_append, List.count_singleton, ← asked]
    by_cases here : text = edgeId source destination
    · rw [if_pos here, here, follows.counts]
      simp
    · rw [if_neg here, follows.counts]
      simp [Ne.symm here]

end Follows

/-- One more call is performed on the sketch after the others. -/
theorem afterCalls_concat (sketch : Sketch) (calls : List Call) (call : Call) :
    sketch.afterCalls (calls ++ [call]) = (sketch.afterCalls calls).perform call :=
  List.foldl_append

/-- Where the rule names no two edges alike, a sketch follows it through all calls. -/
theorem follows_afterCalls {calls : List Call} (orderly : Orderly calls)
    (distinct : ((ruled calls).map Link.id).Nodup) : (empty.afterCalls calls).Follows calls := by
  induction calls using List.reverseRecOn with
  | nil => exact follows_empty
  | append_singleton before call inductionHypothesis =>
      obtain ⟨orderlyBefore, suits, _⟩ := (orderly_append before [call]).mp orderly
      have distinctBefore : ((ruled before).map Link.id).Nodup :=
        distinct.sublist ((ruled_prefix_append before [call]).map _).sublist
      have follows := inductionHypothesis orderlyBefore distinctBefore
      rw [afterCalls_concat]
      cases call with
      | vertex id values => exact follows.vertex suits
      | edge source destination values => exact follows.edge suits distinct

/-! ## Ids are distinct anyway -/

/-- Settling a result keeps the builder proper: it takes the new one over, or stays with its own. -/
theorem settle_proper {sketch : Sketch} {result : Except Fault (Builder Vertex Edge)}
    (proper : sketch.builder.Proper) (next : ∀ after, result = .ok after → after.Proper) :
    (sketch.settle result).builder.Proper := by
  cases result with
  | ok after => exact next after rfl
  | error fault => exact proper

/-- Asking for a vertex keeps the builder proper, whether it is accepted or not. -/
theorem vertex_proper {sketch : Sketch} (proper : sketch.builder.Proper) (id : String)
    (values : List (Option Value)) : (sketch.vertex id values).builder.Proper := by
  unfold vertex
  split
  · exact proper
  · cases (Bag.empty .vertex).setAll values with
    | error fault => exact proper
    | ok bag => exact settle_proper proper fun after accepted => proper.addVertex _ accepted

/-- Asking for an edge keeps the builder proper, whether it is accepted or not. -/
theorem edge_proper {sketch : Sketch} (proper : sketch.builder.Proper) (source destination : String)
    (values : List (Option Value)) : (sketch.edge source destination values).builder.Proper := by
  unfold edge
  split
  · exact proper
  · split
    · exact proper
    · split
      · exact proper
      · cases (Bag.empty .edge).setAll values with
        | error fault => exact proper
        | ok bag =>
            refine settle_proper ?_ fun after accepted => proper.connect _ accepted
            exact proper

/-- Whatever is called, accepted or not, the builder stays proper. -/
theorem afterCalls_proper (calls : List Call) : (empty.afterCalls calls).builder.Proper := by
  induction calls using List.reverseRecOn with
  | nil => exact Builder.proper_empty
  | append_singleton before call inductionHypothesis =>
      rw [afterCalls_concat]
      cases call with
      | vertex id values => exact vertex_proper inductionHypothesis id values
      | edge source destination values =>
          exact edge_proper inductionHypothesis source destination values

/-- Calls that add new vertices and edges between different vertices which are there, with values
that are accepted, are all accepted themselves and name every edge by its pair and its number,
exactly if this rule names no two of the edges alike.

It does not name two of them alike if no destination of an edge holds an arrow and none is another
destination with a number above one behind it. -/
theorem edges_named_by_pairs (calls : List Call) (orderly : Orderly calls) :
    (NamedByPairs calls ↔ ((ruled calls).map Link.id).Nodup) ∧
      (Clear ((pairs calls).map Prod.snd) → NamedByPairs calls) := by
  have named : ((ruled calls).map Link.id).Nodup → NamedByPairs calls := by
    intro distinct before isPrefix
    obtain ⟨rest, rfl⟩ := isPrefix
    have distinctBefore : ((ruled before).map Link.id).Nodup :=
      distinct.sublist ((ruled_prefix_append before rest).map _).sublist
    have follows := follows_afterCalls ((orderly_append before rest).mp orderly).1 distinctBefore
    exact ⟨follows.quiet, follows.links⟩
  refine ⟨⟨?_, named⟩, fun clear => named clear.distinct⟩
  intro isNamed
  obtain ⟨_, links⟩ := isNamed calls (List.prefix_refl calls)
  rw [← links]
  exact (afterCalls_proper calls).distinctLinks

/-- Parallel edges from a vertex whose id holds an arrow, beside one to a vertex whose id ends like
the name of a first edge. -/
def parallelEdges : List Call :=
  [.vertex "a->b" [], .vertex "c" [], .vertex "c#1" [some (.parallelism 2)], .edge "a->b" "c" [],
    .edge "a->b" "c#1" [], .edge "a->b" "c" [some (.pattern .shuffle)]]

/-- The arrow in an id and the number one behind another do no harm, as the rule names no two edges
alike. -/
theorem parallelEdges_named :
    Orderly parallelEdges ∧ NamedByPairs parallelEdges ∧
      (empty.afterCalls parallelEdges).builder.links.map Link.id =
        ["a->b->c", "a->b->c#1", "a->b->c#2"] := by
  have orderly : Orderly parallelEdges := by decide +kernel
  have named := (edges_named_by_pairs parallelEdges orderly).1.mpr (by decide +kernel)
  refine ⟨orderly, named, ?_⟩
  rw [(named parallelEdges (List.prefix_refl _)).2]
  decide +kernel

/-- The second edge to `b` and the first one to `b#2` are both named `a->b#2`. -/
def hashedIds : List Call :=
  [.vertex "a" [], .vertex "b" [], .vertex "b#2" [], .edge "a" "b" [], .edge "a" "b" [],
    .edge "a" "b#2" []]

/-- The first edges of two pairs are both named `a->b->c`. -/
def arrowedIds : List Call :=
  [.vertex "a->b" [], .vertex "c" [], .vertex "a" [], .vertex "b->c" [], .edge "a->b" "c" [],
    .edge "a" "b->c" []]

/-- The rule cannot be followed for arbitrary ids: a call that names an edge like another one is
refused, or an edge gets another name. -/
theorem rule_names_alike :
    (Orderly hashedIds ∧ (empty.afterCalls hashedIds).fault =
        some (.structural (.duplicateEdge "a->b#2")) ∧ ¬ NamedByPairs hashedIds) ∧
      Orderly arrowedIds ∧ (empty.afterCalls arrowedIds).builder.links.map Link.id =
        ["a->b->c", "a->b->c#2"] ∧ ¬ NamedByPairs arrowedIds := by
  have refused : (empty.afterCalls hashedIds).fault =
      some (.structural (.duplicateEdge "a->b#2")) := rfl
  have renamed : (empty.afterCalls arrowedIds).builder.links.map Link.id =
      ["a->b->c", "a->b->c#2"] := by decide +kernel
  refine ⟨⟨by decide +kernel, refused, ?_⟩, by decide +kernel, renamed, ?_⟩
  · intro named
    have quiet := (named hashedIds (List.prefix_refl _)).1
    rw [refused] at quiet
    cases quiet
  · intro named
    have links := (named arrowedIds (List.prefix_refl _)).2
    rw [links] at renamed
    exact absurd renamed (by decide +kernel)

end Flowplan.Sketch
