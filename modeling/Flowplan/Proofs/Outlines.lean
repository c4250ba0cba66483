import Flowplan.Plan.Fingerprint
import Flowplan.Proofs.Bags
import Flowplan.Proofs.Texts

/-!
# Outlines of plans

The text that is digested for the fingerprint of a plan is made of its outline: of each stage the
parallelism and the vertices, of each stage edge the numbers of its two stages, the edges listed on
it and the values it holds.

An outline can be read off the text if its ids hold neither commas nor line breaks, its formats hold
no comma before a blank, and every stage edge holds the pattern of shuffles first. The lines of
stages are read from the front. The lines of stage edges are read from behind, since a format may
hold line breaks and look like further lines: from the end of a line one value after another is cut
off, down to the pattern, before which there are ids only.
-/

namespace Flowplan

/-- What the text of a plan tells of a stage. -/
structure Stage.Outline where
  parallelism : Int
  members : List String
  deriving DecidableEq, Repr

/-- What the text of a plan tells of a stage edge. -/
structure StageEdge.Outline where
  /-- The numbers of the two stages, in topological order. -/
  source : Nat
  destination : Nat
  bundled : List String
  /-- The values, in increasing order of kind. -/
  values : List Value
  deriving DecidableEq, Repr

/-- A plan without the drawn identities. -/
structure Plan.Outline where
  stages : List Stage.Outline
  edges : List StageEdge.Outline
  deriving DecidableEq, Repr

/-- What is left of a plan without the drawn identities: stage edges name their stages by number. -/
def Plan.outline (plan : Plan) : Plan.Outline where
  stages := plan.stages.map fun stage => ⟨stage.parallelism, stage.memberIds⟩
  edges := plan.stageGraph.edges.map fun edge =>
    ⟨plan.stageNumber edge.source, plan.stageNumber edge.destination, edge.bundled, edge.bag.values⟩

/-! ## The letters of an outline -/

/-- The letters of a stage, without the line break behind them. -/
def Stage.Outline.letters (number : Nat) (stage : Stage.Outline) : List Char :=
  'S' :: ((toString number).toList ++ '|' ::
    ((toString stage.parallelism).toList ++ '|' :: commas stage.members))

namespace StageEdge.Outline

/-- The letters of a stage edge before its values. -/
def front (edge : StageEdge.Outline) : List Char :=
  'E' :: ((toString edge.source).toList ++ '>' ::
    ((toString edge.destination).toList ++ '|' :: commas edge.bundled))

/-- The letters of a stage edge, up to and with the line break. -/
def letters (edge : StageEdge.Outline) : List Char :=
  edge.front ++ ['|', '\x7b'] ++
    [',', ' '].intercalate (edge.values.map fun value => value.text.toList) ++ ['\x7d', '\n']

end StageEdge.Outline

namespace Plan

/-- The letters of an outline, line by line. -/
def Outline.letters (outline : Outline) : List Char :=
  (outline.stages.mapIdx Stage.Outline.letters).flatMap (fun line => line ++ ['\n']) ++
    outline.edges.flatMap StageEdge.Outline.letters

/-- The line of a stage tells its outline. -/
theorem toList_stageLine (number : Nat) (stage : Stage) :
    (stageLine number stage).toList =
      Stage.Outline.letters number ⟨stage.parallelism, stage.memberIds⟩ ++ ['\n'] := by
  have mark : "S".toList = ['S'] := by decide
  have bar : "|".toList = ['|'] := by decide
  have lineBreak : "\n".toList = ['\n'] := by decide
  simp only [stageLine, Stage.Outline.letters, String.toList_append, toList_commas, mark, bar,
    lineBreak, List.append_assoc, List.cons_append, List.nil_append]

/-- The line of a stage edge tells its outline. -/
theorem toList_edgeLine (plan : Plan) (edge : StageEdge) :
    (plan.edgeLine edge).toList = StageEdge.Outline.letters ⟨plan.stageNumber edge.source,
      plan.stageNumber edge.destination, edge.bundled, edge.bag.values⟩ := by
  have mark : "E".toList = ['E'] := by decide
  have leads : ">".toList = ['>'] := by decide
  have bar : "|".toList = ['|'] := by decide
  have lineBreak : "\n".toList = ['\n'] := by decide
  have opened : "\x7b".toList = ['\x7b'] := by decide
  have closed : "\x7d".toList = ['\x7d'] := by decide
  have separated : ", ".toList = [',', ' '] := by decide
  have values : (", ".intercalate (edge.bag.values.map Value.text)).toList =
      [',', ' '].intercalate (edge.bag.values.map fun value => value.text.toList) := by
    rw [String.toList_intercalate, List.map_map, separated]
    rfl
  simp only [edgeLine, StageEdge.Outline.letters, StageEdge.Outline.front, Bag.text, Bag.texts,
    String.toList_append, toList_commas, values, mark, leads, bar, lineBreak, opened, closed,
    List.append_assoc, List.cons_append, List.nil_append]

/-- The text which is digested tells nothing but the outline. -/
theorem toList_structureText (plan : Plan) : plan.structureText.toList = plan.outline.letters := by
  have stageLines : (plan.stages.mapIdx stageLine).map String.toList =
      ((plan.outline.stages.mapIdx Stage.Outline.letters).map fun line => line ++ ['\n']) := by
    apply List.ext_getElem?
    intro index
    simp only [outline, List.getElem?_map, List.getElem?_mapIdx, Option.map_map,
      Function.comp_def, toList_stageLine]
  have edgeLines : (plan.stageGraph.edges.map plan.edgeLine).map String.toList =
      plan.outline.edges.map StageEdge.Outline.letters := by
    rw [outline, List.map_map, List.map_map]
    exact List.map_congr_left fun edge _ => plan.toList_edgeLine edge
  rw [structureText, Outline.letters, String.toList_append, String.toList_join, String.toList_join,
    List.flatMap_def, stageLines, List.flatMap_def, edgeLines, ← List.flatMap_def,
    ← List.flatMap_def]

end Plan

/-! ## Ids and values -/

/-- Ids that can be told from the separators around them. -/
def Plain (id : String) : Prop := ',' ∉ id.toList ∧ '\n' ∉ id.toList

instance : DecidablePred Plain := fun _ => instDecidableAnd

namespace Value

/-- Values that their texts tell: not those of others, whose texts can be any, and no coder whose
format looks like a further value. -/
def Legible : Value → Prop
  | encoder format | decoder format => ¬ [',', ' '] <:+: format.toList
  | foreign _ => False
  | _ => True

instance : DecidablePred Legible
  | encoder format | decoder format => inferInstanceAs (Decidable ¬ [',', ' '] <:+: format.toList)
  | foreign _ => instDecidableFalse
  | pattern _ | partitioner _ | parallelism _ => instDecidableTrue

/-- The legible values that a stage edge holds besides its pattern. -/
inductive Told : Value → Prop
  | encoder (format : String) (plain : ¬ [',', ' '] <:+: format.toList) : Told (.encoder format)
  | decoder (format : String) (plain : ¬ [',', ' '] <:+: format.toList) : Told (.decoder format)
  | hash : Told (.partitioner .hash)
  | range : Told (.partitioner .range)
  | intact : Told (.partitioner .intact)

/-- Legible values that edges accept are told, except for patterns. -/
theorem told_of_accepted {value : Value} (legible : value.Legible)
    (accepted : (Bag.empty .edge).objection (some value) = none)
    (other : value.kind ≠ .communicationPattern) : value.Told := by
  obtain ⟨_, annotates, inDomain⟩ := (Bag.objection_eq_none_iff _ value).mp accepted
  cases value with
  | pattern _ => exact absurd rfl other
  | encoder format => exact .encoder format legible
  | decoder format => exact .decoder format legible
  | parallelism instances =>
      have ofVertices : Kind.parallelism.target ≠ Target.edge := by decide
      exact absurd annotates ofVertices
  | foreign _ => exact absurd legible id
  | partitioner distribution =>
      obtain ⟨code⟩ := distribution
      have codes : code = 1 ∨ code = 2 ∨ code = 3 := by
        by_contra outside
        have unknown : ¬ (1 ≤ code ∧ code ≤ 3) := by omega
        simp [objection, unknown] at inDomain
      rcases codes with rfl | rfl | rfl
      · exact .hash
      · exact .range
      · exact .intact

/-- The told value with the given letters. -/
def read (letters : List Char) : Value :=
  if letters.head? = some 'E' then .encoder (String.ofList (letters.drop 8).dropLast)
  else if letters.head? = some 'D' then .decoder (String.ofList (letters.drop 8).dropLast)
  else if letters.head? = some 'H' then .partitioner .hash
  else if letters.head? = some 'R' then .partitioner .range
  else .partitioner .intact

namespace Told

variable {value other : Value}

/-- The letters of an encoder, with its format in brackets. -/
theorem letters_encoder (format : String) : (Value.encoder format).text.toList =
    ['E', 'n', 'c', 'o', 'd', 'e', 'r', '('] ++ format.toList ++ [')'] := by
  have opened : "Encoder(".toList = ['E', 'n', 'c', 'o', 'd', 'e', 'r', '('] := by decide
  have closed : ")".toList = [')'] := by decide
  simp only [text, String.toList_append, opened, closed]

/-- The letters of a decoder, with its format in brackets. -/
theorem letters_decoder (format : String) : (Value.decoder format).text.toList =
    ['D', 'e', 'c', 'o', 'd', 'e', 'r', '('] ++ format.toList ++ [')'] := by
  have opened : "Decoder(".toList = ['D', 'e', 'c', 'o', 'd', 'e', 'r', '('] := by decide
  have closed : ")".toList = [')'] := by decide
  simp only [text, String.toList_append, opened, closed]

/-- A told value is read back from its text. -/
theorem read_text (told : value.Told) : read value.text.toList = value := by
  cases told with
  | encoder format _ =>
      rw [letters_encoder]
      simp [read]
  | decoder format _ =>
      rw [letters_decoder]
      simp [read]
  | hash => decide
  | range => decide
  | intact => decide

/-- Told values with the same text are the same. -/
theorem text_injective (told : value.Told) (otherTold : other.Told)
    (same : value.text.toList = other.text.toList) : value = other := by
  rw [← told.read_text, same, otherTold.read_text]

/-- A format in brackets holds a comma before a blank only if it does so itself. -/
theorem bracketed_unseparated {opened format : List Char} (noComma : ',' ∉ opened)
    (plain : ¬ [',', ' '] <:+: format) : ¬ [',', ' '] <:+: opened ++ format ++ [')'] := by
  intro stands
  rcases pair_infix_append stands with inFront | inLast | ⟨_, last⟩
  · rcases pair_infix_append inFront with inOpened | inFormat | ⟨comma, _⟩
    · exact noComma (inOpened.subset (by simp))
    · exact plain inFormat
    · exact noComma comma
  · exact absurd (inLast.subset List.mem_cons_self) (by decide)
  · exact absurd last (by decide)

/-- No told value looks like two. -/
theorem unseparated (told : value.Told) : ¬ [',', ' '] <:+: value.text.toList := by
  cases told with
  | encoder format plain =>
      rw [letters_encoder]
      exact bracketed_unseparated (by decide) plain
  | decoder format plain =>
      rw [letters_decoder]
      exact bracketed_unseparated (by decide) plain
  | hash => decide
  | range => decide
  | intact => decide

/-- No told value ends like the pattern of shuffles. -/
theorem not_ends (told : value.Told) : ¬ ['l', 'e'] <:+ value.text.toList := by
  have bracketed : ∀ front : List Char, ¬ ['l', 'e'] <:+ front ++ [')'] := by
    intro front ends
    obtain ⟨rest, same⟩ := ends
    have last := congrArg List.getLast? same
    simp at last
  cases told with
  | encoder format _ =>
      rw [letters_encoder]
      exact bracketed _
  | decoder format _ =>
      rw [letters_decoder]
      exact bracketed _
  | hash => decide
  | range => decide
  | intact => decide

/-- The text of a told value is longer than a separator. -/
theorem two_lt_length (told : value.Told) : 2 < value.text.toList.length := by
  cases told with
  | encoder format _ =>
      rw [letters_encoder]
      simp
  | decoder format _ =>
      rw [letters_decoder]
      simp
  | hash => decide
  | range => decide
  | intact => decide

end Told

end Value

/-! ## Stage edges -/

namespace StageEdge.Outline

/-- Stage edges that can be read off their letters. -/
structure Legible (edge : StageEdge.Outline) : Prop where
  inhabited : edge.bundled ≠ []
  plain : ∀ id ∈ edge.bundled, Plain id
  values : ∃ others, edge.values = .pattern .shuffle :: others ∧ ∀ value ∈ others, value.Told

/-- The letters between the ids of a stage edge and the values behind its pattern. -/
def opening : List Char := ['|', '\x7b', 'S', 'h', 'u', 'f', 'f', 'l', 'e']

/-- The letters of the values behind the pattern. -/
def behind (others : List Value) : List Char :=
  others.flatMap fun value => [',', ' '] ++ value.text.toList

/-- One more value stands behind a comma and a blank. -/
theorem behind_concat (others : List Value) (value : Value) :
    behind (others ++ [value]) = behind others ++ ',' :: ' ' :: value.text.toList := by
  simp [behind]

/-- The letters of a stage edge that shuffles, cut before the values behind its pattern and behind
them. -/
theorem letters_eq {edge : StageEdge.Outline} {others : List Value}
    (values : edge.values = .pattern .shuffle :: others) :
    edge.letters = edge.front ++ opening ++ behind others ++ ['\x7d', '\n'] := by
  have pattern : (Value.pattern .shuffle).text.toList = ['S', 'h', 'u', 'f', 'f', 'l', 'e'] := by
    decide
  rw [letters, values, List.map_cons, intercalate_cons, pattern, List.flatMap_map, opening, behind]
  simp only [List.append_assoc, List.cons_append, List.nil_append]

/-- The pattern is not taken for a value behind it. -/
theorem opening_ne_behind {last : Value} (told : last.Told) (front otherFront : List Char)
    (others : List Value) : front ++ opening ≠ otherFront ++ behind (others ++ [last]) := by
  intro same
  have pattern : ['l', 'e'] <:+ front ++ opening :=
    ⟨front ++ ['|', '\x7b', 'S', 'h', 'u', 'f', 'f'], by simp [opening]⟩
  have text : last.text.toList <:+ front ++ opening := by
    refine ⟨otherFront ++ behind others ++ [',', ' '], ?_⟩
    simp [same, behind_concat]
  cases List.suffix_or_suffix_of_suffix pattern text with
  | inl ends => exact told.not_ends ends
  | inr short =>
      have bounded : last.text.toList.length ≤ 2 := short.length_le
      have longer := told.two_lt_length
      omega

/-- From behind, the values are told from what is before them. -/
theorem behind_inj {front otherFront : List Char} {others more : List Value}
    (told : ∀ value ∈ others, value.Told) (moreTold : ∀ value ∈ more, value.Told)
    (same : front ++ opening ++ behind others = otherFront ++ opening ++ behind more) :
    front = otherFront ∧ others = more := by
  have none : behind [] = [] := rfl
  induction others using List.reverseRecOn generalizing more with
  | nil =>
      cases List.eq_nil_or_concat' more with
      | inl empty =>
          subst empty
          exact ⟨List.append_cancel_right (List.append_cancel_right same), rfl⟩
      | inr nonempty =>
          obtain ⟨more, last, rfl⟩ := nonempty
          rw [none, List.append_nil] at same
          exact absurd same (opening_ne_behind (moreTold last (by simp)) _ _ _)
  | append_singleton others last inductionHypothesis =>
      have lastTold := told last (by simp)
      cases List.eq_nil_or_concat' more with
      | inl empty =>
          subst empty
          rw [none, List.append_nil] at same
          exact absurd same.symm (opening_ne_behind lastTold _ _ _)
      | inr nonempty =>
          obtain ⟨more, otherLast, rfl⟩ := nonempty
          have otherTold := moreTold otherLast (by simp)
          rw [behind_concat, behind_concat, ← List.append_assoc, ← List.append_assoc] at same
          obtain ⟨before, text⟩ := append_pair_inj (by decide) lastTold.unseparated
            otherTold.unseparated same
          obtain ⟨fronts, rfl⟩ := inductionHypothesis
            (fun value member => told value (List.mem_append_left _ member))
            (fun value member => moreTold value (List.mem_append_left _ member)) before
          exact ⟨fronts, by rw [lastTold.text_injective otherTold text]⟩

/-- There is no line break before the values of a legible stage edge. -/
theorem front_plain {edge : StageEdge.Outline} (legible : edge.Legible) : '\n' ∉ edge.front := by
  have noBreak : ∀ number : Nat, '\n' ∉ (toString number).toList := not_mem_digits (by decide)
  have ids : '\n' ∉ commas edge.bundled :=
    not_mem_commas (by decide) fun id member => (legible.plain id member).2
  simp only [front, List.mem_cons, List.mem_append, not_or]
  exact ⟨by decide, noBreak edge.source, by decide, noBreak edge.destination, by decide, ids⟩

/-- What stands before the values of a stage edge tells its ends and the edges listed on it. -/
theorem front_injective {edge other : StageEdge.Outline} (legible : edge.Legible)
    (otherLegible : other.Legible) (same : edge.front = other.front) :
    edge.source = other.source ∧ edge.destination = other.destination ∧
      edge.bundled = other.bundled := by
  have noArrow : ∀ number : Nat, '>' ∉ (toString number).toList := not_mem_digits (by decide)
  have noBar : ∀ number : Nat, '|' ∉ (toString number).toList := not_mem_digits (by decide)
  obtain ⟨sources, rest⟩ := append_cons_inj_of_not_mem (noArrow edge.source)
    (noArrow other.source) (List.cons.inj same).2
  obtain ⟨destinations, ids⟩ := append_cons_inj_of_not_mem (noBar edge.destination)
    (noBar other.destination) rest
  exact ⟨toString_injective sources, toString_injective destinations,
    commas_injective legible.inhabited otherLegible.inhabited
      (fun id member => (legible.plain id member).1)
      (fun id member => (otherLegible.plain id member).1) ids⟩

/-- The lines of stage edges end with line breaks. -/
theorem lines_end (edges : List StageEdge.Outline) :
    ∀ letter ∈ (edges.flatMap letters).getLast?, letter = '\n' := by
  cases List.eq_nil_or_concat' edges with
  | inl empty => simp [empty]
  | inr nonempty =>
      obtain ⟨edges, last, rfl⟩ := nonempty
      have ends : ((edges ++ [last]).flatMap letters).getLast? = some '\n' := by
        rw [List.flatMap_append, List.flatMap_singleton, letters, List.getLast?_append,
          List.getLast?_append]
        rfl
      intro letter isLast
      rw [ends] at isLast
      exact (Option.some.inj isLast).symm

/-- The line of the last stage edge is told from those before it. -/
theorem line_inj {edges others : List StageEdge.Outline} {edge other : StageEdge.Outline}
    (legible : edge.Legible) (otherLegible : other.Legible)
    (same : edges.flatMap letters ++ edge.letters = others.flatMap letters ++ other.letters) :
    edges.flatMap letters = others.flatMap letters ∧ edge = other := by
  obtain ⟨values, isValues, told⟩ := legible.values
  obtain ⟨otherValues, isOtherValues, otherTold⟩ := otherLegible.values
  rw [letters_eq isValues, letters_eq isOtherValues] at same
  simp only [← List.append_assoc] at same
  obtain ⟨before, rfl⟩ := behind_inj told otherTold (List.append_cancel_right same)
  obtain ⟨lines, fronts⟩ := append_inj_of_ends (lines_end edges) (lines_end others)
    (front_plain legible) (front_plain otherLegible) before
  obtain ⟨sources, destinations, bundled⟩ := front_injective legible otherLegible fronts
  refine ⟨lines, ?_⟩
  cases edge
  cases other
  rw [mk.injEq]
  exact ⟨sources, destinations, bundled, isValues.trans isOtherValues.symm⟩

/-- Stage edges are told from all their lines. -/
theorem lines_injective {edges others : List StageEdge.Outline}
    (legible : ∀ edge ∈ edges, edge.Legible) (otherLegible : ∀ edge ∈ others, edge.Legible)
    (same : edges.flatMap letters = others.flatMap letters) : edges = others := by
  have written : ∀ (edges : List StageEdge.Outline) (last : StageEdge.Outline),
      (edges ++ [last]).flatMap letters ≠ [] := by
    intro edges last
    simp [letters]
  induction edges using List.reverseRecOn generalizing others with
  | nil =>
      cases List.eq_nil_or_concat' others with
      | inl empty => exact empty.symm
      | inr nonempty =>
          obtain ⟨others, last, rfl⟩ := nonempty
          exact absurd same.symm (written others last)
  | append_singleton edges last inductionHypothesis =>
      cases List.eq_nil_or_concat' others with
      | inl empty =>
          subst empty
          exact absurd same (written edges last)
      | inr nonempty =>
          obtain ⟨others, otherLast, rfl⟩ := nonempty
          rw [List.flatMap_append, List.flatMap_append, List.flatMap_singleton,
            List.flatMap_singleton] at same
          obtain ⟨before, rfl⟩ := line_inj (legible last (by simp))
            (otherLegible otherLast (by simp)) same
          rw [inductionHypothesis
            (fun edge member => legible edge (List.mem_append_left _ member))
            (fun edge member => otherLegible edge (List.mem_append_left _ member)) before]

end StageEdge.Outline

/-! ## Stages -/

namespace Stage.Outline

/-- Stages that can be read off their letters. -/
structure Legible (stage : Stage.Outline) : Prop where
  inhabited : stage.members ≠ []
  plain : ∀ id ∈ stage.members, Plain id

/-- The letters of a stage are one line, which no stage edge begins like. -/
theorem letters_line {stage : Stage.Outline} (legible : stage.Legible) (number : Nat) :
    (letters number stage).head? = some 'S' ∧ '\n' ∉ letters number stage := by
  have ids : '\n' ∉ commas stage.members :=
    not_mem_commas (by decide) fun id member => (legible.plain id member).2
  refine ⟨rfl, ?_⟩
  simp only [letters, List.mem_cons, List.mem_append, not_or]
  exact ⟨by decide, not_mem_digits (by decide) number, by decide,
    not_mem_signed_digits (by decide) (by decide) stage.parallelism, by decide, ids⟩

/-- A legible stage is read off its letters. -/
theorem letters_injective {stage other : Stage.Outline} (legible : stage.Legible)
    (otherLegible : other.Legible) (number : Nat)
    (same : letters number stage = letters number other) : stage = other := by
  have noBar : ∀ instances : Int, '|' ∉ (toString instances).toList :=
    not_mem_signed_digits (by decide) (by decide)
  have rest := (List.cons.inj (List.append_cancel_left (List.cons.inj same).2)).2
  obtain ⟨digits, ids⟩ := append_cons_inj_of_not_mem (noBar stage.parallelism)
    (noBar other.parallelism) rest
  have parallelisms : stage.parallelism = other.parallelism := signed_injective digits
  have members := commas_injective legible.inhabited otherLegible.inhabited
    (fun id member => (legible.plain id member).1)
    (fun id member => (otherLegible.plain id member).1) ids
  cases stage
  cases other
  rw [mk.injEq]
  exact ⟨parallelisms, members⟩

/-- Stages are told from all their lines. -/
theorem lines_injective {stages others : List Stage.Outline}
    (legible : ∀ stage ∈ stages, stage.Legible) (otherLegible : ∀ stage ∈ others, stage.Legible)
    (same : stages.mapIdx letters = others.mapIdx letters) : stages = others := by
  apply List.ext_getElem?
  intro index
  have lines := congrArg (fun lines => lines[index]?) same
  simp only [List.getElem?_mapIdx] at lines
  cases stands : stages[index]? with
  | none =>
      rw [stands] at lines
      exact (Option.map_eq_none_iff.mp lines.symm).symm
  | some stage =>
      rw [stands, Option.map_some] at lines
      obtain ⟨other, otherStands, sameLine⟩ := Option.map_eq_some_iff.mp lines.symm
      rw [otherStands, letters_injective (legible stage (List.mem_of_getElem? stands))
        (otherLegible other (List.mem_of_getElem? otherStands)) index sameLine.symm]

end Stage.Outline

/-! ## Plans -/

namespace Plan.Outline

/-- Outlines that can be read off their letters. -/
structure Legible (outline : Plan.Outline) : Prop where
  stages : ∀ stage ∈ outline.stages, stage.Legible
  edges : ∀ edge ∈ outline.edges, edge.Legible

/-- A legible outline is read off its letters. -/
theorem letters_injective {outline other : Plan.Outline} (legible : outline.Legible)
    (otherLegible : other.Legible) (same : outline.letters = other.letters) : outline = other := by
  have stageLines : ∀ {outline : Plan.Outline}, outline.Legible →
      ∀ line ∈ outline.stages.mapIdx Stage.Outline.letters,
        line.head? = some 'S' ∧ '\n' ∉ line := by
    intro outline legible line member
    obtain ⟨number, bound, rfl⟩ := List.mem_mapIdx.mp member
    exact Stage.Outline.letters_line (legible.stages _ (List.getElem_mem bound)) number
  have edgeLines : ∀ edges : List StageEdge.Outline,
      (edges.flatMap StageEdge.Outline.letters).head? ≠ some 'S' := by
    intro edges
    cases edges with
    | nil => simp
    | cons edge rest => simp [StageEdge.Outline.letters, StageEdge.Outline.front]
  obtain ⟨stages, edges⟩ := lines_inj (stageLines legible) (stageLines otherLegible)
    (edgeLines outline.edges) (edgeLines other.edges) same
  cases outline
  cases other
  rw [mk.injEq]
  exact ⟨Stage.Outline.lines_injective legible.stages otherLegible.stages stages,
    StageEdge.Outline.lines_injective legible.edges otherLegible.edges edges⟩

end Plan.Outline

end Flowplan
