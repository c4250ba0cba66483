import Flowplan.Pass.Pipeline

/-!
# The turn of a pass

What the two checks of a pass look for is said here without the checks: a graph is `Prepared` for a
pass, and what the pass made of it is `Delivered`. A pass `Succeeds` on a graph if it hands back a
graph that can be gone on with. A turn of the pipeline then has three ways to go, and which one it
takes depends on these conditions alone.
-/

namespace Flowplan

/-- Faults in a list are no fault exactly if there are none. -/
theorem Fault.ofList_ok_iff (faults : List Fault) : ofList faults = .ok () ↔ faults = [] := by
  cases faults <;> simp [ofList]

namespace Pass

/-- The pass visits an element, unless it narrows its visits to others. -/
def Visits (pass : Pass) (element : Element) : Prop :=
  ∀ visits, pass.visits = some visits → visits element = true

/-- The pass promises its product on an element, unless it narrows its promise to others. -/
def Promises (pass : Pass) (element : Element) : Prop :=
  ∀ promises, pass.promises = some promises → promises element = true

/-- Every element that the pass visits holds the prerequisites that annotate such elements. -/
def Prepared (pass : Pass) (graph : JobGraph) : Prop :=
  ∀ kind ∈ pass.prerequisites, ∀ element ∈ graph.elements,
    element.bag.target = kind.target → pass.Visits element → element.bag.has kind = true

/-- Every element on which the pass promises its product holds it. -/
def Delivered (pass : Pass) (graph : JobGraph) : Prop :=
  ∀ element ∈ graph.elements,
    element.bag.target = pass.produces.target → pass.Promises element →
      element.bag.has pass.produces = true

/-- The pass makes a graph of another one, and the pipeline has nothing to object to it. A graph
handed back as it was given is not validated. -/
structure Succeeds (pass : Pass) (verify : Bool) (graph next : JobGraph) : Prop where
  made : pass.make (some graph) = .ok (some next)
  valid : (pass.apply graph).returned ≠ .same → next.validate = .ok ()
  delivered : verify = true → pass.Delivered next

/-! ## The checks -/

/-- A kind is needed on an element exactly if it annotates such elements and the pass visits this
one. -/
theorem needsOn_iff (pass : Pass) (kind : Kind) (element : Element) :
    pass.needsOn kind element = true ↔
      element.bag.target = kind.target ∧ pass.Visits element := by
  unfold needsOn Visits
  cases pass.visits <;> simp

/-- The product is promised on an element exactly if it annotates such elements and the pass
promises it there. -/
theorem promisesOn_iff (pass : Pass) (element : Element) :
    pass.promisesOn element = true ↔
      element.bag.target = pass.produces.target ∧ pass.Promises element := by
  unfold promisesOn Promises
  cases pass.promises <;> simp

/-- The check before a pass finds nothing exactly if the graph is prepared for it. -/
theorem checkPrerequisites_ok_iff (pass : Pass) (graph : JobGraph) :
    pass.checkPrerequisites graph = .ok () ↔ pass.Prepared graph := by
  simp only [checkPrerequisites, unmetPrerequisites, Prepared, Fault.ofList_ok_iff,
    List.flatMap_eq_nil_iff, List.map_eq_nil_iff, List.filter_eq_nil_iff, Bool.and_eq_true,
    needsOn_iff, Bool.not_eq_true', not_and, and_imp, Bool.not_eq_false]

/-- The check behind a pass finds nothing exactly if the product has been delivered. -/
theorem checkProducts_ok_iff (pass : Pass) (graph : JobGraph) :
    pass.checkProducts graph = .ok () ↔ pass.Delivered graph := by
  simp only [checkProducts, missingProducts, Delivered, Fault.ofList_ok_iff,
    List.map_eq_nil_iff, List.filter_eq_nil_iff, Bool.and_eq_true, promisesOn_iff,
    Bool.not_eq_true', not_and, and_imp, Bool.not_eq_false]

/-- If the graph is not prepared, the check tells all that is missing. -/
theorem checkPrerequisites_unprepared (pass : Pass) (graph : JobGraph)
    (lacking : ¬ pass.Prepared graph) :
    pass.checkPrerequisites graph = .error (.several (pass.unmetPrerequisites graph)) := by
  rw [← checkPrerequisites_ok_iff] at lacking
  unfold checkPrerequisites at lacking ⊢
  cases unmet : pass.unmetPrerequisites graph with
  | nil => exact absurd (by simp [unmet, Fault.ofList]) lacking
  | cons first rest => rfl

end Pass

/-! ## The graph handed back -/

/-- After a pass has made a graph, a run goes on with that graph. -/
theorem Holding.after_current {pass : Pass} {holding : Holding} {next : JobGraph}
    (made : pass.make (some holding.current) = .ok (some next)) :
    (holding.after (pass.apply holding.current)).current = next := by
  unfold Pass.make at made
  unfold after
  cases returned : (pass.apply holding.current).returned with
  | same => simpa [returned] using made
  | rebuilt => simpa [returned] using made
  | other graph => simpa [returned] using made
  | nothing => simp [returned] at made
  | failed fault => simp [returned] at made
  | brokeOff breakage => simp [returned] at made

namespace Pass

/-- The products of a pass are checked if that is wanted. -/
theorem products_ok_iff (pass : Pass) (verify : Bool) (next : JobGraph) :
    (if verify then pass.checkProducts next else .ok ()) = .ok () ↔
      (verify = true → pass.Delivered next) := by
  cases verify with
  | false => simp
  | true => simpa using pass.checkProducts_ok_iff next

/-- To a graph that was made there is no objection if it is valid, unless it is the graph given,
and if its products are there, where that is asked for. -/
theorem objection_of_made (pass : Pass) (verify : Bool) {graph next : JobGraph}
    (made : pass.make (some graph) = .ok (some next)) :
    pass.objection verify (pass.apply graph) next = none ↔
      ((pass.apply graph).returned ≠ .same → next.validate = .ok ()) ∧
        (verify = true → pass.Delivered next) := by
  rw [← products_ok_iff]
  unfold objection
  unfold make at made
  generalize (if verify then pass.checkProducts next else .ok ()) = products
  cases returned : (pass.apply graph).returned with
  | same => cases products <;> simp
  | rebuilt => cases next.validate <;> cases products <;> simp [bind, Except.bind]
  | other graph => cases next.validate <;> cases products <;> simp [bind, Except.bind]
  | nothing => simp [returned] at made
  | failed fault => simp [returned] at made
  | brokeOff breakage => simp [returned] at made

/-- There is an objection to a pass that made no graph. -/
theorem objection_of_unmade (pass : Pass) (verify : Bool) {graph : JobGraph}
    (unmade : ∀ next, pass.make (some graph) ≠ .ok (some next)) (current : JobGraph) :
    pass.objection verify (pass.apply graph) current ≠ none := by
  unfold objection
  unfold make at unmade
  cases returned : (pass.apply graph).returned with
  | same => simp [returned] at unmade
  | rebuilt => simp [returned] at unmade
  | other graph => simp [returned] at unmade
  | nothing => simp
  | failed fault => simp
  | brokeOff breakage => simp

/-- A pass succeeds exactly if the pipeline has no objection. -/
theorem objection_none_iff (pass : Pass) (verify : Bool) (holding : Holding) :
    pass.objection verify (pass.apply holding.current)
        (holding.after (pass.apply holding.current)).current = none ↔
      ∃ next, pass.Succeeds verify holding.current next := by
  constructor
  · intro accepted
    by_cases made : ∃ next, pass.make (some holding.current) = .ok (some next)
    · obtain ⟨next, made⟩ := made
      rw [Holding.after_current made, objection_of_made pass verify made] at accepted
      exact ⟨next, made, accepted.1, accepted.2⟩
    · have unmade : ∀ next, pass.make (some holding.current) ≠ .ok (some next) :=
        fun next isMade => made ⟨next, isMade⟩
      exact absurd accepted (objection_of_unmade pass verify unmade _)
  · rintro ⟨next, succeeds⟩
    rw [Holding.after_current succeeds.made, objection_of_made pass verify succeeds.made]
    exact ⟨succeeds.valid, succeeds.delivered⟩

/-! ## The three ways of a turn -/

/-- The turn of a pass that lacks prerequisites ends before the pass is applied. -/
theorem attempt_unprepared (pass : Pass) (verify : Bool) (index : Nat) (holding : Holding)
    (lacking : ¬ pass.Prepared holding.current) :
    pass.attempt verify index holding =
      { events := [.moved ⟨index, pass.name, .validating⟩]
        holding := holding
        cancels := false
        fault := some (.several (pass.unmetPrerequisites holding.current)) } := by
  rw [attempt, checkPrerequisites_unprepared pass holding.current lacking]

/-- The turn of a prepared pass. -/
theorem attempt_prepared (pass : Pass) (verify : Bool) (index : Nat) (holding : Holding)
    (prepared : pass.Prepared holding.current) :
    pass.attempt verify index holding =
      { events := [.moved ⟨index, pass.name, .validating⟩, .moved ⟨index, pass.name, .applying⟩,
          .applied index holding.current]
        holding := holding.after (pass.apply holding.current)
        cancels := (pass.apply holding.current).cancels
        fault := pass.objection verify (pass.apply holding.current)
          (holding.after (pass.apply holding.current)).current } := by
  rw [attempt, (checkPrerequisites_ok_iff pass holding.current).mpr prepared]

end Pass

end Flowplan
