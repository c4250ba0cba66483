import Flowplan.Property.Bag

/-!
# What bags hold

A bag is `Filled` if accepted values lead to it from an empty one. Everything it holds would be
accepted again by any bag for the same elements, since acceptance looks at nothing but the value
and the elements the bag is for. Storing a value changes what is read under its kind only.
-/

namespace Flowplan

/-- A value passes its own check exactly if there is no objection to it. -/
theorem Value.validate_ok_iff (value : Value) :
    value.validate = .ok () ↔ value.objection = none := by
  unfold validate
  cases value.objection <;> simp

namespace Bag

/-- Bags for the given elements which a sequence of stored values leads to. -/
inductive Filled (target : Target) : Bag → Prop
  | empty : Filled target (.empty target)
  | set {bag after : Bag} (value : Option Value) (before : Filled target bag)
      (stored : bag.set value = .ok after) : Filled target after

/-- Whether a value is refused depends on the bag's elements, not on what it holds. -/
theorem objection_congr (bag other : Bag) (same : bag.target = other.target)
    (value : Option Value) : bag.objection value = other.objection value := by
  cases value with
  | none => rfl
  | some value => simp [objection, same]

/-- A value is accepted if its kind is declared and of the bag's elements, and it is in the domain
of the kind. -/
theorem objection_eq_none_iff (bag : Bag) (value : Value) :
    bag.objection (some value) = none ↔
      value.kind.declared = true ∧ value.kind.target = bag.target ∧ value.objection = none := by
  cases declared : value.kind.declared with
  | false => simp [objection, declared]
  | true =>
      by_cases annotates : value.kind.target = bag.target <;> simp [objection, declared, annotates]

/-- A value is stored exactly if the bag does not object to it, and then it is put in its place. -/
theorem set_ok_iff (bag after : Bag) (value : Value) :
    bag.set (some value) = .ok after ↔
      bag.objection (some value) = none ∧ after = { bag with values := put value bag.values } := by
  unfold set
  cases bag.objection (some value) with
  | none => simp [eq_comm]
  | some fault => simp

/-- A missing value is never stored. -/
theorem set_none_refused (bag after : Bag) : bag.set none ≠ .ok after := by
  simp [set, objection]

/-- Whatever is held after a value was put in its place is this value or was held before. -/
theorem mem_put (value : Value) (values : List Value) (held : Value)
    (member : held ∈ put value values) : held = value ∨ held ∈ values := by
  induction values with
  | nil => exact Or.inl (List.mem_singleton.mp member)
  | cons first rest inductionHypothesis =>
      unfold put at member
      split at member
      · exact List.mem_cons.mp member
      · split at member
        · rcases List.mem_cons.mp member with new | old
          · exact Or.inl new
          · exact Or.inr (List.mem_cons_of_mem first old)
        · rcases List.mem_cons.mp member with rfl | later
          · exact Or.inr List.mem_cons_self
          · rcases inductionHypothesis later with new | old
            · exact Or.inl new
            · exact Or.inr (List.mem_cons_of_mem first old)

/-- A value is put in its place once. -/
theorem put_put (value : Value) (values : List Value) :
    put value (put value values) = put value values := by
  induction values with
  | nil => simp [put]
  | cons first rest inductionHypothesis =>
      by_cases less : value.kind.code < first.kind.code
      · simp [put, less]
      · by_cases replaces : value.kind = first.kind
        · simp [put, replaces]
        · simp [put, less, replaces, inductionHypothesis]

/-- A filled bag is for the elements it was made for. -/
theorem Filled.target_eq {target : Target} {bag : Bag} (filled : Filled target bag) :
    bag.target = target := by
  induction filled with
  | empty => rfl
  | set value _ stored inductionHypothesis =>
      cases value with
      | none => exact absurd stored (set_none_refused _ _)
      | some value =>
          obtain ⟨_, rfl⟩ := (set_ok_iff _ _ value).mp stored
          exact inductionHypothesis

/-- Values that are stored one after another leave a filled bag filled. -/
theorem Filled.setAll {target : Target} {bag after : Bag} (filled : Filled target bag)
    (values : List (Option Value)) (stored : bag.setAll values = .ok after) :
    Filled target after := by
  induction values generalizing bag with
  | nil => exact Except.ok.inj stored ▸ filled
  | cons value rest inductionHypothesis =>
      cases next : bag.set value with
      | error fault => simp [Bag.setAll, next, bind, Except.bind] at stored
      | ok longer =>
          refine inductionHypothesis (.set value filled next) ?_
          simpa [Bag.setAll, next, bind, Except.bind] using stored

/-- Whatever a filled bag holds, every bag for the same elements accepts. -/
theorem Filled.accepted {target : Target} {bag : Bag} (filled : Filled target bag) (value : Value)
    (held : value ∈ bag.values) (other : Bag) (same : other.target = target) :
    other.objection (some value) = none := by
  induction filled with
  | empty => cases held
  | set stored before isStored inductionHypothesis =>
      cases stored with
      | none => exact absurd isStored (set_none_refused _ _)
      | some stored =>
          obtain ⟨unobjected, rfl⟩ := (set_ok_iff _ _ stored).mp isStored
          rcases mem_put stored _ value held with rfl | old
          · rw [objection_congr other _ (same.trans before.target_eq.symm)]
            exact unobjected
          · exact inductionHypothesis old

/-- Whatever a filled bag holds belongs there. -/
theorem Filled.fit {target : Target} {bag : Bag} (filled : Filled target bag) {value : Value}
    (held : value ∈ bag.values) :
    value.kind.declared = true ∧ value.kind.target = bag.target ∧ value.objection = none :=
  (bag.objection_eq_none_iff value).mp (filled.accepted value held bag filled.target_eq)

/-! ## Order -/

/-- Putting a value in its place keeps the order of kinds. -/
theorem put_increasing (value : Value) (values : List Value)
    (increasing : values.Pairwise fun first second => first.kind.code < second.kind.code) :
    (put value values).Pairwise fun first second => first.kind.code < second.kind.code := by
  induction values with
  | nil => exact List.pairwise_singleton _ value
  | cons first rest inductionHypothesis =>
      obtain ⟨later, restIncreasing⟩ := List.pairwise_cons.mp increasing
      unfold put
      split
      · rename_i less
        refine List.pairwise_cons.mpr ⟨?_, increasing⟩
        intro held member
        rcases List.mem_cons.mp member with rfl | behind
        · exact less
        · exact Int.lt_trans less (later held behind)
      · rename_i notLess
        split
        · rename_i replaces
          exact List.pairwise_cons.mpr ⟨fun held member => replaces ▸ later held member,
            restIncreasing⟩
        · rename_i different
          refine List.pairwise_cons.mpr ⟨?_, inductionHypothesis restIncreasing⟩
          intro held member
          rcases mem_put value rest held member with rfl | behind
          · have codes : held.kind.code ≠ first.kind.code :=
              fun same => different (congrArg Kind.mk same)
            omega
          · exact later held behind

/-- A filled bag holds its values by increasing kinds. -/
theorem Filled.increasing {target : Target} {bag : Bag} (filled : Filled target bag) :
    bag.values.Pairwise fun first second => first.kind.code < second.kind.code := by
  induction filled with
  | empty => exact .nil
  | set value _ stored inductionHypothesis =>
      cases value with
      | none => exact absurd stored (set_none_refused _ _)
      | some value =>
          obtain ⟨_, rfl⟩ := (set_ok_iff _ _ value).mp stored
          exact put_increasing value _ inductionHypothesis

/-! ## Reading -/

/-- What is read under a kind is held, and is of this kind. -/
theorem get?_some (bag : Bag) (kind : Kind) (value : Value) (read : bag.get? kind = some value) :
    value ∈ bag.values ∧ value.kind = kind :=
  ⟨List.mem_of_find?_eq_some read, by simpa using List.find?_some read⟩

/-- What is read after a value was put in its place. -/
theorem find?_put (value : Value) (values : List Value) (kind : Kind) :
    ((put value values).find? fun held => held.kind = kind) =
      if value.kind = kind then some value else values.find? fun held => held.kind = kind := by
  induction values with
  | nil => by_cases same : value.kind = kind <;> simp [put, same]
  | cons first rest inductionHypothesis =>
      unfold put
      split
      · by_cases same : value.kind = kind <;> simp [same]
      · split
        · rename_i replaces
          by_cases same : value.kind = kind
          · simp [same]
          · have other : first.kind ≠ kind := replaces ▸ same
            simp [same, other]
        · rename_i different
          by_cases found : first.kind = kind
          · have other : value.kind ≠ kind := fun same => different (same.trans found.symm)
            simp [found, other]
          · simp [found, inductionHypothesis]

/-- Storing a value changes what is read under its kind, and under no other. -/
theorem get?_set (bag after : Bag) (value : Value) (stored : bag.set (some value) = .ok after)
    (kind : Kind) :
    after.get? kind = if value.kind = kind then some value else bag.get? kind := by
  obtain ⟨_, rfl⟩ := (set_ok_iff bag after value).mp stored
  exact find?_put value bag.values kind

/-- Where kinds increase, every value is the one found under its kind. -/
theorem find?_of_increasing {values : List Value}
    (increasing : values.Pairwise fun first second => first.kind.code < second.kind.code)
    {value : Value} (held : value ∈ values) :
    (values.find? fun other => other.kind = value.kind) = some value := by
  induction values with
  | nil => cases held
  | cons first rest inductionHypothesis =>
      obtain ⟨later, restIncreasing⟩ := List.pairwise_cons.mp increasing
      rcases List.mem_cons.mp held with rfl | behind
      · exact List.find?_cons_of_pos (by simp)
      · have less := later value behind
        have different : first.kind ≠ value.kind := by
          intro same
          rw [same] at less
          exact Int.lt_irrefl _ less
        rw [List.find?_cons_of_neg (by simpa using different)]
        exact inductionHypothesis restIncreasing behind

/-- A filled bag holds what is read from it. -/
theorem Filled.mem_iff {target : Target} {bag : Bag} (filled : Filled target bag) (value : Value) :
    value ∈ bag.values ↔ bag.get? value.kind = some value :=
  ⟨find?_of_increasing filled.increasing, fun read => (get?_some bag value.kind value read).1⟩

/-- Nothing of an undeclared kind is ever held. -/
theorem Filled.declared_of_has {target : Target} {bag : Bag} (filled : Filled target bag)
    {kind : Kind} (has : bag.has kind = true) : kind.declared = true := by
  obtain ⟨value, read⟩ := Option.isSome_iff_exists.mp has
  obtain ⟨held, rfl⟩ := get?_some bag kind value read
  exact (filled.fit held).1

/-- Nothing is held twice. -/
theorem Filled.values_distinct {target : Target} {bag : Bag} (filled : Filled target bag) :
    bag.values.Nodup := by
  refine filled.increasing.imp ?_
  rintro first _ less rfl
  exact Int.lt_irrefl _ less

/-- Filled bags from which the same is read are the same. -/
theorem Filled.ext {target : Target} {bag other : Bag} (filled : Filled target bag)
    (otherFilled : Filled target other) (same : ∀ kind, bag.get? kind = other.get? kind) :
    bag = other := by
  have members : bag.values.Perm other.values := by
    refine (List.perm_ext_iff_of_nodup filled.values_distinct otherFilled.values_distinct).mpr ?_
    intro value
    rw [filled.mem_iff, otherFilled.mem_iff, same]
  have values : bag.values = other.values := by
    refine members.eq_of_pairwise ?_ filled.increasing otherFilled.increasing
    intro first second _ _ less more
    exact absurd (Int.lt_trans less more) (Int.lt_irrefl _)
  have targets : bag.target = other.target := filled.target_eq.trans otherFilled.target_eq.symm
  cases bag
  cases other
  rw [Bag.mk.injEq]
  exact ⟨targets, values⟩

/-- A typed pattern is read exactly where the typed value is held. -/
theorem pattern?_eq_some_iff (bag : Bag) (pattern : Pattern) :
    bag.pattern? = some pattern ↔ bag.get? .communicationPattern = some (.pattern pattern) := by
  unfold pattern?
  constructor
  · intro read
    obtain ⟨value, held, typed⟩ := Option.bind_eq_some_iff.mp read
    cases value <;> simp [Value.asPattern?] at typed
    rw [held, typed]
  · intro held
    rw [held]
    rfl

end Bag

end Flowplan
