import Flowplan.Proofs.Bags

/-!
# Bags through their history

Bags are made, copied and asked to store values, in any order and any number of them side by side.
What holds of every bag then (`Bag.Orderly`) follows from every bag being filled by accepted values
alone. A request changes at most what one bag holds under one kind, so a bag and its copies go
separate ways.
-/

namespace Flowplan.Bag

/-- A value that a bag must not store: none at all, one of an undeclared kind or of a kind of other
elements, or one outside its domain. -/
def Unfit (bag : Bag) (value : Option Value) : Prop :=
  value = none ∨ ∃ offered, value = some offered ∧
    (offered.kind.declared = false ∨ offered.kind.target ≠ bag.target ∨
      ∃ fault, offered.validate = .error fault)

/-- A value is unfit for a bag exactly if the bag objects to it. -/
theorem unfit_some_iff (bag : Bag) (value : Value) :
    bag.Unfit (some value) ↔ bag.objection (some value) ≠ none := by
  have invalid : (∃ fault, value.validate = .error fault) ↔ value.objection ≠ none := by
    rw [Ne, ← value.validate_ok_iff]
    cases value.validate <;> simp
  rw [Ne, bag.objection_eq_none_iff, Unfit]
  simp only [reduceCtorEq, Option.some.injEq, exists_eq_left', false_or, invalid]
  cases value.kind.declared <;> simp [Decidable.imp_iff_not_or]

/-- Storing a value does not change which elements a bag is for. -/
theorem target_set {bag after : Bag} {value : Value} (stored : bag.set (some value) = .ok after) :
    after.target = bag.target := by
  obtain ⟨_, rfl⟩ := (set_ok_iff bag after value).mp stored
  rfl

/-- A bag refuses exactly the values that it must not store. -/
theorem set_refused_iff (bag : Bag) (value : Option Value) :
    (∃ fault, bag.set value = .error fault) ↔ bag.Unfit value := by
  cases value with
  | none => simp [Unfit, set, objection]
  | some value =>
      rw [unfit_some_iff, set]
      cases bag.objection (some value) <;> simp

/-! ## What filled bags are like -/

/-- What holds of every bag in use. -/
structure Orderly (bag : Bag) : Prop where
  /-- No kind has two values. -/
  single : (bag.values.map Value.kind).Nodup
  /-- The values are found under their own kinds, and nothing else is. -/
  found : ∀ kind value, bag.get? kind = some value ↔ value ∈ bag.values ∧ value.kind = kind
  declared : ∀ value ∈ bag.values, value.kind.declared = true
  annotates : ∀ value ∈ bag.values, value.kind.target = bag.target
  valid : ∀ value ∈ bag.values, value.validate = .ok ()
  increasing : bag.kinds.Pairwise fun first second => first.code < second.code
  listed : ∀ kind, kind ∈ bag.kinds ↔ bag.has kind = true
  patterns : ∀ pattern, bag.pattern? = some pattern → 1 ≤ pattern.code ∧ pattern.code ≤ 3
  encoders : ∀ format, bag.encoder? = some format → format ≠ ""
  decoders : ∀ format, bag.decoder? = some format → format ≠ ""
  partitioners : ∀ partitioner, bag.partitioner? = some partitioner →
    1 ≤ partitioner.code ∧ partitioner.code ≤ 3
  parallelisms : ∀ instances, bag.parallelism? = some instances → 1 ≤ instances

namespace Filled

variable {target : Target} {bag : Bag}

/-- A value is read under a kind exactly if the bag holds it and it is of this kind. -/
theorem get?_iff (filled : Filled target bag) (kind : Kind) (value : Value) :
    bag.get? kind = some value ↔ value ∈ bag.values ∧ value.kind = kind := by
  constructor
  · exact bag.get?_some kind value
  · rintro ⟨held, rfl⟩
    exact (filled.mem_iff value).mp held

/-- A read at a type that recovers the values made at that type finds nothing outside the domain. -/
theorem typed_unobjected {α : Type} {kind : Kind} {read : Value → Option α} {typed : α}
    (filled : Filled target bag) (make : α → Value)
    (recovers : ∀ value, read value = some typed → value = make typed)
    (got : (bag.get? kind).bind read = some typed) : (make typed).objection = none := by
  obtain ⟨value, found, isRead⟩ := Option.bind_eq_some_iff.mp got
  obtain rfl := recovers value isRead
  exact (filled.fit (bag.get?_some kind _ found).1).2.2

/-- The kinds of a bag are those under which it holds something. -/
theorem mem_kinds_iff (filled : Filled target bag) (kind : Kind) :
    kind ∈ bag.kinds ↔ bag.has kind = true := by
  rw [kinds, List.mem_map, has, Option.isSome_iff_exists]
  exact exists_congr fun value => (filled.get?_iff kind value).symm

/-- Bags that accepted values lead to are orderly. -/
theorem orderly (filled : Filled target bag) : bag.Orderly where
  single := by
    refine List.Pairwise.map _ ?_ filled.increasing
    rintro first second less same
    exact Int.lt_irrefl _ (same ▸ less)
  found := filled.get?_iff
  declared value held := (filled.fit held).1
  annotates value held := (filled.fit held).2.1
  valid value held := value.validate_ok_iff.mpr (filled.fit held).2.2
  increasing := List.Pairwise.map _ (fun _ _ less => less) filled.increasing
  listed := filled.mem_kinds_iff
  patterns pattern got := by
    have unobjected := filled.typed_unobjected .pattern
      (by rintro (_ | _) <;> simp [Value.asPattern?]) got
    simpa [Value.objection] using unobjected
  encoders format got := by
    have unobjected := filled.typed_unobjected .encoder
      (by rintro (_ | _) <;> simp [Value.asEncoder?]) got
    simpa [Value.objection] using unobjected
  decoders format got := by
    have unobjected := filled.typed_unobjected .decoder
      (by rintro (_ | _) <;> simp [Value.asDecoder?]) got
    simpa [Value.objection] using unobjected
  partitioners partitioner got := by
    have unobjected := filled.typed_unobjected .partitioner
      (by rintro (_ | _) <;> simp [Value.asPartitioner?]) got
    simpa [Value.objection] using unobjected
  parallelisms instances got := by
    have unobjected := filled.typed_unobjected .parallelism
      (by rintro (_ | _) <;> simp [Value.asParallelism?]) got
    simpa [Value.objection] using unobjected

end Filled

/-! ## Requests -/

/-- A request to bags that are known by number, in the order in which they were made. -/
inductive Request where
  | create (target : Target)
  | copy (number : Nat)
  /-- Whoever insists does not expect a refusal, and a refusal is then fatal. -/
  | store (number : Nat) (value : Option Value) (insists : Bool)

/-- The answer to a request. -/
inductive Answer where
  | made (number : Nat)
  | stored
  | refused (fault : Fault) (fatal : Bool)
  | unknown

namespace Request

/-- The bags after a request, and the answer to it. -/
def perform (bags : List Bag) : Request → List Bag × Answer
  | create target => (bags ++ [.empty target], .made bags.length)
  | copy number =>
      match bags[number]? with
      | none => (bags, .unknown)
      | some bag => (bags ++ [bag], .made bags.length)
  | store number value insists =>
      match bags[number]? with
      | none => (bags, .unknown)
      | some bag =>
          match bag.set value with
          | .error fault => (bags, .refused fault insists)
          | .ok after => (bags.set number after, .stored)

/-- The request asks a bag to store a value of a kind. -/
def Concerns (request : Request) (number : Nat) (kind : Kind) : Prop :=
  ∃ value insists, request = .store number (some value) insists ∧ value.kind = kind

/-- A request leaves the bags as they are, adds an empty bag or a copy behind them, or stores a
value in one of them. -/
theorem perform_cases (request : Request) (bags : List Bag) :
    (request.perform bags).1 = bags ∨
      (∃ added, (request.perform bags).1 = bags ++ [added] ∧
        (added ∈ bags ∨ ∃ target, added = .empty target)) ∨
      ∃ number value insists bag after, request = .store number (some value) insists ∧
        bags[number]? = some bag ∧ bag.set (some value) = .ok after ∧
        (request.perform bags).1 = bags.set number after := by
  cases request with
  | create target => exact Or.inr (Or.inl ⟨_, rfl, Or.inr ⟨target, rfl⟩⟩)
  | copy number =>
      cases known : bags[number]? with
      | none => exact Or.inl (by simp [perform, known])
      | some bag =>
          have member : bag ∈ bags := List.mem_of_getElem? known
          exact Or.inr (Or.inl ⟨bag, by simp [perform, known], Or.inl member⟩)
  | store number value insists =>
      cases known : bags[number]? with
      | none => exact Or.inl (by simp [perform, known])
      | some bag =>
          cases answer : bag.set value with
          | error fault => exact Or.inl (by simp [perform, known, answer])
          | ok after =>
              cases value with
              | none => exact absurd answer (set_none_refused bag after)
              | some value =>
                  exact Or.inr (Or.inr ⟨number, value, insists, bag, after, rfl, known, answer,
                    by simp [perform, known, answer]⟩)

/-- A request keeps all bags filled by accepted values. -/
theorem perform_filled {bags : List Bag} (request : Request)
    (filled : ∀ bag ∈ bags, Filled bag.target bag) :
    ∀ bag ∈ (request.perform bags).1, Filled bag.target bag := by
  obtain same | ⟨added, adds, old | ⟨target, rfl⟩⟩ |
    ⟨number, value, insists, bag, after, rfl, known, stored, changes⟩ := request.perform_cases bags
  · rwa [same]
  · rw [adds]
    exact List.forall_mem_append.mpr ⟨filled, List.forall_mem_singleton.mpr (filled added old)⟩
  · rw [adds]
    exact List.forall_mem_append.mpr ⟨filled, List.forall_mem_singleton.mpr .empty⟩
  · rw [changes]
    intro other member
    rcases List.mem_or_eq_of_mem_set member with old | rfl
    · exact filled other old
    · have longer : Filled bag.target other :=
        .set (some value) (filled bag (List.mem_of_getElem? known)) stored
      exact longer.target_eq ▸ longer

/-- A request that does not concern a kind of a bag leaves what is read there. -/
theorem perform_unconcerned {bags : List Bag} {number : Nat} {bag : Bag} {kind : Kind}
    (request : Request) (known : bags[number]? = some bag)
    (unconcerned : ¬ request.Concerns number kind) :
    ∃ after, (request.perform bags).1[number]? = some after ∧ after.target = bag.target ∧
      after.get? kind = bag.get? kind := by
  obtain same | ⟨added, adds, _⟩ |
    ⟨place, value, insists, before, after, rfl, atPlace, stored, changes⟩ :=
      request.perform_cases bags
  · exact ⟨bag, by rw [same, known], rfl, rfl⟩
  · refine ⟨bag, ?_, rfl, rfl⟩
    rw [adds, List.getElem?_append_left (List.getElem?_eq_some_iff.mp known).1, known]
  · by_cases here : place = number
    · subst here
      obtain rfl : before = bag := Option.some.inj (atPlace.symm.trans known)
      refine ⟨after, ?_, target_set stored, ?_⟩
      · rw [changes, List.getElem?_set_self (List.getElem?_eq_some_iff.mp known).1]
      · have other : value.kind ≠ kind := fun same => unconcerned ⟨value, insists, rfl, same⟩
        rw [get?_set _ _ value stored, if_neg other]
    · exact ⟨bag, by rw [changes, List.getElem?_set_ne here, known], rfl, rfl⟩

section Storing

variable {bags : List Bag} {number : Nat} {bag : Bag} {value : Option Value}

/-- An unfit value is refused, and no bag changes. -/
theorem perform_refused (known : bags[number]? = some bag) (unfit : bag.Unfit value)
    (insists : Bool) :
    ∃ fault, (store number value insists).perform bags = (bags, .refused fault insists) := by
  obtain ⟨fault, refusal⟩ := (bag.set_refused_iff value).mpr unfit
  exact ⟨fault, by simp [perform, known, refusal]⟩

/-- Any other value is stored in the bag that was asked, and no other bag changes. -/
theorem perform_stored (known : bags[number]? = some bag) (fit : ¬ bag.Unfit value)
    (insists : Bool) :
    ∃ offered after, value = some offered ∧ bag.set (some offered) = .ok after ∧
      (store number value insists).perform bags = (bags.set number after, .stored) := by
  cases value with
  | none => exact absurd (Or.inl rfl) fit
  | some offered =>
      cases answer : bag.set (some offered) with
      | error fault => exact absurd ((bag.set_refused_iff _).mp ⟨fault, answer⟩) fit
      | ok after => exact ⟨offered, after, rfl, answer, by simp [perform, known, answer]⟩

end Storing

end Request

/-- The bags after requests one after another. -/
def afterRequests (bags : List Bag) : List Request → List Bag
  | [] => bags
  | request :: rest => afterRequests (request.perform bags).1 rest

/-- Bags stay filled, whatever is requested. -/
theorem afterRequests_filled {bags : List Bag} (requests : List Request)
    (filled : ∀ bag ∈ bags, Filled bag.target bag) :
    ∀ bag ∈ afterRequests bags requests, Filled bag.target bag := by
  induction requests generalizing bags with
  | nil => exact filled
  | cons request rest inductionHypothesis =>
      exact inductionHypothesis (request.perform_filled filled)

/-- What is read under a kind lasts as long as no request concerns it. -/
theorem afterRequests_unconcerned {bags : List Bag} {number : Nat} {bag : Bag} {kind : Kind}
    (requests : List Request) (known : bags[number]? = some bag)
    (unconcerned : ∀ request ∈ requests, ¬ request.Concerns number kind) :
    ∃ after, (afterRequests bags requests)[number]? = some after ∧ after.target = bag.target ∧
      after.get? kind = bag.get? kind := by
  induction requests generalizing bags bag with
  | nil => exact ⟨bag, known, rfl, rfl⟩
  | cons request rest inductionHypothesis =>
      obtain ⟨first, others⟩ := List.forall_mem_cons.mp unconcerned
      obtain ⟨next, atNext, target, read⟩ := request.perform_unconcerned known first
      obtain ⟨last, atLast, lastTarget, lastRead⟩ := inductionHypothesis atNext others
      exact ⟨last, atLast, lastTarget.trans target, lastRead.trans read⟩

/-- Bags through every history of requests. Every bag is orderly, so that nothing outside its domain
is ever read. A bag refuses a value exactly if it must not store it, and then no bag changes.
Otherwise what this bag holds under the kind of the value changes and nothing else. A copy holds
what the bag holds. What a bag holds under a kind lasts through all requests that do not ask this
very bag to store a value of this kind, whatever becomes of its copies. -/
theorem history_orderly (history : List Request) :
    let bags := afterRequests [] history
    (∀ bag ∈ bags, bag.Orderly) ∧
    (∀ number bag value insists, bags[number]? = some bag →
      let next := (Request.store number value insists).perform bags
      ((∃ fault, next.2 = .refused fault insists) ↔ bag.Unfit value) ∧
      (bag.Unfit value → next.1 = bags) ∧
      (¬ bag.Unfit value → next.2 = .stored ∧ ∃ offered after, value = some offered ∧
        next.1 = bags.set number after ∧ after.target = bag.target ∧
        ∀ kind, after.get? kind = if offered.kind = kind then some offered else bag.get? kind)) ∧
    (∀ number bag, bags[number]? = some bag →
      (Request.copy number).perform bags = (bags ++ [bag], .made bags.length)) ∧
    ∀ later number bag kind, bags[number]? = some bag →
      (∀ request ∈ later, ¬ request.Concerns number kind) →
      ∃ after, (afterRequests bags later)[number]? = some after ∧ after.target = bag.target ∧
        after.get? kind = bag.get? kind := by
  intro bags
  have filled : ∀ bag ∈ bags, Filled bag.target bag :=
    afterRequests_filled history (by simp)
  refine ⟨fun bag member => (filled bag member).orderly, ?_, ?_, ?_⟩
  · intro number bag value insists known next
    by_cases unfit : bag.Unfit value
    · obtain ⟨fault, answered⟩ := Request.perform_refused known unfit insists
      have same : next = (bags, .refused fault insists) := answered
      rw [same]
      exact ⟨⟨fun _ => unfit, fun _ => ⟨fault, rfl⟩⟩, fun _ => rfl, fun fit => absurd unfit fit⟩
    · obtain ⟨offered, after, isOffered, stored, answered⟩ :=
        Request.perform_stored known unfit insists
      have changed : next = (bags.set number after, .stored) := answered
      rw [changed]
      refine ⟨⟨?_, (absurd · unfit)⟩, (absurd · unfit), ?_⟩
      · rintro ⟨_, ⟨⟩⟩
      · exact fun _ => ⟨rfl, offered, after, isOffered, rfl, target_set stored,
          get?_set bag after offered stored⟩
  · intro number bag known
    simp [Request.perform, known]
  · intro later number bag kind known unconcerned
    exact afterRequests_unconcerned later known unconcerned

/-- A bag and its copy, which alone is asked to store a pattern. -/
def partedHistory : List Request :=
  [.create .edge, .copy 0, .store 1 (some (.pattern .shuffle)) false]

/-- The copy alone holds the pattern. It refuses one that is not declared, and what its original is
asked to store later does not concern it. -/
theorem partedHistory_orderly :
    let bags := afterRequests [] partedHistory
    bags = [.empty .edge, ⟨.edge, [.pattern .shuffle]⟩] ∧ (∀ bag ∈ bags, bag.Orderly) ∧
      ((Request.store 1 (some (.pattern ⟨7⟩)) true).perform bags).1 = bags ∧
      ∃ after, (afterRequests bags [.store 0 (some (.pattern .broadcast)) true])[1]? = some after ∧
        after.get? .communicationPattern = some (.pattern .shuffle) := by
  intro bags
  obtain ⟨orderly, stores, _, lasts⟩ := history_orderly partedHistory
  have unfit : Bag.Unfit ⟨.edge, [.pattern .shuffle]⟩ (some (.pattern ⟨7⟩)) :=
    Or.inr ⟨_, rfl, Or.inr (Or.inr ⟨_, rfl⟩)⟩
  have apart : ∀ request ∈ [Request.store 0 (some (.pattern .broadcast)) true],
      ¬ request.Concerns 1 .communicationPattern := by
    simp [Request.Concerns]
  obtain ⟨after, atAfter, _, read⟩ := lasts _ 1 _ .communicationPattern rfl apart
  exact ⟨rfl, orderly, (stores 1 _ _ true rfl).2.1 unfit, after, atAfter, read⟩

end Flowplan.Bag
