import Flowplan.Identity
import Flowplan.Proofs.Lists
import Mathlib.Algebra.Group.Nat.Defs
import Mathlib.Data.List.Nodup

/-!
# Drawn identities

A drawing that is run takes consecutive identities. Within one namespace of one source they are
distinct as long as the numbers do not come round, and so are the names made of two of them with
an arrow in between, whatever the session tag is. How many identities a run takes can be counted
beforehand (`Drawing.drawn`).
-/

namespace Flowplan

/-! ## Running drawings -/

/-- Drawing an identity does not change the session tag. -/
theorem Source.session_advance (source : Source) (ns : Namespace) :
    (source.advance ns).session = source.session := by
  cases ns <;> rfl

/-- A draw counts in its own namespace. -/
theorem Source.counter_advance (source : Source) (ns other : Namespace) :
    (source.advance ns).counter other =
      if ns = other then source.counter other + 1 else source.counter other := by
  cases ns <;> cases other <;> rfl

namespace Drawing

variable {α β : Type}

/-- Draws of the first part are answered before those of the second. -/
theorem run_bind (drawing : Drawing α) (next : α → Drawing β) (source : Source) :
    (drawing.bind next).run source = (next (drawing.run source).1).run (drawing.run source).2 := by
  induction drawing generalizing source with
  | done result => rfl
  | draw ns rest inductionHypothesis =>
      simp only [bind, run]
      exact inductionHypothesis _ _

/-- Drawing several identities of a namespace gives consecutive ones. -/
theorem run_many (ns : Namespace) (count : Nat) (source : Source) :
    ((many ns count).run source).1 = (List.range count).map fun index =>
      Source.identity source.session ns (source.counter ns + UInt64.ofNat index) := by
  induction count generalizing source with
  | zero => rfl
  | succ count inductionHypothesis =>
      have counter : (source.advance ns).counter ns = source.counter ns + 1 :=
        (source.counter_advance ns ns).trans (if_pos rfl)
      simp only [many, run, run_bind, Source.draw, inductionHypothesis, source.session_advance,
        counter, List.range_succ_eq_map, List.map_cons, List.map_map]
      congr 1
      · simp
      · apply List.map_congr_left
        intro index _
        rw [Function.comp_apply, Nat.succ_eq_add_one, UInt64.ofNat_add, UInt64.add_assoc,
          UInt64.add_comm (UInt64.ofNat index)]
        rfl

/-! ## Counting draws -/

/-- The number of identities of a namespace that a drawing takes from a source. -/
def drawn : Drawing α → Source → Namespace → Nat
  | done _, _, _ => 0
  | draw ns next, source, asked =>
      (if ns = asked then 1 else 0) + (next (source.draw ns).1).drawn (source.draw ns).2 asked

end Drawing

/-- The source does not run out of numbers during a drawing: no counter comes round. -/
def Source.Lasts {α : Type} (source : Source) (drawing : Drawing α) : Prop :=
  ∀ ns, (source.counter ns).toNat + drawing.drawn source ns ≤ 2 ^ 64

/-! ## Identities are distinct -/

namespace Source

/-- The digits of a number tell the number. -/
theorem digits_injective (first second : Nat)
    (same : first.repr.toList = second.repr.toList) : first = second := by
  rw [Nat.toList_repr, Nat.toList_repr] at same
  have read := congrArg (fun digits => Nat.ofDigitChars 10 digits 0) same
  simpa only [Nat.ofDigitChars_ten_toDigits] using read

/-- The digits of a number hold no dash. -/
theorem dash_not_digit (number : Nat) : '-' ∉ number.repr.toList := by
  intro member
  rw [Nat.toList_repr] at member
  have digit := Nat.isDigit_of_mem_toDigits (by decide) (by decide) member
  exact absurd digit (by decide)

/-- An identity tells its number. -/
theorem identity_injective (session : String) (ns : Namespace) (first second : UInt64)
    (same : identity session ns first = identity session ns second) : first = second := by
  have numbers := (String.append_right_inj _).mp same
  exact UInt64.toNat_inj.mp (digits_injective _ _ (congrArg String.toList numbers))

/-- Two identities with an arrow in between tell both numbers, even if the session tag holds an
arrow itself: both tags are the same text, and the digits of the first number end at a dash. -/
theorem arrow_injective (session : String) (ns : Namespace) (first second third fourth : UInt64)
    (same : identity session ns first ++ "->" ++ identity session ns second =
      identity session ns third ++ "->" ++ identity session ns fourth) :
    first = third ∧ second = fourth := by
  unfold identity at same
  generalize ns.name ++ "-" ++ session ++ "-" = tag at same
  rw [String.append_assoc, String.append_assoc, String.append_assoc, String.append_assoc,
    String.append_right_inj] at same
  have letters := congrArg String.toList same
  simp only [String.toList_append, Nat.toString_eq_repr] at letters
  have arrow : "->".toList = ['-', '>'] := by decide
  rw [arrow] at letters
  obtain ⟨front, back⟩ := append_cons_inj_of_not_mem (dash_not_digit _) (dash_not_digit _) letters
  refine ⟨UInt64.toNat_inj.mp (digits_injective _ _ front), ?_⟩
  have behind : tag.toList ++ second.toNat.repr.toList =
      tag.toList ++ fourth.toNat.repr.toList := by
    simpa using back
  exact UInt64.toNat_inj.mp (digits_injective _ _ (List.append_cancel_left behind))

/-- Consecutive numbers are distinct until they come round. -/
theorem numbers_injective (start : UInt64) (first second : Nat) (firstBound : first < 2 ^ 64)
    (secondBound : second < 2 ^ 64)
    (same : start + UInt64.ofNat first = start + UInt64.ofNat second) : first = second := by
  have equal := congrArg UInt64.toNat same
  simp only [UInt64.toNat_add, UInt64.toNat_ofNat'] at equal
  omega

/-- Up to as many identities as there are numbers, consecutive ones are distinct. -/
theorem identities_distinct (session : String) (ns : Namespace) (start : UInt64) (count : Nat)
    (bound : count ≤ 2 ^ 64) :
    ((List.range count).map fun index =>
      identity session ns (start + UInt64.ofNat index)).Nodup := by
  refine List.Nodup.map_on ?_ List.nodup_range
  intro first firstIn second secondIn same
  have firstBound := List.mem_range.mp firstIn
  have secondBound := List.mem_range.mp secondIn
  exact numbers_injective start first second (by omega) (by omega)
    (identity_injective session ns _ _ same)

end Source

end Flowplan
