import Flowplan.Proofs.Identities
import Mathlib.Data.List.Count
import Mathlib.Logic.Function.Basic

/-!
# Draws from several sources

Several sources are drawn from in turn, one draw at a time, in any order. A draw is one step: it
reads the counter of its namespace and counts, and nothing comes in between. So whatever the
callers do, the draws stand in one list, and what they get is `Source.issue`.

An identity tells its namespace, its session tag and its number, although the tag is any text and
may hold dashes and digits itself: the namespace ends at the first dash, and the number begins
after the last one. Sources with different tags therefore never meet, and a source meets itself
only when a counter has come round.
-/

namespace Flowplan

namespace Namespace

/-- A code declares one namespace, and no two codes the same. -/
theorem ofCode?_injective {first second : Int} {ns : Namespace} (found : ofCode? first = some ns)
    (again : ofCode? second = some ns) : first = second := by
  unfold ofCode? at found again
  split at found <;> split at again <;> cases found <;> cases again <;> rfl

/-- The name of a namespace holds no dash. -/
theorem dash_not_in_name (ns : Namespace) : '-' ∉ ns.name.toList := by
  cases ns <;> decide

/-- The name of a namespace tells it. -/
theorem name_injective {first second : Namespace}
    (same : first.name.toList = second.name.toList) : first = second := by
  cases first <;> cases second <;> first | rfl | exact absurd same (by decide)

end Namespace

namespace Source

/-- The letters of an identity, cut at the dashes that were put in. -/
theorem toList_identity (session : String) (ns : Namespace) (number : UInt64) :
    (identity session ns number).toList =
      ns.name.toList ++ '-' :: (session.toList ++ '-' :: number.toNat.repr.toList) := by
  have dash : "-".toList = ['-'] := by decide
  simp only [identity, String.toList_append, Nat.toString_eq_repr, dash, List.append_assoc,
    List.cons_append, List.nil_append]

/-- An identity tells its namespace, its session tag and its number, whatever the tags are. -/
theorem identity_tells {session other : String} {ns otherNs : Namespace} {first second : UInt64}
    (same : identity session ns first = identity other otherNs second) :
    ns = otherNs ∧ session = other ∧ first = second := by
  have letters := congrArg String.toList same
  rw [toList_identity, toList_identity] at letters
  obtain ⟨names, tails⟩ :=
    append_cons_inj_of_not_mem ns.dash_not_in_name otherNs.dash_not_in_name letters
  -- The tag may hold dashes, so the number is cut off from behind.
  have backwards := congrArg List.reverse tails
  simp only [List.reverse_append, List.reverse_cons, List.append_assoc, List.singleton_append]
    at backwards
  have absent (number : UInt64) : '-' ∉ number.toNat.repr.toList.reverse := fun member =>
    dash_not_digit _ (List.mem_reverse.mp member)
  obtain ⟨digits, tags⟩ := append_cons_inj_of_not_mem (absent first) (absent second) backwards
  refine ⟨Namespace.name_injective names, String.toList_inj.mp (List.reverse_inj.mp tags), ?_⟩
  exact UInt64.toNat_inj.mp (digits_injective _ _ (List.reverse_inj.mp digits))

variable {ι : Type} [DecidableEq ι]

/-- The identities that a list of calls gets, each on one of several sources with the code of a
namespace, or the complaint about the first code that is not declared. -/
def issue (sources : ι → Source) : List (ι × Int) → Except String (List String)
  | [] => .ok []
  | (which, code) :: rest => do
      let (identity, after) ← (sources which).drawByCode code
      let others ← issue (Function.update sources which after) rest
      .ok (identity :: others)

/-- A call is answered on a declared namespace, draws there and leaves the other sources alone. -/
theorem issue_cons_iff (sources : ι → Source) (which : ι) (code : Int) (rest : List (ι × Int))
    (identities : List String) :
    issue sources ((which, code) :: rest) = .ok identities ↔
      ∃ ns others, Namespace.ofCode? code = some ns ∧
        issue (Function.update sources which ((sources which).advance ns)) rest = .ok others ∧
        identities =
          identity (sources which).session ns ((sources which).counter ns) :: others := by
  simp only [issue, drawByCode]
  cases Namespace.ofCode? code with
  | none => simp [bind, Except.bind]
  | some ns =>
      simp only [bind, Except.bind, draw, Option.some.injEq, exists_and_left, exists_eq_left']
      cases issue (Function.update sources which ((sources which).advance ns)) rest with
      | error complaint => simp
      | ok others => simp [eq_comm]

/-- A call changes no session tag. -/
theorem session_update (sources : ι → Source) (which : ι) (ns : Namespace) (one : ι) :
    (Function.update sources which ((sources which).advance ns) one).session =
      (sources one).session := by
  by_cases here : one = which
  · rw [here, Function.update_self, session_advance]
  · rw [Function.update_of_ne here]

/-- A call counts in its own namespace of its own source. -/
theorem counter_update (sources : ι → Source) (which : ι) (ns : Namespace) (one : ι)
    (asked : Namespace) :
    (Function.update sources which ((sources which).advance ns) one).counter asked =
      if one = which ∧ ns = asked then (sources one).counter asked + 1
      else (sources one).counter asked := by
  by_cases here : one = which
  · rw [here, Function.update_self, counter_advance]
    simp only [true_and]
  · rw [Function.update_of_ne here, if_neg fun both => here both.1]

/-- Calls on declared namespaces are all answered. -/
theorem issue_answers (calls : List (ι × Int)) (sources : ι → Source)
    (declared : ∀ call ∈ calls, (Namespace.ofCode? call.2).isSome) :
    ∃ identities, issue sources calls = .ok identities ∧ identities.length = calls.length := by
  induction calls generalizing sources with
  | nil => exact ⟨[], rfl, rfl⟩
  | cons call rest inductionHypothesis =>
      obtain ⟨ns, known⟩ := Option.isSome_iff_exists.mp (declared _ List.mem_cons_self)
      obtain ⟨others, answered, length⟩ := inductionHypothesis
        (Function.update sources call.1 ((sources call.1).advance ns))
        fun call member => declared call (List.mem_cons_of_mem _ member)
      refine ⟨_, (issue_cons_iff sources _ _ rest _).mpr ⟨ns, others, known, answered, rfl⟩, ?_⟩
      rw [List.length_cons, List.length_cons, length]

/-- An identity that calls get is one of those that its source had ahead in its namespace, as
many as there were such calls. -/
theorem mem_issue {calls : List (ι × Int)} {sources : ι → Source} {identities : List String}
    (answered : issue sources calls = .ok identities) {drawn : String}
    (member : drawn ∈ identities) :
    ∃ which code ns ahead, Namespace.ofCode? code = some ns ∧ ahead < calls.count (which, code) ∧
      drawn = identity (sources which).session ns
        ((sources which).counter ns + UInt64.ofNat ahead) := by
  induction calls generalizing sources identities with
  | nil =>
      cases answered
      exact absurd member List.not_mem_nil
  | cons call rest inductionHypothesis =>
      obtain ⟨first, code⟩ := call
      obtain ⟨ns, others, known, later, rfl⟩ :=
        (issue_cons_iff sources first code rest identities).mp answered
      rcases List.mem_cons.mp member with here | there
      · refine ⟨first, code, ns, 0, known, ?_, here.trans ?_⟩
        · exact List.count_pos_iff.mpr List.mem_cons_self
        · rw [show UInt64.ofNat 0 = 0 from rfl, UInt64.add_zero]
      · obtain ⟨which, asked, askedNs, ahead, found, bound, rfl⟩ := inductionHypothesis later there
        rw [session_update, counter_update]
        by_cases again : which = first ∧ ns = askedNs
        · obtain ⟨rfl, rfl⟩ := again
          obtain rfl := Namespace.ofCode?_injective found known
          refine ⟨which, asked, ns, ahead + 1, found, ?_, ?_⟩
          · rw [List.count_cons_self]
            omega
          · rw [if_pos ⟨rfl, rfl⟩, UInt64.ofNat_add, UInt64.add_assoc,
              UInt64.add_comm (UInt64.ofNat ahead)]
            rfl
        · refine ⟨which, asked, askedNs, ahead, found, ?_, by rw [if_neg again]⟩
          exact Nat.lt_of_lt_of_le bound List.count_le_count_cons

/-- The number that a source gives first comes back only after all the others. -/
theorem number_not_ahead (start : UInt64) (ahead : Nat) (bound : ahead + 1 < 2 ^ 64) :
    start ≠ start + 1 + UInt64.ofNat ahead := by
  intro same
  have numbers := congrArg UInt64.toNat same
  simp only [UInt64.toNat_add, UInt64.toNat_ofNat', UInt64.toNat_one] at numbers
  have small := start.toNat_lt
  omega

/-- What calls on sources with different session tags get is distinct until a counter has come
round. -/
theorem issue_nodup {calls : List (ι × Int)} {sources : ι → Source} {identities : List String}
    (tags : Function.Injective fun which => (sources which).session)
    (bounded : ∀ which code, calls.count (which, code) ≤ 2 ^ 64)
    (answered : issue sources calls = .ok identities) : identities.Nodup := by
  induction calls generalizing sources identities with
  | nil =>
      cases answered
      exact List.nodup_nil
  | cons call rest inductionHypothesis =>
      obtain ⟨which, code⟩ := call
      obtain ⟨ns, others, known, later, rfl⟩ :=
        (issue_cons_iff sources which code rest identities).mp answered
      refine List.nodup_cons.mpr ⟨?_, inductionHypothesis ?_ ?_ later⟩
      · intro member
        obtain ⟨other, otherCode, otherNs, ahead, found, bound, same⟩ := mem_issue later member
        rw [session_update, counter_update] at same
        obtain ⟨rfl, sameSession, sameNumber⟩ := identity_tells same
        obtain rfl := tags sameSession
        obtain rfl := Namespace.ofCode?_injective found known
        rw [if_pos ⟨rfl, rfl⟩] at sameNumber
        have total := bounded which otherCode
        rw [List.count_cons_self] at total
        exact number_not_ahead _ ahead (by omega) sameNumber
      · simpa only [session_update] using tags
      · exact fun one asked => Nat.le_trans List.count_le_count_cons (bounded one asked)

/-- All calls on declared namespaces of sources with different session tags are answered, and all
the identities they get are distinct, in whatever order the calls come, as long as no counter
comes round. -/
theorem issue_distinct (sources : ι → Source)
    (tags : Function.Injective fun which => (sources which).session) (calls : List (ι × Int))
    (declared : ∀ call ∈ calls, (Namespace.ofCode? call.2).isSome)
    (bounded : ∀ which code, calls.count (which, code) ≤ 2 ^ 64) :
    ∃ identities, issue sources calls = .ok identities ∧
      identities.length = calls.length ∧ identities.Nodup := by
  obtain ⟨identities, answered, length⟩ := issue_answers calls sources declared
  exact ⟨identities, answered, length, issue_nodup tags bounded answered⟩

/-- Two sources whose tags could be taken for one another, drawn from in turn. -/
theorem issue_dashed_tags :
    ∃ identities, issue (fun dashed : Bool => start (if dashed then "a-0" else "a"))
        [(false, 1), (true, 1), (false, 0), (false, 1), (true, 1)] = .ok identities ∧
      identities.length = 5 ∧ identities.Nodup := by
  refine issue_distinct _ ?_ _ (by decide) ?_
  · intro one other same
    cases one <;> cases other <;> first | rfl | exact absurd same (by decide)
  · exact fun which code => Nat.le_trans List.count_le_length (by decide)

end Source

end Flowplan
