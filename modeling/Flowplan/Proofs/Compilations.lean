import Flowplan.Compiler.Basic
import Flowplan.Proofs.BuiltInPipelines
import Flowplan.Proofs.IdentityChoice
import Flowplan.Proofs.PipelineRuns
import Flowplan.Proofs.Tasks

/-!
# Compilations under a live context

Whatever honest passes come to is lowered like any other made graph. So what was said about
lowerings and their answers holds for whole compilations: if a compilation was given fresh answers,
one that is run alone from any source ends in the same way, with a plan of the same structure if
there is one. The passes of a compiler are honest if its settings chose them.

A pass may cancel the context it runs under. The compilation it belongs to notices this at its next
look, and fails. So a compilation that lowers a graph leaves a live context behind.
-/

namespace Flowplan

/-! ## Honest passes -/

namespace Pass

/-- What an honest pass makes of a made graph is made. -/
theorem Honest.made {pass : Pass} (honest : pass.Honest) {graph next : JobGraph}
    (before : graph.Made) (made : pass.make (some graph) = .ok (some next)) : next.Made := by
  unfold make at made
  cases returned : (pass.apply graph).returned with
  | same =>
      obtain rfl : (pass.apply graph).given = next := by simpa [returned] using made
      exact honest.keeps graph before
  | rebuilt =>
      obtain rfl : (pass.apply graph).given = next := by simpa [returned] using made
      exact honest.keeps graph before
  | other another =>
      obtain rfl : another = next := by simpa [returned] using made
      exact honest.others graph another before returned
  | nothing => simp [returned] at made
  | failed fault => simp [returned] at made
  | brokeOff breakage => simp [returned] at made

end Pass

/-- The passes found by name are honest. -/
theorem Registry.resolve_honest {options : PassOptions} {names : List String} {passes : List Pass}
    (resolved : builtIn.resolve options names = .ok passes) : ∀ pass ∈ passes, pass.Honest := by
  induction names generalizing passes with
  | nil =>
      obtain rfl := Except.ok.inj resolved
      exact nofun
  | cons name rest inductionHypothesis =>
      obtain ⟨later, onward, ⟨_, rfl⟩ | ⟨_, rfl⟩⟩ := resolve_cons_cases resolved
      · exact List.forall_mem_cons.mpr
          ⟨Pass.shuffleEdgeDecoder_annotates.honest, inductionHypothesis onward⟩
      · exact List.forall_mem_cons.mpr
          ⟨(Pass.defaultParallelism_annotates _).honest, inductionHypothesis onward⟩

/-- The passes that settings choose are honest. -/
theorem Compiler.new_honest {settings : Option Settings} {compiler : Compiler}
    (accepted : new settings = .ok compiler) : ∀ pass ∈ compiler.passes, pass.Honest := by
  simp only [new, bind, Except.bind] at accepted
  split at accepted
  · cases accepted
  · split at accepted
    · cases accepted
    next resolved =>
      obtain rfl := Except.ok.inj accepted
      exact Registry.resolve_honest resolved

/-! ## Live contexts -/

namespace Context

/-- A context that nobody but passes interrupts. -/
def Undisturbed (context : Context) : Prop :=
  context = live ∨ ∃ cause, context = ended cause

/-- Looking at an undisturbed context does not change it. -/
theorem Undisturbed.later {context : Context} (undisturbed : context.Undisturbed) :
    context.later = context := by
  cases undisturbed with
  | inl isLive => exact isLive ▸ rfl
  | inr isEnded =>
      obtain ⟨cause, rfl⟩ := isEnded
      rfl

/-- A context that was canceled stays so, and is undisturbed therefore. -/
theorem Undisturbed.cancel {context : Context} : context.cancel.Undisturbed := by
  unfold Context.cancel
  cases context.now with
  | none => exact Or.inr ⟨_, rfl⟩
  | some cause => exact Or.inr ⟨cause, rfl⟩

/-- An undisturbed context that has not ended is live. -/
theorem Undisturbed.live_of_now {context : Context} (undisturbed : context.Undisturbed)
    (quiet : context.now = none) : context = live := by
  cases undisturbed with
  | inl isLive => exact isLive
  | inr isEnded =>
      obtain ⟨cause, rfl⟩ := isEnded
      cases quiet

end Context

namespace Pipeline.ComesTo

variable {pipeline : Pipeline} {statistics : Statistics} {given : Option JobGraph}
  {standing : Standing}

/-- Only passes interrupt a context that was live. -/
theorem undisturbed (came : pipeline.ComesTo .live statistics given standing) :
    standing.context.Undisturbed := by
  induction came with
  | start isGiven valid => exact Or.inl rfl
  | next came turn live prepared succeeds inductionHypothesis =>
      simp only [Standing.advance]
      split
      · exact .cancel
      · exact inductionHypothesis.later.symm ▸ inductionHypothesis

/-- Honest passes come to made graphs. -/
theorem made {context : Context} (came : pipeline.ComesTo context statistics given standing)
    (honest : ∀ pass ∈ pipeline.passes, pass.Honest) (made : ∀ graph ∈ given, graph.Made) :
    standing.holding.current.Made := by
  induction came with
  | start isGiven valid => exact made _ isGiven
  | next came turn live prepared succeeds inductionHypothesis =>
      have next := (honest _ (List.mem_of_getElem? turn)).made inductionHypothesis succeeds.made
      rw [← Holding.after_current succeeds.made] at next
      exact next

end Pipeline.ComesTo

/-! ## One compilation -/

namespace Compiler

variable {compiler : Compiler} {given : Option JobGraph}

/-- What is lowered was made, and the context is still live. -/
theorem prepare_ok (honest : ∀ pass ∈ compiler.passes, pass.Honest)
    (made : ∀ graph ∈ given, graph.Made) {graph : JobGraph}
    (prepared : (compiler.prepare .live given).outcome = .ok graph) :
    graph.Made ∧ (compiler.prepare .live given).context = .live := by
  cases compiler.pipeline.run_cases .live .fresh given with
  | inl invalid =>
      obtain ⟨fault, invalid⟩ := invalid
      have refused := compiler.pipeline.run_refused .live .fresh invalid
      simp [prepare, optimize, refused, Pipeline.refused] at prepared
  | inr valid =>
      obtain ⟨last, came, stops⟩ := valid
      generalize ran : compiler.pipeline.run .live .fresh given = run at stops
      simp only [prepare, optimize, ran] at prepared ⊢
      cases stops with
      | completed atEnd =>
          have undisturbed := came.undisturbed
          dsimp only at prepared ⊢
          cases look : last.context.now with
          | some cause =>
              rw [look] at prepared
              cases prepared
          | none =>
              rw [look] at prepared
              refine ⟨?_, undisturbed.later.trans (undisturbed.live_of_now look)⟩
              exact Except.ok.inj prepared ▸ came.made honest made
      | interrupted turn ended => cases prepared
      | unprepared turn live lacking => cases prepared
      | rejected turn live prepared' objection => cases prepared

/-- A compilation that fails before the lowering draws nothing. -/
theorem compile_failed {context : Context} {fault : Fault}
    (failed : (compiler.prepare context given).outcome = .error fault) :
    ∃ compilation, compiler.compile context given = .done compilation ∧
      compilation.outcome = .error fault := by
  simp only [compile, finish, failed]
  exact ⟨_, rfl, rfl⟩

/-- A compilation that was given answers gave them to the lowering. -/
theorem compile_comes {context : Context} {graph : JobGraph}
    (prepared : (compiler.prepare context given).outcome = .ok graph)
    {answers : List (Namespace × String)} {compilation : Compilation}
    (came : (compiler.compile context given).Comes answers (.done compilation)) :
    ∃ lowered, (lower compiler.settings.strictStageEdges (some graph)).Comes answers
        (.done lowered) ∧
      compilation.outcome = lowered.outcome.mapError (.within .lowering) := by
  simp only [compile, finish, prepared] at came
  obtain ⟨before, after, lowered, rfl, first, onward⟩ := Drawing.Comes.bind_inv came
  refine ⟨lowered, ?_⟩
  cases result : lowered.outcome with
  | error fault =>
      rw [result] at onward
      obtain ⟨rfl, same⟩ := Drawing.Comes.done_inv onward
      cases same
      exact ⟨by rwa [List.append_nil], rfl⟩
  | ok plan =>
      rw [result] at onward
      obtain ⟨rfl, same⟩ := Drawing.Comes.done_inv onward
      cases same
      exact ⟨by rwa [List.append_nil], rfl⟩

end Compiler

/-- A lowering with fresh answers ends like one that is answered by any source: both fail, or one
plan is the other under a renaming. -/
theorem JobGraph.Sound.comes_echoes {graph : JobGraph} (sound : graph.Sound) {strict : Bool}
    {answers others : List (Namespace × String)} {lowered other : Lowered}
    (came : (lower strict (some graph)).Comes answers (.done lowered))
    (otherCame : (lower strict (some graph)).Comes others (.done other)) {session : String}
    (fresh : Fresh session answers) (bounded : ∀ ns, (answers.map Prod.fst).count ns ≤ 2 ^ 64)
    {source after : Source} (given : source.Gives others after) :
    ∃ names, Echoes (Plan.rename names) lowered.outcome other.outcome := by
  cases sound.lower_cases strict with
  | inl failing =>
      obtain ⟨fault, fails⟩ := failing
      rw [fails] at came otherCame
      obtain ⟨_, same⟩ := came.done_inv
      obtain ⟨_, otherSame⟩ := otherCame.done_inv
      cases same
      cases otherSame
      exact ⟨⟨.refl _, .refl _, .refl _, .refl _⟩, .error (.same fault)⟩
  | inr walking =>
      obtain ⟨gathering, walked, isWalked⟩ := walking
      rw [isWalked] at came otherCame
      obtain ⟨groups, isPlaced, _⟩ := walked.placed sound
      exact walked.comes_echoes sound came otherCame fresh
        (given.fresh (Gathering.lower_bounded isPlaced came otherCame bounded))

namespace Compiler

variable {compiler : Compiler} {given : Option JobGraph}

section Answered

variable (honest : ∀ pass ∈ compiler.passes, pass.Honest) (made : ∀ graph ∈ given, graph.Made)
  {answers : List (Namespace × String)} {compilation : Compilation}
  (came : (compiler.compile .live given).Comes answers (.done compilation))

include honest made came

/-- A compilation that is given some of the answers of a source ends like one that is run alone, as
long as no counter comes round: both fail, or both give plans with the same digested bytes. -/
theorem compile_alone {source after : Source} {all : List (Namespace × String)}
    (gave : source.Gives all after) (bounded : ∀ ns, (all.map Prod.fst).count ns < 2 ^ 64)
    (part : answers.Sublist all) (alone : Source) :
    (∃ plan own, compilation.outcome = .ok plan ∧
        ((compiler.compile .live given).run alone).1.outcome = .ok own ∧
        plan.structureBytes = own.structureBytes) ∨
      ∃ fault own, compilation.outcome = .error fault ∧
        ((compiler.compile .live given).run alone).1.outcome = .error own := by
  have fresh := (gave.fresh fun ns => Nat.le_of_lt (bounded ns)).sublist part
  have few : ∀ ns, (answers.map Prod.fst).count ns ≤ 2 ^ 64 := fun ns =>
    Nat.le_of_lt (Nat.lt_of_le_of_lt ((part.map Prod.fst).count_le ns) (bounded ns))
  cases prepared : (compiler.prepare .live given).outcome with
  | error fault =>
      obtain ⟨failure, isFailure, failed⟩ := compile_failed prepared
      rw [isFailure] at came ⊢
      obtain ⟨_, same⟩ := came.done_inv
      cases same
      exact Or.inr ⟨fault, fault, failed, failed⟩
  | ok graph =>
      have sound := (prepare_ok honest made prepared).1.sound
      obtain ⟨lowered, lowerCame, outcome⟩ := compile_comes prepared came
      obtain ⟨others, ownCame, ownGiven, _⟩ := (compiler.compile .live given).run_comes alone
      obtain ⟨ownLowered, ownLowerCame, ownOutcome⟩ := compile_comes prepared ownCame
      obtain ⟨names, echoes⟩ :=
        sound.comes_echoes lowerCame ownLowerCame fresh few ownGiven
      rw [outcome, ownOutcome]
      generalize lowered.outcome = result at echoes ⊢
      generalize ownLowered.outcome = ownResult at echoes ⊢
      cases echoes with
      | error resembles => exact Or.inr ⟨_, _, rfl, rfl⟩
      | ok plan =>
          refine Or.inl ⟨plan, plan.rename names, rfl, rfl, ?_⟩
          rw [Plan.structureBytes, Plan.structureBytes, Plan.structureText_rename]

/-- The identities of a compiled plan are the answers. -/
theorem compile_identities {plan : Plan} (succeeds : compilation.outcome = .ok plan) :
    plan.identities.Perm (answers.map Prod.snd) := by
  cases prepared : (compiler.prepare .live given).outcome with
  | error fault =>
      obtain ⟨failure, isFailure, failed⟩ := compile_failed prepared
      rw [isFailure] at came
      obtain ⟨_, same⟩ := came.done_inv
      cases same
      cases failed.symm.trans succeeds
  | ok graph =>
      obtain ⟨lowered, lowerCame, outcome⟩ := compile_comes prepared came
      have sound := (prepare_ok honest made prepared).1.sound
      cases result : lowered.outcome with
      | error fault =>
          rw [outcome, result] at succeeds
          cases succeeds
      | ok other =>
          rw [outcome, result] at succeeds
          obtain rfl : other = plan := Except.ok.inj succeeds
          obtain ⟨staging, sets, staffs⟩ := Plan.staffs_of_comes sound lowerCame result
          exact staffs.identities_perm

end Answered

end Compiler

end Flowplan
