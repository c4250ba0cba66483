import Flowplan.Fault

/-!
# Contexts

Work is done under a context, which may be interrupted at any moment by somebody else. The
work notices only when it looks. A context is therefore told by what the work sees at each of
its looks: the first, the second, and so on.
-/

namespace Flowplan

/-- What is seen at the n-th look from now: nothing, or why the context is done. -/
structure Context where
  seen : Nat → Option Interruption

namespace Context

/-- A context which is never interrupted. -/
def live : Context := ⟨fun _ => none⟩

/-- A context which is done from the start. -/
def ended (cause : Interruption) : Context := ⟨fun _ => some cause⟩

/-- What the next look shows. -/
def now (context : Context) : Option Interruption :=
  context.seen 0

/-- The context after one look. -/
def later (context : Context) : Context := ⟨fun look => context.seen (look + 1)⟩

/-- The context after being canceled, which changes nothing for one that is done. -/
def cancel (context : Context) : Context :=
  match context.now with
  | some cause => ended cause
  | none => ended .canceled

end Context

end Flowplan
