import Flowplan.Pass.Annotating

/-!
# Registered passes

A registry finds passes by name. A name is registered once. Passes are made when they are
asked for, from options of the asking party.
-/

namespace Flowplan

/-- What a party asking for passes decides about them. -/
structure PassOptions where
  defaultParallelism : Int
  deriving DecidableEq, Repr

/-- How to make the pass registered under a name. -/
structure Registry where
  factories : List (String × (PassOptions → Pass))

namespace Registry

def empty : Registry := ⟨[]⟩

def register (registry : Registry) (name : String) (factory : PassOptions → Pass) :
    Except Fault Registry :=
  if (registry.factories.lookup name).isSome then .error (.passAlreadyRegistered name)
  else .ok ⟨registry.factories ++ [(name, factory)]⟩

/-- The registered names in increasing order. -/
def names (registry : Registry) : List String :=
  (registry.factories.map Prod.fst).mergeSort fun left right => decide (left ≤ right)

/-- The passes of the given names, in that order. -/
def resolve (registry : Registry) (options : PassOptions) :
    List String → Except Fault (List Pass)
  | [] => .ok []
  | name :: rest =>
      match registry.factories.lookup name with
      | none => .error (.unknownPass name registry.names)
      | some factory => do
          let later ← registry.resolve options rest
          return factory options :: later

/-- The registry of the built-in passes. -/
def builtIn : Registry :=
  ⟨[(Pass.shuffleEdgeDecoderName, fun _ => Pass.shuffleEdgeDecoder),
    (Pass.defaultParallelismName,
      fun options => Pass.defaultParallelism options.defaultParallelism)]⟩

/-- The names of the passes applied unless others are asked for. -/
def defaultNames : List String := [Pass.defaultParallelismName, Pass.shuffleEdgeDecoderName]

end Registry

end Flowplan
