import Flowplan.Log.Line
import Flowplan.Pass.Registry

/-!
# Settings

What is decided about compilations before any of them: which passes are applied, what is
checked, how many jobs of a batch are compiled at once, and what is logged.
-/

namespace Flowplan

/-- The settings of a compiler. -/
structure Settings where
  /-- The names of the passes, in order of application. -/
  passes : List String
  /-- Whether every pass is checked for having set what it promises. -/
  verifyProducts : Bool
  /-- Whether disagreeing properties on a stage edge fail a compilation. -/
  strictStageEdges : Bool
  /-- The number of jobs of a batch compiled at once. -/
  concurrency : Int
  /-- The parallelism of vertices that have none. -/
  defaultParallelism : Int
  /-- The name of the least level that is logged. -/
  logLevel : String
  deriving DecidableEq, Repr

namespace Settings

/-- The settings used unless others are given. -/
def standard : Settings :=
  { passes := Registry.defaultNames
    verifyProducts := true
    strictStageEdges := false
    concurrency := 4
    defaultParallelism := 1
    logLevel := "INFO" }

/-- The settings of which nothing is known. -/
def blank : Settings := ⟨[], false, false, 0, 0, ""⟩

/-- What the settings decide about passes. -/
def passOptions (settings : Settings) : PassOptions := ⟨settings.defaultParallelism⟩

/-- The passes the settings name. -/
def resolve (settings : Settings) : Except Fault (List Pass) :=
  Registry.builtIn.resolve settings.passOptions settings.passes

/-- The least level that is logged. -/
def level (settings : Settings) : Log.Level := Log.Level.parse settings.logLevel

/-- A number that must be at least one. -/
def checkPositive (setting : String) (value : Int) : Except Fault Unit :=
  if value < 1 then .error (.notPositive setting value) else .ok ()

/-- Checks that settings can be used. The first thing wrong is told. -/
def validate (settings : Settings) : Except Fault Unit := do
  checkPositive "max_concurrent_compilations" settings.concurrency
  checkPositive "default_parallelism" settings.defaultParallelism
  discard settings.resolve

end Settings

end Flowplan
