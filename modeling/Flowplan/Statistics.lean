/-!
# Statistics of a compilation

What is known about a compilation: whether it was started and finished, and for each position
of the pipeline the name of the pass that ended there and the time that was measured for it. The
times themselves are left out; what is kept is whether there is one. Starting and finishing count
once; an end of a pass is noted only at a position of the pipeline that was started.
-/

namespace Flowplan

/-- The record of one compilation. -/
structure Statistics where
  started : Bool
  finished : Bool
  /-- The name at each position, empty as long as no pass has ended there. -/
  passNames : List String
  /-- Whether a time has been measured at each position. -/
  measured : List Bool
  deriving DecidableEq, Repr

namespace Statistics

/-- The record before anything has happened. -/
def fresh : Statistics := ⟨false, false, [], []⟩

/-- Starts the record for a pipeline of the given number of passes. -/
def start (statistics : Statistics) (passes : Nat) : Statistics :=
  if statistics.started then statistics
  else
    { statistics with
      started := true
      passNames := List.replicate passes ""
      measured := List.replicate passes false }

def finish (statistics : Statistics) : Statistics :=
  if statistics.started then { statistics with finished := true } else statistics

/-- Notes the end of the pass at a position. -/
def endPass (statistics : Statistics) (position : Int) (name : String) : Statistics :=
  if position < 0 ∨ statistics.measured.length ≤ position then statistics
  else
    { statistics with
      passNames := statistics.passNames.set position.toNat name
      measured := statistics.measured.set position.toNat true }

/-- The number of times kept for passes, measured or not. -/
def runtimes (statistics : Statistics) : Nat :=
  statistics.measured.length

end Statistics

end Flowplan
