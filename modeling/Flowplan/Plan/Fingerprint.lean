import Flowplan.Digest
import Flowplan.Plan.Basic
import Flowplan.Text.Hex

/-!
# Fingerprints of plans

The fingerprint of a plan is the digest of a text which tells its structure without the drawn
identities. Stages are numbered in topological order; a stage edge names its stages by these
numbers.
-/

namespace Flowplan.Plan

/-- The line of the stage with a given number. -/
def stageLine (number : Nat) (stage : Stage) : String :=
  "S" ++ toString number ++ "|" ++ toString stage.parallelism ++ "|" ++
    ",".intercalate stage.memberIds ++ "\n"

/-- The number of the stage with a given id. -/
def stageNumber (plan : Plan) (id : String) : Nat :=
  ((plan.stages.map Stage.id).idxOf? id).getD 0

/-- The line of a stage edge. -/
def edgeLine (plan : Plan) (edge : StageEdge) : String :=
  "E" ++ toString (plan.stageNumber edge.source) ++ ">" ++
    toString (plan.stageNumber edge.destination) ++ "|" ++ ",".intercalate edge.bundled ++ "|" ++
    edge.bag.text ++ "\n"

/-- The text which is digested. -/
def structureText (plan : Plan) : String :=
  String.join (plan.stages.mapIdx stageLine) ++
    String.join (plan.stageGraph.edges.map plan.edgeLine)

/-- The bytes which are digested. -/
def structureBytes (plan : Plan) : List UInt8 :=
  plan.structureText.toUTF8.toList

def fingerprint (plan : Plan) : UInt64 :=
  Digest.ofBytes plan.structureBytes

/-- The fingerprint as sixteen hexadecimal digits. -/
def fingerprintText (plan : Plan) : String :=
  Text.hex 16 plan.fingerprint.toNat

end Flowplan.Plan
