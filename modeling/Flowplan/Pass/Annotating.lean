import Flowplan.Pass.Basic

/-!
# The built-in passes

Two passes set properties without touching the structure of a job. The default parallelism
goes to every vertex that has none; the shuffles of a job read raw bytes, so that records are
decoded only after they have been redistributed.
-/

namespace Flowplan.Pass

def defaultParallelismName : String := "default-parallelism"

/-- Gives every vertex without a parallelism the given one, which counts as at least one. -/
def defaultParallelism (instances : Int) : Pass where
  name := defaultParallelismName
  produces := .parallelism
  prerequisites := []
  visits := none
  promises := none
  apply graph :=
    let lacks : Element → Bool
      | .vertex vertex => !vertex.bag.has .parallelism
      | .edge _ => false
    let value : Value := .parallelism (max instances 1)
    match graph.setWhere lacks (some value) (graph.order.map .vertex) with
    | (some fault, after) => ⟨after, .failed fault, false⟩
    | (none, after) => ⟨after, .same, false⟩

def shuffleEdgeDecoderName : String := "shuffle-edge-decoder"

/-- Makes every shuffle read raw bytes. The edges are reached vertex by vertex, as the incoming
edges of each. -/
def shuffleEdgeDecoder : Pass where
  name := shuffleEdgeDecoderName
  produces := .decoder
  prerequisites := [.communicationPattern]
  visits := none
  promises := some Element.isShuffle
  apply graph :=
    match graph.setWhere Element.isShuffle (some Value.bytesDecoder)
      (graph.vertices.flatMap fun vertex => graph.incomingPlaces vertex.id) with
    | (some fault, after) => ⟨after, .failed fault, false⟩
    | (none, after) => ⟨after, .same, false⟩

end Flowplan.Pass
