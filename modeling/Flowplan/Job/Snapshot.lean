import Flowplan.Job.Graph

/-!
# Snapshots of properties

A snapshot copies the bags of all elements of a job graph. An element is filed under its
target and its id, so a vertex and an edge of one id are kept apart.
-/

namespace Flowplan

/-- The key under which an element is filed. -/
def Element.snapshotKey (element : Element) : String :=
  element.bag.target.name ++ "/" ++ element.id

/-- Bags by key, with one entry per key. -/
structure Snapshot where
  entries : List (String × Bag)
  deriving DecidableEq, Repr

namespace Snapshot

/-- Files a bag under a key, over what was filed there before. -/
def file (key : String) (bag : Bag) : List (String × Bag) → List (String × Bag)
  | [] => [(key, bag)]
  | first :: rest => if first.1 = key then (key, bag) :: rest else first :: file key bag rest

/-- The snapshot of a job graph. -/
def take (graph : JobGraph) : Snapshot :=
  ⟨graph.elements.foldl (fun entries element => file element.snapshotKey element.bag entries) []⟩

def get? (snapshot : Snapshot) (key : String) : Option Bag :=
  snapshot.entries.lookup key

/-- Whether two snapshots file the same: as many bags, and under every key of the first a bag in the
second that agrees. -/
def agrees (left right : Snapshot) : Bool :=
  left.entries.length = right.entries.length &&
    left.entries.all fun entry => entry.2.agrees (right.get? entry.1)

end Snapshot

end Flowplan
