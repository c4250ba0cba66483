import Flowplan.Job.Element

/-!
# Stages

A stage is a group of vertices which run with one parallelism and exchange data without
shuffling. Its vertices are copies, frozen when the stage was formed. A stage edge stands for
the shuffles from one stage to another, and a task is the work of one vertex of a stage.
-/

namespace Flowplan

/-- The work of one vertex of a stage. -/
structure Task where
  id : String
  stage : String
  vertex : String
  deriving DecidableEq, Repr

/-- A group of vertices which run together. -/
structure Stage where
  id : String
  /-- The vertices, in the topological order of the job graph. -/
  members : List Vertex
  parallelism : Int
  /-- One task per member, in the same order. -/
  tasks : List Task
  deriving DecidableEq, Repr

namespace Stage

def memberIds (stage : Stage) : List String :=
  stage.members.map Vertex.id

def label (stage : Stage) : String :=
  "stage " ++ stage.id ++ " [" ++ ", ".intercalate stage.memberIds ++ "] x" ++
    toString stage.parallelism

instance : Node Stage := ⟨Stage.id⟩

end Stage

/-- The movement of data between two stages. -/
structure StageEdge where
  source : String
  destination : String
  bag : Bag
  /-- The ids of the job's edges bundled here. -/
  bundled : List String
  deriving DecidableEq, Repr

namespace StageEdge

/-- A stage edge on which nothing is bundled yet. -/
def bare (source destination : String) : StageEdge := ⟨source, destination, .empty .edge, []⟩

def id (edge : StageEdge) : String :=
  edge.source ++ "->" ++ edge.destination

def label (edge : StageEdge) : String :=
  "stage edge " ++ edge.id ++ " " ++ edge.bag.text

instance : Arc StageEdge := ⟨fun edge => ⟨edge.id, edge.source, edge.destination⟩⟩

end StageEdge

abbrev StageGraph := Dag Stage StageEdge

end Flowplan
