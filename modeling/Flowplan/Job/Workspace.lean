import Flowplan.Job.Graph

/-!
# Workspaces

A workspace numbers job graphs. Two numbers may hold different graphs over the same elements,
which differ in nothing but their identity: a change made through one of them shows in the
other. A number may also hold no graph.
-/

namespace Flowplan

/-- Numbered job graphs. -/
structure Workspace where
  /-- The graphs that differ in their elements. -/
  bodies : List JobGraph
  /-- The body each number holds. -/
  numbers : List (Option Nat)

namespace Workspace

def empty : Workspace := ⟨[], []⟩

/-- The body held under a number. -/
def body? (workspace : Workspace) (number : Nat) : Option Nat :=
  (workspace.numbers[number]?).join

/-- The graph held under a number, as it stands. -/
def graph? (workspace : Workspace) (number : Nat) : Option JobGraph :=
  (workspace.body? number).bind fun body => workspace.bodies[body]?

/-- Adds a graph with elements of its own, or a number without a graph. -/
def add (workspace : Workspace) : Option JobGraph → Workspace
  | none => { workspace with numbers := workspace.numbers ++ [none] }
  | some graph =>
      ⟨workspace.bodies ++ [graph], workspace.numbers ++ [some workspace.bodies.length]⟩

/-- Adds a graph over the elements of another one. -/
def addShared (workspace : Workspace) (number : Nat) : Workspace :=
  { workspace with numbers := workspace.numbers ++ [workspace.body? number] }

/-- Replaces the elements of the graph held under a number. -/
def update (workspace : Workspace) (number : Nat) (graph : Option JobGraph) : Workspace :=
  match workspace.body? number, graph with
  | some body, some graph => { workspace with bodies := workspace.bodies.set body graph }
  | _, _ => workspace

/-- The number that the next graph gets. -/
def size (workspace : Workspace) : Nat :=
  workspace.numbers.length

end Workspace

end Flowplan
