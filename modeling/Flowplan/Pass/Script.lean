import Flowplan.Job.Description
import Flowplan.Pass.Basic

/-!
# Scripted passes

A script is a list of steps which stands for the work of a pass. The steps act on the current
graph, at first the graph given; at the end the current graph is handed back. A change of the
elements shows in the graph given as long as the current graph is over the same elements.
-/

namespace Flowplan

/-- A choice of elements. -/
inductive Selector where
  | all
  | none
  | vertices
  | edges
  | shuffles
  | ids (chosen : List String)
  deriving DecidableEq, Repr

def Selector.selects : Selector → Element → Bool
  | all, _ => true
  | none, _ => false
  | vertices, .vertex _ => true
  | vertices, .edge _ => false
  | edges, .vertex _ => false
  | edges, .edge _ => true
  | shuffles, element => element.isShuffle
  | ids chosen, element => chosen.contains element.id

/-- One step of a script. -/
inductive Step where
  /-- Stores a value on the selected elements, and fails if it is refused. -/
  | set (selector : Selector) (value : Option Value)
  /-- Stores a value on the selected elements, and breaks off if it is refused. -/
  | mustSet (selector : Selector) (value : Option Value)
  | fail (fault : Fault)
  | breakOff (breakage : Breakage)
  | handBackNothing
  /-- Goes on with a described graph, which may be missing. -/
  | replace (described : Option JobDescription)
  /-- Goes on with another graph over the same elements. -/
  | rebuild
  | cancel

namespace Script

/-- What a script has done so far. Both graphs may be missing. -/
structure Work where
  given : Option JobGraph
  current : Option JobGraph
  lineage : Lineage
  cancels : Bool

namespace Work

/-- The work before the first step. -/
def start (given : Option JobGraph) : Work := ⟨given, given, .same, false⟩

/-- Puts a changed version of the current graph in its place. -/
def change (work : Work) (graph : JobGraph) : Work :=
  { work with
    current := some graph
    given := if work.lineage = .separate then work.given else some graph }

/-- What is handed back at the end. -/
def returned (work : Work) : Returned :=
  match work.lineage, work.current with
  | .same, _ => .same
  | .rebuilt, _ => .rebuilt
  | .separate, some graph => .other graph
  | .separate, none => .nothing

end Work

/-- Stores a value on selected elements of the current graph. -/
def store (work : Work) (selector : Selector) (value : Option Value)
    (refused : Fault → Returned) : Work × Option Returned :=
  match work.current with
  | none => (work, some (.brokeOff .graphMissing))
  | some graph =>
      let (fault, after) := graph.setAll selector.selects value
      (work.change after, fault.map refused)

/-- Takes one step, which may end the script. -/
def take (work : Work) : Step → Work × Option Returned
  | .set selector value => store work selector value .failed
  | .mustSet selector value => store work selector value fun fault => .brokeOff (.fault fault)
  | .fail fault => (work, some (.failed fault))
  | .breakOff breakage => (work, some (.brokeOff breakage))
  | .handBackNothing => (work, some .nothing)
  | .replace none => ({ work with current := none, lineage := .separate }, none)
  | .replace (some described) =>
      match described.build with
      | .error fault => (work, some (.failed fault))
      | .ok graph => ({ work with current := some graph, lineage := .separate }, none)
  | .rebuild =>
      match work.current, work.lineage with
      | none, _ => (work, some (.brokeOff .graphMissing))
      | some _, .separate => (work, none)
      | some _, _ => ({ work with lineage := .rebuilt }, none)
  | .cancel => ({ work with cancels := true }, none)

/-- Takes the steps in order until one ends the script. -/
def run : List Step → Work → Work × Returned
  | [], work => (work, work.returned)
  | step :: rest, work =>
      match take work step with
      | (after, some returned) => (after, returned)
      | (after, none) => run rest after

/-- The application of a script to a graph. -/
def apply (steps : List Step) (graph : JobGraph) : Applied :=
  let (work, returned) := run steps (.start (some graph))
  ⟨work.given.getD graph, returned, work.cancels⟩

/-- What a script hands back if no graph is given to it. -/
def applyToNothing (steps : List Step) : Returned :=
  (run steps (.start none)).2

end Script

end Flowplan
