import Flowplan.Job.Graph

/-!
# Passes

A pass transforms a job graph. It declares the property it produces and the properties it
needs. It may narrow the elements it visits, on which its needs are checked, and the elements
it promises its product on.

Applying a pass may change the bags of the graph it is given. It hands back that graph,
another graph over the same elements, or a graph with elements of its own; and it may hand
back nothing, fail, or break off. Since changes are made in place, the graph given is part of
what is left behind in every case.
-/

namespace Flowplan

/-- How a graph somebody has come to relates to the graph they were given. -/
inductive Lineage where
  /-- It is that graph. -/
  | same
  /-- It is another graph over the same elements. -/
  | rebuilt
  /-- It has elements of its own. -/
  | separate
  deriving DecidableEq, Repr

/-- What a pass breaks off with. -/
inductive Breakage where
  | text (text : String)
  | fault (fault : Fault)

/-- What work on the elements of a missing graph breaks off with. -/
def Breakage.graphMissing : Breakage :=
  .text "runtime error: invalid memory address or nil pointer dereference"

/-- What a pass hands back. -/
inductive Returned where
  /-- The graph it was given. -/
  | same
  /-- Another graph over the elements it was given. -/
  | rebuilt
  /-- A graph with elements of its own. -/
  | other (graph : JobGraph)
  | nothing
  | failed (fault : Fault)
  | brokeOff (breakage : Breakage)

namespace Returned

/-- The fault of a pass that failed or broke off. -/
def fault? (pass : String) : Returned → Option Fault
  | failed fault => some fault
  | brokeOff (.text text) => some (.brokeOff pass text)
  | brokeOff (.fault fault) => some (.brokeOffWith pass fault)
  | _ => none

end Returned

/-- What the application of a pass leaves behind. -/
structure Applied where
  /-- The graph it was given, as it stands now. -/
  given : JobGraph
  returned : Returned
  /-- Whether it canceled the context it ran under. -/
  cancels : Bool

/-- A pass over job graphs. -/
structure Pass where
  name : String
  produces : Kind
  prerequisites : List Kind
  /-- The elements visited, for a pass that narrows them. -/
  visits : Option (Element → Bool)
  /-- The elements on which the product is promised, for a pass that narrows them. -/
  promises : Option (Element → Bool)
  apply : JobGraph → Applied
  /-- What it hands back if no graph is given to it. -/
  applyToNothing : Returned := .brokeOff .graphMissing

namespace Pass

/-- Whether a prerequisite is needed on an element. -/
def needsOn (pass : Pass) (kind : Kind) (element : Element) : Bool :=
  element.bag.target = kind.target && pass.visits.all fun visits => visits element

/-- Whether the product is promised on an element. -/
def promisesOn (pass : Pass) (element : Element) : Bool :=
  element.bag.target = pass.produces.target && pass.promises.all fun promises => promises element

/-- One fault per prerequisite and element that needs it and lacks it. -/
def unmetPrerequisites (pass : Pass) (graph : JobGraph) : List Fault :=
  pass.prerequisites.flatMap fun kind =>
    (graph.elements.filter fun element => pass.needsOn kind element && !element.bag.has kind).map
      fun element => .precondition pass.name kind.name element.label

/-- One fault per element on which the product is promised and missing. -/
def missingProducts (pass : Pass) (graph : JobGraph) : List Fault :=
  (graph.elements.filter fun element =>
    pass.promisesOn element && !element.bag.has pass.produces).map
      fun element => .postcondition pass.name pass.produces.name element.label

def checkPrerequisites (pass : Pass) (graph : JobGraph) : Except Fault Unit :=
  Fault.ofList (pass.unmetPrerequisites graph)

/-- Checks the prerequisites on a graph that may be missing. A pass that needs nothing finds
nothing amiss there; for any other pass there is no answer. -/
def checkPrerequisites? (pass : Pass) : Option JobGraph → Option (Except Fault Unit)
  | some graph => some (pass.checkPrerequisites graph)
  | none => if pass.prerequisites.isEmpty then some (.ok ()) else none

def checkProducts (pass : Pass) (graph : JobGraph) : Except Fault Unit :=
  Fault.ofList (pass.missingProducts graph)

/-- What a pass makes of a graph, both of which may be missing. -/
def make (pass : Pass) (graph : Option JobGraph) : Except Fault (Option JobGraph) :=
  let (given, returned) :=
    match graph with
    | some graph =>
        let applied := pass.apply graph
        (some applied.given, applied.returned)
    | none => (none, pass.applyToNothing)
  match returned with
  | .same => .ok given
  | .rebuilt => .ok given
  | .other next => .ok (some next)
  | .nothing => .ok none
  | returned => .error ((returned.fault? pass.name).getD (.structural .missingResult))

/-- Applies passes one after another without any check. -/
def applyAll (passes : List Pass) (graph : Option JobGraph) : Except Fault (Option JobGraph) :=
  passes.foldlM (fun current pass => pass.make current) graph

end Pass

end Flowplan
