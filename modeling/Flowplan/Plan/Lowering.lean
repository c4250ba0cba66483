import Flowplan.DisjointSets
import Flowplan.Graph.Builder
import Flowplan.Graph.Traversal
import Flowplan.Identity
import Flowplan.Job.Graph
import Flowplan.Log.Entry
import Flowplan.Plan.Basic

/-!
# Lowering job graphs to plans

Vertices connected by edges that do not shuffle share a stage; every shuffle has to cross
from one stage to another, and is carried on the stage edge between the two.

A lowering first walks the job graph. The walk joins the vertices of each edge that does not
shuffle, and notes vertices and edges in the order met: vertices in topological order, edges
by their destinations and then by insertion. An edge without a communication pattern ends it.

The walk's groups become stages, in the order of their first members. An identity is drawn
for every stage, then one for every task, and the last one for the plan if everything else
succeeds. Shuffles between stages are bundled on stage edges in the order of the walk. When
an edge brings a value which differs from the one bundled before, the lowering fails if it is
strict; otherwise the later value stays, and the conflict is reported.
-/

namespace Flowplan

/-- What the walk has met. -/
structure Gathering where
  /-- Vertices joined by edges that do not shuffle. -/
  groups : DisjointSets
  /-- The vertices, in the order of the walk. -/
  order : List Vertex
  /-- The edges, in the order of the walk. -/
  edges : List Edge

namespace Gathering

def empty : Gathering := ⟨.empty, [], []⟩

/-- The name under which the lowering states what it needs. -/
def needer : String := "physical-plan-generator"

/-- The fault of an edge without a communication pattern. -/
def patternMissing (edge : Edge) : Fault :=
  .precondition needer Kind.communicationPattern.name edge.label

/-- Notes an edge of a known pattern which ends at a vertex. -/
def noteEdge (gathering : Gathering) (vertex : Vertex) (edge : Edge) (pattern : Pattern) :
    Gathering :=
  { gathering with
    edges := gathering.edges ++ [edge]
    groups :=
      if pattern = .shuffle then gathering.groups
      else gathering.groups.union edge.source vertex.id }

/-- Notes edges which end at a vertex, until one has no communication pattern. -/
def noteEdges (gathering : Gathering) (vertex : Vertex) :
    List Edge → Except Fault Unit × Gathering
  | [] => (.ok (), gathering)
  | edge :: rest =>
      match edge.pattern? with
      | none => (.error (patternMissing edge), gathering)
      | some pattern => (gathering.noteEdge vertex edge pattern).noteEdges vertex rest

/-- Notes a vertex with the edges which end at it. -/
def visit (vertex : Vertex) (incoming : List Edge) (gathering : Gathering) :
    Except Fault Unit × Gathering :=
  noteEdges
    { gathering with
      groups := gathering.groups.add vertex.id
      order := gathering.order ++ [vertex] }
    vertex incoming

end Gathering

/-- Vertices which are to share a stage, by the representative of their group. -/
structure Group where
  representative : String
  members : List Vertex
  deriving DecidableEq, Repr

namespace Group

/-- Adds a vertex to the group of its representative, behind all groups if that is new. -/
def place (representative : String) (vertex : Vertex) : List Group → List Group
  | [] => [⟨representative, [vertex]⟩]
  | group :: rest =>
      if group.representative = representative then
        { group with members := group.members ++ [vertex] } :: rest
      else group :: place representative vertex rest

/-- Adds vertices to the groups their representatives decide, one after another. -/
def placeAll (sets : DisjointSets) : List Vertex → List Group → Except Fault (List Group)
  | [], groups => .ok groups
  | vertex :: rest, groups =>
      match sets.representative? vertex.id with
      | none => .error (.structural (.vertexWithoutStage vertex.label))
      | some representative => placeAll sets rest (place representative vertex groups)

/-- The largest parallelism among vertices, and at least one. -/
def parallelism (members : List Vertex) : Int :=
  members.foldl (fun most vertex => max most (vertex.bag.parallelism?.getD 1)) 1

/-- The stage of a group, with the identities of the stage and of its tasks. -/
def stage (group : Group) (id : String) (taskIds : List String) : Stage :=
  { id := id
    members := group.members
    parallelism := parallelism group.members
    tasks := (taskIds.zip group.members).map fun (task, vertex) => ⟨task, id, vertex.id⟩ }

/-- Draws the identities of tasks, group by group, and forms the stages. -/
def drawStages : List Group → List String → Drawing (List Stage)
  | group :: groups, id :: ids => do
      let taskIds ← Drawing.many .task group.members.length
      let rest ← drawStages groups ids
      return group.stage id taskIds :: rest
  | _, _ => return []

/-- Draws the identities of all stages, then of all tasks, and forms the stages. -/
def draw (groups : List Group) : Drawing (List Stage) := do
  let ids ← Drawing.many .stage groups.length
  drawStages groups ids

end Group

/-- Two edges bundled on one stage edge differ in a property. -/
structure Conflict where
  stageEdge : String
  edge : String
  kind : Kind
  previous : Value
  next : Value
  deriving DecidableEq, Repr

namespace Conflict

/-- The conflict as a failure. -/
def fault (conflict : Conflict) : Fault :=
  .conflict conflict.stageEdge conflict.kind.name conflict.previous.text conflict.next.text

/-- The conflict as a warning. -/
def entry (conflict : Conflict) : Log.Entry :=
  { level := .warn
    message := "conflicting property values " ++ conflict.previous.text ++ " and " ++
      conflict.next.text ++ ", keeping " ++ conflict.next.text
    fields := [("stageEdge", conflict.stageEdge), ("irEdge", conflict.edge),
      ("kind", conflict.kind.name)] }

end Conflict

namespace StageEdge

/-- The conflict between the value bundled so far and the next one, if they differ. -/
def conflict? (bundle : StageEdge) (edge : Edge) (kind : Kind) (next : Value) :
    Option Conflict :=
  match bundle.bag.get? kind with
  | none => none
  | some previous =>
      if previous = next then none else some ⟨bundle.id, edge.id, kind, previous, next⟩

/-- Takes the values of the given kinds over from an edge. -/
def takeOver (strict : Bool) (edge : Edge) :
    List Kind → StageEdge → Except Fault StageEdge × List Conflict
  | [], bundle => (.ok bundle, [])
  | kind :: rest, bundle =>
      match edge.bag.get? kind with
      | none => takeOver strict edge rest bundle
      | some next =>
          let conflict := bundle.conflict? edge kind next
          match strict, conflict with
          | true, some conflict => (.error conflict.fault, [])
          | _, _ =>
              match bundle.bag.set (some next) with
              | .error fault => (.error fault, conflict.toList)
              | .ok bag =>
                  let (result, conflicts) := takeOver strict edge rest { bundle with bag := bag }
                  (result, conflict.toList ++ conflicts)

/-- Bundles an edge. -/
def bundleEdge (strict : Bool) (edge : Edge) (bundle : StageEdge) :
    Except Fault StageEdge × List Conflict :=
  takeOver strict edge Kind.carried { bundle with bundled := bundle.bundled ++ [edge.id] }

/-- Bundles an edge on the stage edge between two stages, behind all others if that is new. -/
def bundleBetween (strict : Bool) (edge : Edge) (source destination : String) :
    List StageEdge → Except Fault (List StageEdge) × List Conflict
  | [] =>
      let (result, conflicts) := bundleEdge strict edge (bare source destination)
      (result.map fun bundle => [bundle], conflicts)
  | bundle :: rest =>
      if bundle.source = source ∧ bundle.destination = destination then
        let (result, conflicts) := bundleEdge strict edge bundle
        (result.map fun extended => extended :: rest, conflicts)
      else
        let (result, conflicts) := bundleBetween strict edge source destination rest
        (result.map fun extended => bundle :: extended, conflicts)

end StageEdge

/-- The stages of a plan with the stage each vertex was assigned to. -/
structure Staging where
  stages : List Stage

namespace Staging

/-- The id of the stage of every vertex. -/
def assignments (staging : Staging) : List (String × String) :=
  staging.stages.flatMap fun stage => stage.members.map fun vertex => (vertex.id, stage.id)

/-- The vertex of every task. -/
def taskVertices (staging : Staging) : List (String × Vertex) :=
  staging.stages.flatMap fun stage =>
    (stage.tasks.zip stage.members).map fun (task, vertex) => (task.id, vertex)

def stageOf? (staging : Staging) (vertex : String) : Option Stage :=
  staging.stages.find? fun stage => vertex ∈ stage.memberIds

/-- Bundles edges on stage edges, in order. An edge within a stage must not shuffle. -/
def bundleAll (staging : Staging) (strict : Bool) (sets : DisjointSets) :
    List Edge → List StageEdge → Except Fault (List StageEdge) × List Conflict
  | [], bundles => (.ok bundles, [])
  | edge :: rest, bundles =>
      match staging.stageOf? edge.source, staging.stageOf? edge.destination with
      | some source, some destination =>
          if sets.together edge.source edge.destination then
            if edge.isShuffle then
              (.error (.structural (.shuffleInsideStage edge.label source.label)), [])
            else staging.bundleAll strict sets rest bundles
          else
            match StageEdge.bundleBetween strict edge source.id destination.id bundles with
            | (.error fault, conflicts) => (.error fault, conflicts)
            | (.ok extended, conflicts) =>
                let (result, later) := staging.bundleAll strict sets rest extended
                (result, conflicts ++ later)
      | _, _ => (.error (.structural (.edgeWithoutStage edge.label)), [])

/-- The graph of the stages and stage edges. -/
def graph (staging : Staging) (bundles : List StageEdge) : Except Fault StageGraph := do
  let withStages ← Builder.empty.addVertices staging.stages
  let complete ← withStages.connectAll bundles
  complete.build.mapError (.within .stageGraph)

/-- The plan under a given identity. -/
def plan (staging : Staging) (graph : StageGraph) (id : String) : Plan :=
  { id := id
    stageGraph := graph
    taskVertices := staging.taskVertices
    assignments := staging.assignments }

end Staging

/-- The outcome of a lowering, with the conflicts reported on the way. -/
structure Lowered where
  outcome : Except Fault Plan
  conflicts : List Conflict

namespace Lowered

/-- A lowering that failed before anything was drawn. -/
def failed (fault : Fault) : Lowered := ⟨.error fault, []⟩

/-- What a lowering writes to the log. -/
def entries (lowered : Lowered) : List Log.Entry :=
  lowered.conflicts.map Conflict.entry ++
    match lowered.outcome with
    | .error _ => []
    | .ok plan =>
        [{ level := .debug
           message := "generated physical plan with " ++ toString plan.size ++ " stages"
           fields := [("plan", plan.id)] }]

end Lowered

namespace Gathering

/-- Forms the plan of a finished walk. -/
def lower (gathering : Gathering) (strict : Bool) : Drawing Lowered :=
  match Group.placeAll gathering.groups gathering.order [] with
  | .error fault => return .failed fault
  | .ok groups => do
      let staging : Staging := ⟨← Group.draw groups⟩
      match staging.bundleAll strict gathering.groups gathering.edges [] with
      | (.error fault, conflicts) => return ⟨.error fault, conflicts⟩
      | (.ok bundles, conflicts) =>
          match staging.graph bundles with
          | .error fault => return ⟨.error fault, conflicts⟩
          | .ok graph =>
              Drawing.draw .plan fun id => return ⟨.ok (staging.plan graph id), conflicts⟩

/-- The lowering as a conversion of job graphs. -/
def converter (strict : Bool) : Converter Vertex Edge Gathering (Drawing Lowered) where
  visit := visit
  result := fun gathering => (.ok (gathering.lower strict), gathering)

end Gathering

/-- Lowers a job graph, which may be missing, to a plan. -/
def lower (strict : Bool) (graph : Option JobGraph) : Drawing Lowered :=
  match ((Gathering.converter strict).convert? graph .empty).1 with
  | .error fault => return .failed fault
  | .ok drawing => drawing

end Flowplan
