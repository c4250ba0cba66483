import Flowplan.Context
import Flowplan.Graph.Validation
import Flowplan.Job.Workspace
import Flowplan.Log.Entry
import Flowplan.Pass.Basic
import Flowplan.Statistics

/-!
# Pipelines

A pipeline applies passes to a job graph, one at a time and in order, and stops at the first
one that fails. Before a pass is applied, the context is looked at and the prerequisites of
the pass are checked; afterwards a new graph is validated, and the products of the pass are
checked if that is wanted. A graph handed back as it was given is not validated again.

Everything a run does shows as a list of events: the states every pass goes through, each
application with the graph it was applied to, and the report of a failure. Transitions and log
entries are read off the events.
-/

namespace Flowplan

/-- How far a pass has come in a run. -/
inductive PassState where
  | pending
  | validating
  | applying
  | done
  | failed
  deriving DecidableEq, Repr

namespace PassState

def name : PassState → String
  | pending => "Pending"
  | validating => "Validating"
  | applying => "Applying"
  | done => "Done"
  | failed => "Failed"

def ofCode? : Int → Option PassState
  | 0 => some pending
  | 1 => some validating
  | 2 => some applying
  | 3 => some done
  | 4 => some failed
  | _ => none

/-- The name of a state by its code, declared or not. -/
def nameOfCode (code : Int) : String :=
  match ofCode? code with
  | some state => state.name
  | none => "State(" ++ toString code ++ ")"

end PassState

/-- A pass of a run enters a state. -/
structure Transition where
  index : Nat
  pass : String
  state : PassState
  deriving DecidableEq, Repr

namespace Transition

def label (transition : Transition) : String :=
  toString transition.index ++ " " ++ transition.pass ++ " " ++ transition.state.name

def entry (transition : Transition) : Log.Entry :=
  { level := .debug
    message := "pass state: " ++ transition.state.name
    fields := [("pass", transition.pass), ("index", toString transition.index)] }

end Transition

/-- What happens in a run. -/
inductive Event where
  | moved (transition : Transition)
  | applied (index : Nat) (graph : JobGraph)
  | reported (pass : String) (fault : Fault)

namespace Event

def transition? : Event → Option Transition
  | moved transition => some transition
  | _ => none

/-- The report of a failure. A collection is told as a numbered list. -/
def failureEntry (pass : String) : Fault → Log.Entry
  | .several members =>
      { level := .error
        message := "pass failed with " ++ toString members.length ++ " errors:\n" ++
          Fault.numbered members
        fields := [("pass", pass)] }
  | fault =>
      { level := .error
        message := "pass failed"
        fields := [("pass", pass), ("error", fault.message)] }

def entry? : Event → Option Log.Entry
  | moved transition => some transition.entry
  | applied .. => none
  | reported pass fault => some (failureEntry pass fault)

end Event

/-- The graph given to a run and the graph it has come to. -/
structure Holding where
  given : JobGraph
  current : JobGraph
  lineage : Lineage

namespace Holding

def start (graph : JobGraph) : Holding := ⟨graph, graph, .same⟩

/-- The graphs after a pass was applied to the current one. -/
def after (holding : Holding) (applied : Applied) : Holding :=
  let given := if holding.lineage = .separate then holding.given else applied.given
  match applied.returned with
  | .rebuilt =>
      ⟨given, applied.given, if holding.lineage = .separate then .separate else .rebuilt⟩
  | .other graph => ⟨given, graph, .separate⟩
  | _ => ⟨given, applied.given, holding.lineage⟩

end Holding

/-- What is left behind when a pass has had its turn. -/
structure Attempt where
  events : List Event
  holding : Holding
  cancels : Bool
  fault : Option Fault

namespace Pass

/-- What is wrong with what a pass handed back, if anything is. -/
def objection (pass : Pass) (verify : Bool) (applied : Applied) (next : JobGraph) :
    Option Fault :=
  let products : Except Fault Unit := if verify then pass.checkProducts next else .ok ()
  let verdict : Except Fault Unit :=
    match applied.returned with
    | .same => products
    | .rebuilt => do next.validate; products
    | .other _ => do next.validate; products
    | .nothing => .error (.structural .missingResult)
    | returned => .error ((returned.fault? pass.name).getD (.structural .missingResult))
  match verdict with
  | .ok () => none
  | .error fault => some fault

/-- Checks, applies and checks again. -/
def attempt (pass : Pass) (verify : Bool) (index : Nat) (holding : Holding) : Attempt :=
  match pass.checkPrerequisites holding.current with
  | .error fault =>
      { events := [.moved ⟨index, pass.name, .validating⟩]
        holding := holding
        cancels := false
        fault := some fault }
  | .ok () =>
      let applied := pass.apply holding.current
      let after := holding.after applied
      { events := [.moved ⟨index, pass.name, .validating⟩, .moved ⟨index, pass.name, .applying⟩,
          .applied index holding.current]
        holding := after
        cancels := applied.cancels
        fault := pass.objection verify applied after.current }

end Pass

/-- A pipeline of passes. -/
structure Pipeline where
  passes : List Pass
  /-- Whether the products of each pass are checked. -/
  verify : Bool

/-- What a run leaves behind. -/
structure Run where
  events : List Event
  statistics : Statistics
  context : Context
  /-- The graph given and the graph come to, as they stand now, if a graph was given. -/
  holding : Option Holding
  /-- The graph come to, with its relation to the graph given. -/
  outcome : Except Fault (JobGraph × Lineage)

namespace Run

/-- The graph given, as it stands now. -/
def given (run : Run) : Option JobGraph :=
  run.holding.map Holding.given

def transitions (run : Run) : List Transition :=
  run.events.filterMap Event.transition?

def entries (run : Run) : List Log.Entry :=
  run.events.filterMap Event.entry?

/-- The same run with earlier events in front. -/
def preceded (events : List Event) (run : Run) : Run :=
  { run with events := events ++ run.events }

end Run

namespace Pipeline

/-- Gives every pass its turn, starting with the pass of the given index. -/
def runFrom (verify : Bool) (index : Nat) :
    List Pass → Context → Statistics → Holding → Run
  | [], context, statistics, holding =>
      { events := []
        statistics := statistics
        context := context
        holding := some holding
        outcome := .ok (holding.current, holding.lineage) }
  | pass :: rest, context, statistics, holding =>
      match context.now with
      | some cause =>
          { events := [.moved ⟨index, pass.name, .failed⟩]
            statistics := statistics
            context := context.later
            holding := some holding
            outcome := .error (.interrupted cause) }
      | none =>
          let attempt := pass.attempt verify index holding
          let next := if attempt.cancels then context.later.cancel else context.later
          match attempt.fault with
          | some fault =>
              { events := attempt.events ++
                  [.moved ⟨index, pass.name, .failed⟩, .reported pass.name fault]
                statistics := statistics
                context := next
                holding := some attempt.holding
                outcome := .error (.within (.pass pass.name) fault) }
          | none =>
              (runFrom verify (index + 1) rest next (statistics.endPass index pass.name)
                attempt.holding).preceded
                (attempt.events ++ [.moved ⟨index, pass.name, .done⟩])

/-- The events with which every run starts. -/
def pendings (passes : List Pass) : List Event :=
  passes.mapIdx fun index pass => .moved ⟨index, pass.name, .pending⟩

/-- Runs the pipeline on a graph, which may be missing. -/
def run (pipeline : Pipeline) (context : Context) (statistics : Statistics)
    (graph : Option JobGraph) : Run :=
  let started := statistics.start pipeline.passes.length
  let refused (fault : Fault) : Run :=
    { events := pendings pipeline.passes
      statistics := started
      context := context
      holding := graph.map .start
      outcome := .error (.within .inputGraph fault) }
  match graph with
  | none => refused (.structural .missingGraph)
  | some graph =>
      match graph.validate with
      | .error fault => refused fault
      | .ok () =>
          (runFrom pipeline.verify 0 pipeline.passes context started (.start graph)).preceded
            (pendings pipeline.passes)

end Pipeline

/-- Keeps what a run on the graph of a number has come to. A graph that is not the one given
gets a number of its own, which is told. -/
def Workspace.keep (workspace : Workspace) (number : Nat) (run : Run) : Workspace × Option Nat :=
  let updated := workspace.update number run.given
  match run.outcome with
  | .ok (_, .rebuilt) => (updated.addShared number, some updated.size)
  | .ok (graph, .separate) => (updated.add (some graph), some updated.size)
  | _ => (updated, none)

end Flowplan
