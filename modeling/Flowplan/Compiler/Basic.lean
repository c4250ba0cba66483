import Flowplan.Pass.Pipeline
import Flowplan.Plan.Lowering
import Flowplan.Settings.Basic

/-!
# Compilers

A compiler turns job graphs into plans. It applies its passes to a graph, looks at the context
once more and lowers what the passes have come to. A compiler keeps nothing between two
compilations.

A compilation has two parts. The first one reads and changes the graph, and draws no identity;
the second one draws identities and changes nothing else.
-/

namespace Flowplan

/-- Settings and the passes they stand for. -/
structure Compiler where
  settings : Settings
  passes : List Pass

/-- A graph after the passes, ready to be lowered, or why it is not. -/
structure Prepared where
  /-- The graph given, as it stands now. -/
  given : Option JobGraph
  context : Context
  statistics : Statistics
  entries : List Log.Entry
  outcome : Except Fault JobGraph

/-- What a compilation leaves behind. -/
structure Compilation where
  statistics : Statistics
  entries : List Log.Entry
  outcome : Except Fault Plan

namespace Compilation

/-- What is logged of a graph of a number of vertices that was lowered to a plan. -/
def report (vertices : Nat) (plan : Plan) : Log.Entry :=
  { level := .info
    message := "compiled " ++ toString vertices ++ " vertices into " ++ toString plan.size ++
      " stages"
    fields := [("plan", plan.id)] }

end Compilation

namespace Compiler

/-- The compiler of given passes. The passes that the settings name do not count. -/
def withPasses (settings : Option Settings) (passes : List Pass) : Compiler :=
  ⟨settings.getD .standard, passes⟩

/-- The compiler of given settings, if they can be used. -/
def new (settings : Option Settings) : Except Fault Compiler := do
  let chosen := settings.getD .standard
  chosen.validate
  let passes ← chosen.resolve
  return ⟨chosen, passes⟩

/-- The pipeline of the passes. -/
def pipeline (compiler : Compiler) : Pipeline :=
  ⟨compiler.passes, compiler.settings.verifyProducts⟩

/-- Applies the passes only. -/
def optimize (compiler : Compiler) (context : Context) (graph : Option JobGraph) : Run :=
  compiler.pipeline.run context .fresh graph

/-- Applies the passes and looks at the context once more. -/
def prepare (compiler : Compiler) (context : Context) (graph : Option JobGraph) : Prepared :=
  let run := compiler.optimize context graph
  let prepared (context : Context) (outcome : Except Fault JobGraph) : Prepared :=
    ⟨run.given, context, run.statistics, run.entries, outcome⟩
  match run.outcome with
  | .error fault => prepared run.context (.error fault)
  | .ok (graph, _) =>
      match run.context.now with
      | some cause => prepared run.context.later (.error (.interrupted cause))
      | none => prepared run.context.later (.ok graph)

/-- Lowers a prepared graph. -/
def finish (compiler : Compiler) (prepared : Prepared) : Drawing Compilation :=
  let statistics := prepared.statistics.finish
  match prepared.outcome with
  | .error fault => return ⟨statistics, prepared.entries, .error fault⟩
  | .ok graph => do
      let lowered ← lower compiler.settings.strictStageEdges (some graph)
      let entries := prepared.entries ++ lowered.entries
      match lowered.outcome with
      | .error fault => return ⟨statistics, entries, .error (.within .lowering fault)⟩
      | .ok plan =>
          return ⟨statistics, entries ++ [Compilation.report graph.size plan], .ok plan⟩

/-- Compiles a graph, which may be missing. -/
def compile (compiler : Compiler) (context : Context) (graph : Option JobGraph) :
    Drawing Compilation :=
  compiler.finish (compiler.prepare context graph)

end Compiler

end Flowplan
