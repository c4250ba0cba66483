import Flowplan.Compiler.Basic
import Flowplan.Job.Workspace

/-!
# Batches of compilations

A batch compiles the graphs held under some numbers of a workspace, several of them at once.
Jobs start in order, no more of them at a time than the settings allow. They share one context,
which the first failure cancels, and one source of identities: a job that draws gets the next
identity, whichever job drew before.

A schedule says whose turn it is. At its turn a job that may start applies its passes, a job
that draws takes one identity, and a job that has drawn all it needs ends; a job without
anything to do passes. When the schedule is over, the remaining work is done in the order of
the jobs, so the empty schedule compiles one job after another.
-/

namespace Flowplan

/-- How far a job of a batch has come. -/
inductive Job where
  | waiting (number : Nat)
  | drawing (rest : Drawing Compilation)
  | compiled (plan : Plan)
  | failed

namespace Job

def isWaiting : Job → Bool
  | waiting _ => true
  | _ => false

def isDrawing : Job → Bool
  | drawing _ => true
  | _ => false

def plan? : Job → Option Plan
  | compiled plan => some plan
  | _ => none

end Job

/-- The positions of jobs, in the order of their turns. -/
abbrev Schedule := List Nat

/-- A batch on the way. -/
structure Batch where
  workspace : Workspace
  context : Context
  source : Source
  entries : List Log.Entry
  /-- The first failure. -/
  failure : Option Fault
  jobs : List Job

namespace Batch

/-- A batch before its first job. -/
def start (workspace : Workspace) (context : Context) (source : Source) (numbers : List Nat) :
    Batch :=
  ⟨workspace, context, source, [], none, numbers.map .waiting⟩

/-- Whether a job may start: those before it have, and not too many are on the way. A negative
limit is none. -/
def mayStart (batch : Batch) (limit : Int) (index : Nat) : Bool :=
  !(batch.jobs.take index).any Job.isWaiting &&
    (limit < 0 || ((batch.jobs.filter Job.isDrawing).length : Int) < limit)

/-- Applies the passes to the graph of a number, for the job at an index. -/
def begin (batch : Batch) (compiler : Compiler) (index number : Nat) : Batch :=
  let prepared := compiler.prepare batch.context (batch.workspace.graph? number)
  { batch with
    workspace := batch.workspace.update number prepared.given
    context := prepared.context
    jobs := batch.jobs.set index (.drawing (compiler.finish prepared)) }

/-- Ends the job at an index. -/
def conclude (batch : Batch) (index : Nat) (compilation : Compilation) : Batch :=
  let entries := batch.entries ++ compilation.entries
  match compilation.outcome with
  | .ok plan =>
      { batch with entries := entries, jobs := batch.jobs.set index (.compiled plan) }
  | .error fault =>
      { batch with
        entries := entries
        jobs := batch.jobs.set index .failed
        context := batch.context.cancel
        failure := batch.failure.or (some (.within (.job index) fault)) }

/-- Gives the job at an index its turn. -/
def turn (compiler : Compiler) (batch : Batch) (index : Nat) : Batch :=
  match batch.jobs[index]? with
  | some (.waiting number) =>
      if batch.mayStart compiler.settings.concurrency index then
        batch.begin compiler index number
      else batch
  | some (.drawing (.done compilation)) => batch.conclude index compilation
  | some (.drawing (.draw ns next)) =>
      let (identity, source) := batch.source.draw ns
      { batch with source := source, jobs := batch.jobs.set index (.drawing (next identity)) }
  | _ => batch

/-- Does the work of a job that is on the way, without interruption. -/
def drain (batch : Batch) (index : Nat) : Batch :=
  match batch.jobs[index]? with
  | some (.drawing rest) =>
      let (compilation, source) := rest.run batch.source
      { batch with source := source }.conclude index compilation
  | _ => batch

/-- Does all that is left of the work of a job. -/
def settle (compiler : Compiler) (batch : Batch) (index : Nat) : Batch :=
  match batch.jobs[index]? with
  | some (.waiting number) => (batch.begin compiler index number).drain index
  | _ => batch.drain index

/-- Compiles a batch: first by the schedule, then in order. -/
def run (compiler : Compiler) (schedule : Schedule) (batch : Batch) : Batch :=
  (List.range batch.jobs.length).foldl (settle compiler)
    (schedule.foldl (turn compiler) batch)

/-- The plans in the order of the jobs, unless a job failed. -/
def outcome (batch : Batch) : Except Fault (List Plan) :=
  match batch.failure with
  | some fault => .error fault
  | none => .ok (batch.jobs.filterMap Job.plan?)

end Batch

/-- The first index from `index` on whose graph stands earlier in a list, with the index where
it stands first. The numbers before `index` are known, the last one first. Numbers without a
graph do not count. -/
def Workspace.sharedFrom? (workspace : Workspace) (known : List (Nat × Nat)) (index : Nat) :
    List Nat → Option (Nat × Nat)
  | [] => none
  | number :: rest =>
      if (workspace.graph? number).isNone then workspace.sharedFrom? known (index + 1) rest
      else
        match known.lookup number with
        | some first => some (first, index)
        | none => workspace.sharedFrom? ((number, index) :: known) (index + 1) rest

/-- The first index whose graph stands earlier in a list, behind the index where it stands
first. -/
def Workspace.shared? (workspace : Workspace) (numbers : List Nat) : Option (Nat × Nat) :=
  workspace.sharedFrom? [] 0 numbers

/-- Compiles the graphs of some numbers, each of which must be a graph of its own. -/
def Compiler.compileAll (compiler : Compiler) (schedule : Schedule) (context : Context)
    (workspace : Workspace) (source : Source) (numbers : List Nat) :
    Batch × Except Fault (List Plan) :=
  let batch := Batch.start workspace context source numbers
  match workspace.shared? numbers with
  | some (first, second) => (batch, .error (.sharedGraph first second))
  | none =>
      let after := batch.run compiler schedule
      (after, after.outcome)

end Flowplan
