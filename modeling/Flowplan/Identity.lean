/-!
# Identities of plans, stages and tasks

An identity is the name of its namespace, the session tag of the source it came from and a
running number. Every namespace of a source counts for itself, modulo `2 ^ 64`.

A `Drawing` is a computation which draws identities one at a time. It says what is drawn and
how to go on with the answer, and leaves open where the answers come from: `Drawing.run`
takes them from one source, one after another.
-/

namespace Flowplan

/-- An independent sequence of identities. -/
inductive Namespace where
  | plan
  | stage
  | task
  deriving DecidableEq, Repr

namespace Namespace

def name : Namespace → String
  | plan => "Plan"
  | stage => "Stage"
  | task => "Task"

def ofCode? : Int → Option Namespace
  | 0 => some plan
  | 1 => some stage
  | 2 => some task
  | _ => none

/-- The name of a namespace by its code, declared or not. -/
def nameOfCode (code : Int) : String :=
  match ofCode? code with
  | some ns => ns.name
  | none => "Namespace(" ++ toString code ++ ")"

end Namespace

/-- The session tag and the next number of every namespace. -/
structure Source where
  session : String
  plans : UInt64
  stages : UInt64
  tasks : UInt64
  deriving DecidableEq, Repr

namespace Source

def start (session : String) : Source := ⟨session, 0, 0, 0⟩

/-- The next number of a namespace. -/
def counter (source : Source) : Namespace → UInt64
  | .plan => source.plans
  | .stage => source.stages
  | .task => source.tasks

/-- Counts one identity of a namespace. -/
def advance (source : Source) : Namespace → Source
  | .plan => { source with plans := source.plans + 1 }
  | .stage => { source with stages := source.stages + 1 }
  | .task => { source with tasks := source.tasks + 1 }

/-- The identity of a namespace with a given number. -/
def identity (session : String) (ns : Namespace) (number : UInt64) : String :=
  ns.name ++ "-" ++ session ++ "-" ++ toString number.toNat

/-- The next identity of a namespace. -/
def draw (source : Source) (ns : Namespace) : String × Source :=
  (identity source.session ns (source.counter ns), source.advance ns)

/-- The identity of the namespace with a given code, or the complaint about the code. -/
def drawByCode (source : Source) (code : Int) : Except String (String × Source) :=
  match Namespace.ofCode? code with
  | some ns => .ok (source.draw ns)
  | none => .error ("unknown identity namespace " ++ toString code)

/-- The last of a number of identities of the namespace with a given code. Where none is drawn,
the code does not matter. -/
def drawLastByCode (source : Source) (code : Int) : Nat → Except String (String × Source)
  | 0 => .ok ("", source)
  | 1 => source.drawByCode code
  | count + 2 => do
      let (_, after) ← source.drawByCode code
      after.drawLastByCode code (count + 1)

end Source

/-- A computation with results in `α` which draws identities. -/
inductive Drawing (α : Type) where
  | done (result : α)
  | draw (ns : Namespace) (next : String → Drawing α)

namespace Drawing

variable {α β : Type}

def bind : Drawing α → (α → Drawing β) → Drawing β
  | done result, next => next result
  | draw ns rest, next => draw ns fun identity => (rest identity).bind next

instance : Monad Drawing where
  pure := done
  bind := bind

/-- Draws a number of identities of one namespace, in order. -/
def many (ns : Namespace) : Nat → Drawing (List String)
  | 0 => done []
  | count + 1 => draw ns fun identity => (many ns count).bind fun rest => done (identity :: rest)

/-- Takes every identity from one source. -/
def run : Drawing α → Source → α × Source
  | done result, source => (result, source)
  | draw ns next, source => (next (source.draw ns).1).run (source.draw ns).2

end Drawing

end Flowplan
