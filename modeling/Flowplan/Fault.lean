/-!
# What can go wrong

Every refusal of the library is a `Fault`: a cause, or a cause seen from further
out (`within`), or several causes collected together (`several`). The wording of a
fault is decided in one place, `Fault.message`; nothing else in the library looks at
that text.

A collected fault is never a member of another one. `Fault.collect` keeps this rule:
a member which is itself a collection is replaced by its own members, while a
collection seen from further out stays one member.
-/

namespace Flowplan

/-- Why a context stopped the work done under it. -/
inductive Interruption where
  | canceled
  | deadlineExceeded
  deriving DecidableEq, Repr

/-- The text of an interruption. -/
def Interruption.message : Interruption → String
  | .canceled => "context canceled"
  | .deadlineExceeded => "context deadline exceeded"

/-- A structural invariant which does not hold. Vertices, edges and stages are named by
the text or the id under which they are reported. -/
inductive Defect where
  | missingGraph
  | missingResult
  | duplicateVertex (vertex : String)
  | duplicateEdge (edge : String)
  | selfLoop (edge vertex : String)
  | unknownSource (edge vertex : String)
  | unknownDestination (edge vertex : String)
  | unindexedVertex (vertex : String)
  | cycle (vertices : List String)
  | vertexWithoutStage (vertex : String)
  | edgeWithoutStage (edge : String)
  | shuffleInsideStage (edge stage : String)
  | stated (reason : String)
  deriving DecidableEq, Repr

/-- The text of a defect. -/
def Defect.reason : Defect → String
  | .missingGraph => "nil DAG"
  | .missingResult => "pass returned a nil DAG"
  | .duplicateVertex vertex => "duplicate vertex " ++ vertex
  | .duplicateEdge edge => "duplicate edge " ++ edge
  | .selfLoop edge vertex => "edge " ++ edge ++ " is a self loop on " ++ vertex
  | .unknownSource edge vertex =>
      "edge " ++ edge ++ " references unknown source vertex " ++ vertex
  | .unknownDestination edge vertex =>
      "edge " ++ edge ++ " references unknown destination vertex " ++ vertex
  | .unindexedVertex vertex => "vertex " ++ vertex ++ " is not indexed"
  | .cycle vertices =>
      "cycle detected involving vertices [" ++ ", ".intercalate vertices ++ "]"
  | .vertexWithoutStage vertex => vertex ++ " was not assigned to any stage"
  | .edgeWithoutStage edge => edge ++ " connects vertices without a stage"
  | .shuffleInsideStage edge stage => "shuffle " ++ edge ++ " lies inside " ++ stage
  | .stated reason => reason

/-- The activity during which an inner fault arose. -/
inductive Scope where
  | inputGraph
  | pass (name : String)
  | stageGraph
  | lowering
  | job (index : Nat)
  | stated (text : String)
  deriving DecidableEq, Repr

/-- The text put in front of the inner fault. -/
def Scope.label : Scope → String
  | .inputGraph => "invalid input DAG"
  | .pass name => "pass " ++ name
  | .stageGraph => "unable to form stage DAG"
  | .lowering => "unable to generate physical plan"
  | .job index => "job " ++ toString index
  | .stated text => text

/-- A cause of failure. Properties and elements are named by the text under which they
are reported, so that a fault can speak of kinds nobody declared. -/
inductive Fault where
  /-- A prerequisite property is missing on an element which has to be processed. -/
  | precondition (pass kind element : String)
  /-- A pass did not set the property it promised. -/
  | postcondition (pass kind element : String)
  /-- A value outside the domain of its kind was to be stored. -/
  | domain (kind value reason : String)
  | structural (defect : Defect)
  /-- Edges bundled on one stage edge disagree on a property. -/
  | conflict (stageEdge kind previous next : String)
  | interrupted (cause : Interruption)
  | unknownVertex (vertex : String)
  | unknownPass (name : String) (known : List String)
  | passAlreadyRegistered (name : String)
  | sharedGraph (first second : Nat)
  /-- A setting which has to be at least one. -/
  | notPositive (setting : String) (value : Int)
  /-- A pass broke off with a value which is not a fault. -/
  | brokeOff (pass text : String)
  /-- A pass broke off with a fault. -/
  | brokeOffWith (pass : String) (inner : Fault)
  | within (scope : Scope) (inner : Fault)
  | several (members : List Fault)
  | stated (text : String)
  deriving Repr

namespace Fault

/-- How a collection is announced. -/
def announcement (count : Nat) : String :=
  if count = 1 then "1 error occurred:" else toString count ++ " errors occurred:"

mutual

/-- The full text of a fault. -/
def message : Fault → String
  | precondition pass kind element =>
      "Precondition violated for " ++ pass ++ ": property " ++ kind ++ " is not set on " ++ element
  | postcondition pass kind element =>
      "Pass " ++ pass ++ " promised property " ++ kind ++ " but it is not set on " ++ element
  | domain kind value reason =>
      "Value " ++ value ++ " is outside the domain of property " ++ kind ++ ": " ++ reason
  | structural defect => "Structural invariant violated: " ++ defect.reason
  | conflict stageEdge kind previous next =>
      "Conflicting values for property " ++ kind ++ " on stage edge " ++ stageEdge ++ ": " ++
        previous ++ " and " ++ next
  | interrupted cause => cause.message
  | unknownVertex vertex => "unknown vertex " ++ vertex
  | unknownPass name known =>
      "unknown pass " ++ name ++ " (known passes: [" ++ " ".intercalate known ++ "])"
  | passAlreadyRegistered name => "pass " ++ name ++ " is already registered"
  | sharedGraph first second =>
      "jobs " ++ toString first ++ " and " ++ toString second ++ " share the same DAG"
  | notPositive setting value => setting ++ " must be positive, got " ++ toString value
  | brokeOff pass text => "Pass " ++ pass ++ " Panic: " ++ text ++ "\n"
  | brokeOffWith pass inner => "Pass " ++ pass ++ " Panic: " ++ message inner ++ "\n"
  | within scope inner => scope.label ++ ": " ++ message inner
  | several members =>
      announcement members.length ++ "\n\t" ++ "\n\t".intercalate (points members) ++ "\n\n"
  | stated text => text

/-- The texts of several faults, each as a point of a list. -/
def points : List Fault → List String
  | [] => []
  | fault :: rest => ("* " ++ message fault) :: points rest

end

/-- The members a fault contributes to a collection. -/
def members : Fault → List Fault
  | several members => members
  | fault => [fault]

/-- Collects faults in order, without collections inside the collection. -/
def collect (faults : List Fault) : Fault :=
  several (faults.flatMap members)

/-- No fault for an empty list, and a collection for any other. -/
def ofList : List Fault → Except Fault Unit
  | [] => .ok ()
  | faults => .error (several faults)

/-- The members of a collection as a numbered list, one per line. -/
def numbered (faults : List Fault) : String :=
  String.join (faults.mapIdx fun index fault =>
    toString (index + 1) ++ ") " ++ message fault ++ "\n")

/-- The fault under everything that only says where it arose. -/
def core : Fault → Fault
  | within _ inner => core inner
  | brokeOffWith _ inner => core inner
  | fault => fault

mutual

/-- The first fault accepted by `wanted`, looking from the outside in and through the
members of a collection in order. -/
def find? (wanted : Fault → Bool) : Fault → Option Fault
  | within scope inner =>
      if wanted (within scope inner) then some (within scope inner) else find? wanted inner
  | brokeOffWith pass inner =>
      if wanted (brokeOffWith pass inner) then some (brokeOffWith pass inner)
      else find? wanted inner
  | several members =>
      if wanted (several members) then some (several members) else findAmong? wanted members
  | fault => if wanted fault then some fault else none

/-- The first fault accepted by `wanted` in or under the listed ones. -/
def findAmong? (wanted : Fault → Bool) : List Fault → Option Fault
  | [] => none
  | fault :: rest => (find? wanted fault).or (findAmong? wanted rest)

end

def isPrecondition : Fault → Bool
  | precondition .. => true
  | _ => false

def isPostcondition : Fault → Bool
  | postcondition .. => true
  | _ => false

def isDomain : Fault → Bool
  | domain .. => true
  | _ => false

def isStructural : Fault → Bool
  | structural .. => true
  | _ => false

def isConflict : Fault → Bool
  | conflict .. => true
  | _ => false

end Fault

end Flowplan
