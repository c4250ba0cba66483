import Flowplan.Fault
import Flowplan.Property.Kind

/-!
# Property values

A value belongs to exactly one kind. The library's own values are typed; a `Foreign`
value is one that another party defines for a kind of its choice, with a text and an
identity of its own and possibly a reason why it must not be stored. Reading a value back
at a type finds only a value of that type, so a foreign value stored under a kind is not
taken for the library's own value of that kind.
-/

namespace Flowplan

/-- The discipline by which data moves across an edge. Codes 1 to 3 are declared. -/
structure Pattern where
  code : Int
  deriving DecidableEq, Repr

namespace Pattern

/-- Each partition of the source goes to the matching partition of the destination. -/
def oneToOne : Pattern := ⟨1⟩

/-- Every partition of the source goes to every partition of the destination. -/
def broadcast : Pattern := ⟨2⟩

/-- Data is redistributed among the partitions of the destination. -/
def shuffle : Pattern := ⟨3⟩

def name (pattern : Pattern) : String :=
  if pattern = oneToOne then "OneToOne"
  else if pattern = broadcast then "Broadcast"
  else if pattern = shuffle then "Shuffle"
  else "CommunicationPattern(" ++ toString pattern.code ++ ")"

end Pattern

/-- The distribution of records among receivers. Codes 1 to 3 are declared. -/
structure Partitioner where
  code : Int
  deriving DecidableEq, Repr

namespace Partitioner

def hash : Partitioner := ⟨1⟩

def range : Partitioner := ⟨2⟩

def intact : Partitioner := ⟨3⟩

def name (partitioner : Partitioner) : String :=
  if partitioner = hash then "Hash"
  else if partitioner = range then "Range"
  else if partitioner = intact then "Intact"
  else "Partitioner(" ++ toString partitioner.code ++ ")"

end Partitioner

/-- A value defined by another party. An empty `refusal` means that it may be stored.

What its owner tells it apart by is its `identity`, which shows nowhere else: two foreign values of
one kind and one text may differ. Foreign values are assumed to be comparable and equal to
themselves. -/
structure Foreign where
  kind : Kind
  text : String
  refusal : String
  identity : String
  deriving DecidableEq, Repr

/-- A property value. -/
inductive Value where
  | pattern (movement : Pattern)
  | encoder (format : String)
  | decoder (format : String)
  | partitioner (distribution : Partitioner)
  | parallelism (instances : Int)
  | foreign (value : Foreign)
  deriving DecidableEq, Repr

namespace Value

def kind : Value → Kind
  | pattern _ => .communicationPattern
  | encoder _ => .encoder
  | decoder _ => .decoder
  | partitioner _ => .partitioner
  | parallelism _ => .parallelism
  | foreign value => value.kind

def text : Value → String
  | pattern movement => movement.name
  | encoder format => "Encoder(" ++ format ++ ")"
  | decoder format => "Decoder(" ++ format ++ ")"
  | partitioner distribution => distribution.name
  | parallelism instances => "Parallelism(" ++ toString instances ++ ")"
  | foreign value => value.text

/-- The reason why a value lies outside the domain of its kind, if it does. -/
def objection : Value → Option String
  | pattern movement =>
      if 1 ≤ movement.code ∧ movement.code ≤ 3 then none else some "unknown communication pattern"
  | encoder format => if format = "" then some "encoder format must be named" else none
  | decoder format => if format = "" then some "decoder format must be named" else none
  | partitioner distribution =>
      if 1 ≤ distribution.code ∧ distribution.code ≤ 3 then none else some "unknown partitioner"
  | parallelism instances =>
      if instances < 1 then some "parallelism must be positive" else none
  | foreign value => if value.refusal = "" then none else some value.refusal

/-- The fault of storing `value`, for the given reason. -/
def refused (value : Value) (reason : String) : Fault :=
  .domain value.kind.name value.text reason

/-- Accepts exactly the values in the domain of their kind. -/
def validate (value : Value) : Except Fault Unit :=
  match value.objection with
  | some reason => .error (value.refused reason)
  | none => .ok ()

def asPattern? : Value → Option Pattern
  | pattern movement => some movement
  | _ => none

def asEncoder? : Value → Option String
  | encoder format => some format
  | _ => none

def asDecoder? : Value → Option String
  | decoder format => some format
  | _ => none

def asPartitioner? : Value → Option Partitioner
  | partitioner distribution => some distribution
  | _ => none

def asParallelism? : Value → Option Int
  | parallelism instances => some instances
  | _ => none

/-- The decoder which leaves data as raw bytes. -/
def bytesDecoder : Value := decoder "bytes"

end Value

end Flowplan
