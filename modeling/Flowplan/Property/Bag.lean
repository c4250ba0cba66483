import Flowplan.Property.Value

/-!
# Property bags

The bag of an element holds its properties, at most one per kind, in increasing order
of kind. A value enters only if its kind is declared, annotates the elements the bag is
for, and accepts the value; a refused value leaves the bag as it was.
-/

namespace Flowplan

/-- The properties of one element. -/
structure Bag where
  target : Target
  values : List Value
  deriving DecidableEq, Repr

namespace Bag

def empty (target : Target) : Bag := ⟨target, []⟩

/-- Puts a value in its place by kind, over a value of the same kind. -/
def put (value : Value) : List Value → List Value
  | [] => [value]
  | first :: rest =>
      if value.kind.code < first.kind.code then value :: first :: rest
      else if value.kind = first.kind then value :: rest
      else first :: put value rest

/-- The fault of storing a value, if there is one. No value at all is refused first, then
an undeclared kind, then a kind of other elements, then a value outside its domain. -/
def objection (bag : Bag) : Option Value → Option Fault
  | none => some (.domain "<nil>" "<nil>" "property value is nil")
  | some value =>
      if !value.kind.declared then some (value.refused "undeclared property kind")
      else if value.kind.target ≠ bag.target then
        some (value.refused ("property annotates " ++ value.kind.target.name ++ "s, not " ++
          bag.target.name ++ "s"))
      else value.objection.map value.refused

/-- Stores a value over any value of the same kind, or refuses it. -/
def set (bag : Bag) (value : Option Value) : Except Fault Bag :=
  match bag.objection value with
  | some fault => .error fault
  | none => .ok { bag with values := value.elim bag.values fun value => put value bag.values }

def get? (bag : Bag) (kind : Kind) : Option Value :=
  bag.values.find? fun value => value.kind = kind

def has (bag : Bag) (kind : Kind) : Bool :=
  (bag.get? kind).isSome

/-- The kinds held, in increasing order. -/
def kinds (bag : Bag) : List Kind :=
  bag.values.map Value.kind

def size (bag : Bag) : Nat :=
  bag.values.length

/-- The texts of the values, in increasing order of kind. -/
def texts (bag : Bag) : List String :=
  bag.values.map Value.text

def text (bag : Bag) : String :=
  "\x7b" ++ ", ".intercalate bag.texts ++ "\x7d"

/-- Whether a bag and another one, if there is one, are for the same elements and hold the same
values: as many of them, and every value of the first under its kind in the second. -/
def agrees (bag : Bag) : Option Bag → Bool
  | none => false
  | some other =>
      bag.target = other.target && bag.size = other.size &&
        bag.values.all fun value => other.get? value.kind = some value

def pattern? (bag : Bag) : Option Pattern :=
  (bag.get? .communicationPattern).bind Value.asPattern?

def encoder? (bag : Bag) : Option String :=
  (bag.get? .encoder).bind Value.asEncoder?

def decoder? (bag : Bag) : Option String :=
  (bag.get? .decoder).bind Value.asDecoder?

def partitioner? (bag : Bag) : Option Partitioner :=
  (bag.get? .partitioner).bind Value.asPartitioner?

def parallelism? (bag : Bag) : Option Int :=
  (bag.get? .parallelism).bind Value.asParallelism?

/-- Sets values one after another and stops at the first one refused. -/
def setAll (bag : Bag) : List (Option Value) → Except Fault Bag
  | [] => .ok bag
  | value :: rest => do (← bag.set value).setAll rest

end Bag

end Flowplan
