import Flowplan.Graph.Basic

/-!
# Traversing graphs

A converter folds a graph into something else. It visits the vertices in topological order,
each with its incoming edges, and states its result at the end. Both may fail; the state
reached is kept in either case, since a failing step may have changed it.
-/

namespace Flowplan

/-- A stepwise conversion of graphs over `V` and `E`, with state `S` and result `R`. -/
structure Converter (V E S R : Type) where
  visit : V → List E → S → Except Fault Unit × S
  result : S → Except Fault R × S

namespace Converter

variable {V E S R : Type} [Node V]

/-- Visits vertices in the order given, until a visit fails. -/
def visitAll (converter : Converter V E S R) (graph : Dag V E) :
    List V → S → Except Fault Unit × S
  | [], state => (.ok (), state)
  | vertex :: rest, state =>
      match converter.visit vertex (graph.incoming (Node.id vertex)) state with
      | (.error fault, after) => (.error fault, after)
      | (.ok (), after) => converter.visitAll graph rest after

/-- Visits the whole graph and states the result. -/
def convert (converter : Converter V E S R) (graph : Dag V E) (state : S) :
    Except Fault R × S :=
  match converter.visitAll graph graph.topological state with
  | (.error fault, after) => (.error fault, after)
  | (.ok (), after) => converter.result after

/-- Conversion of a graph which may be missing. -/
def convert? (converter : Converter V E S R) (graph : Option (Dag V E)) (state : S) :
    Except Fault R × S :=
  match graph with
  | none => (.error (.structural .missingGraph), state)
  | some graph => converter.convert graph state

end Converter

end Flowplan
