import SeqSlice.Solver.Problem
import SeqSlice.Supergraph.Basic

/-! A supergraph read forwards or backwards. Read backwards, successors and
predecessors, starts and ends, and calls and return sites change places. -/

set_option autoImplicit false
namespace SeqSlice

inductive Orientation where
  | forward
  | backward
  deriving DecidableEq, Repr, Inhabited

def Orientation.name : Orientation → String
  | .forward => "Forward"
  | .backward => "Backward"

structure SupergraphView extends InterGraph where
  orientation : Orientation
  entry : MethodId
  ends : MethodId → List PointId
  callers : MethodId → List PointId

namespace Supergraph

variable (graph : Supergraph)

/-- The graph as it is, with steps onto statements that pass the test. -/
def forwardWhere (allowed : PointId → Bool) : SupergraphView where
  orientation := .forward
  entry := graph.program.entry
  methodOf := graph.methodOf
  succs point := (graph.succs point).filter allowed
  callees := graph.callees
  callers := graph.callers
  starts := graph.program.starts
  ends := graph.program.ends
  returnSites point := (graph.succs point).filter allowed
  isCall := graph.isCall
  isExit := graph.isEnd

def forward : SupergraphView := graph.forwardWhere fun _ => true

def restricted (points : List PointId) : SupergraphView := graph.forwardWhere points.contains

def calleesBefore (point : PointId) : List MethodId :=
  (((graph.preds point).filter graph.isCall).flatMap graph.callees).eraseDups

def sitesBehindCallers (method : MethodId) : List PointId :=
  ((graph.callers method).flatMap graph.succs).eraseDups

def backward : SupergraphView where
  orientation := .backward
  entry := graph.program.entry
  methodOf := graph.methodOf
  succs := graph.preds
  callees := graph.calleesBefore
  callers := graph.sitesBehindCallers
  starts := graph.program.ends
  ends := graph.program.starts
  returnSites := graph.preds
  isCall := graph.isReturnSite
  isExit := graph.isStart

end Supergraph
end SeqSlice
