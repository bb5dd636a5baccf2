import SeqSlice.Graph.Dominance
import SeqSlice.Program.Query

/-! The normal flow of one method: what its first regular statement reaches
without exceptional edges. Loops and branches are read off this graph. -/

set_option autoImplicit false
namespace SeqSlice

structure FlowGraph where
  method : MethodId
  head : Option PointId
  graph : Digraph
  deriving DecidableEq, Repr, Inhabited

namespace Program

variable (program : Program)

def isRegularStart (point : PointId) : Bool :=
  (program.point? point).any fun found => found.action != .catchEntry && found.action != .nop

def flowHead? (method : MethodId) : Option PointId :=
  (program.starts method).find? program.isRegularStart

def flowGraph (method : MethodId) : FlowGraph :=
  let head := program.flowHead? method
  ⟨method, head, Digraph.explore program.normalSuccs program.pointIds head.toList⟩

end Program

namespace FlowGraph

variable (flow : FlowGraph)

def nodes : List PointId := flow.graph.nodes
def succs (point : PointId) : List PointId := flow.graph.succs point
def preds (point : PointId) : List PointId := flow.graph.preds point

def dominance? : Option Dominance := flow.head.map flow.graph.dominance

def postDominance? : Option Dominance := flow.head.map fun _ => flow.graph.postDominance

end FlowGraph
end SeqSlice
