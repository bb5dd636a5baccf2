import SeqSlice.Fact.Basic
import SeqSlice.Flow.Graph

/-! Loops of one method. A back edge leads to a node that dominates its source.
Cutting it and leading its source to the exits of the loop instead keeps every
statement reachable. -/

set_option autoImplicit false
namespace SeqSlice

structure BackEdge where
  source : PointId
  header : PointId
  deriving DecidableEq, Repr, Inhabited

def BackEdge.le (first second : BackEdge) : Bool :=
  decide (first.source < second.source) ||
    (first.source == second.source && Nat.ble first.header second.header)

structure MethodLoops where
  backEdges : List BackEdge
  loops : List (PointId × List PointId)
  exits : List (PointId × List PointId)
  redirections : List (BackEdge × List PointId)
  deriving DecidableEq, Repr, Inhabited

namespace MethodLoops

def empty : MethodLoops := ⟨[], [], [], []⟩

def isEmpty (loops : MethodLoops) : Bool := loops.backEdges.isEmpty

def loopNodes (loops : MethodLoops) : List PointId := ascending (loops.loops.flatMap (·.2))

end MethodLoops

namespace FlowGraph

variable (flow : FlowGraph)

def backEdges (dominance : Dominance) : List BackEdge :=
  flow.nodes.flatMap fun source =>
    ((flow.succs source).filter fun header => dominance.dominates header source).map fun header =>
      ⟨source, header⟩

/-- The header, and all nodes from which the source is reached without it. -/
def naturalLoop (edge : BackEdge) : List PointId :=
  edge.header :: Graph.visit .queue flow.preds (flow.nodes.erase edge.header) [edge.source]

def loopOf (edges : List BackEdge) (header : PointId) : List PointId :=
  ascending ((edges.filter (·.header == header)).flatMap flow.naturalLoop)

def directExits (nodes : List PointId) : List PointId :=
  ascending ((nodes.flatMap flow.succs).filter fun point => !nodes.contains point)

/-- Leaving a loop through the header of an outer one goes on in the outer loop,
so such an exit stands for the exits of that header, which come earlier in the
table. -/
def exitsOf (dominance : Dominance) (table : List (PointId × List PointId)) (header : PointId)
    (nodes : List PointId) : List PointId :=
  let direct := flow.directExits nodes
  let outer := direct.filter fun point => dominance.dominates point header
  let inner := direct.filter fun point => !dominance.dominates point header
  ascending (inner ++ outer.flatMap fun point => (table.lookup point).getD [])

/-- The exits of all headers. The headers are given outer ones first. -/
def exitTable (dominance : Dominance) (loops : List (PointId × List PointId)) :
    List (PointId × List PointId) :=
  loops.foldl (fun table (header, nodes) =>
    table ++ [(header, flow.exitsOf dominance table header nodes)]) []

end FlowGraph

namespace Program

variable (program : Program)

/-- Loops whose header is the entry of a handler are cut without exits and
otherwise not looked at. -/
def loopsOf (flow : FlowGraph) (dominance : Dominance) : MethodLoops :=
  let backEdges := flow.backEdges dominance
  let regular := backEdges.filter fun edge => !program.isCatchEntry edge.header
  -- In the order of the graph a node comes after those that dominate it.
  let headers := flow.nodes.filter fun node => (regular.map (·.header)).contains node
  let loops := headers.map fun header => (header, flow.loopOf regular header)
  let exits := flow.exitTable dominance loops
  { backEdges, loops, exits
    redirections := backEdges.map fun edge =>
      (edge, if program.isCatchEntry edge.header then [] else (exits.lookup edge.header).getD []) }

def methodLoops (method : MethodId) : MethodLoops :=
  let flow := program.flowGraph method
  match flow.dominance? with
  | some dominance => program.loopsOf flow dominance
  | none => .empty

def loopsByMethod : List (MethodId × MethodLoops) :=
  (program.methodsWithBodies.map fun method => (method, program.methodLoops method)).filter
    fun entry => !entry.2.isEmpty

end Program
end SeqSlice
