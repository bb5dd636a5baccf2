import SeqSlice.Flow.Branch
import SeqSlice.Flow.Loop
import SeqSlice.Tag.Coding
import SeqSlice.Tag.Constructor

/-! The JSON form of what is known of the flow inside a method. -/

set_option autoImplicit false
namespace SeqSlice

def BackEdge.toJson (edge : BackEdge) : Json := .list [.ofNat edge.source, .ofNat edge.header]

def redirectionsToJson (rows : List (BackEdge × List PointId)) : Json :=
  .ofList (fun row => .list [row.1.toJson, .ofIds (ascending row.2)])
    (rows.mergeSort fun first second => first.1.le second.1)

def Dominance.toJson (dominance : Dominance) (nodes : List PointId) : Json :=
  .ofList (fun node =>
    let chain := dominance.properChain node
    .list [.ofNat node, .ofOption .ofNat (dominance.immediate? node), .ofIds chain,
      .ofNat chain.length]) nodes

namespace FlowGraph

variable (flow : FlowGraph)

def dominanceAnswer (upper lower : PointId) : Json :=
  let above (table : Dominance) : Json := .bool (table.dominates upper lower)
  .list [.bool (flow.graph.contains upper), .ofOption above flow.dominance?,
    .ofOption above flow.postDominance?]

def summary : List (String × Json) := [
  ("head", .ofOption .ofNat flow.head),
  ("count", .ofNat flow.nodes.length),
  ("graph", .ofList (fun node =>
    .list [.ofNat node, .ofIds (flow.succs node), .ofIds (flow.preds node)]) flow.nodes),
  ("tails", .ofIds flow.graph.tails),
  ("dom", .ofOption (·.toJson flow.nodes) flow.dominance?),
  ("pdom", .ofOption (·.toJson flow.nodes) flow.postDominance?),
  ("branch", .ofIds flow.branchPoints)]

end FlowGraph

def MethodLoops.summary (loops : MethodLoops) : List (String × Json) := [
  ("back_edges", .ofList BackEdge.toJson loops.backEdges),
  ("loop_nodes", .ofIds loops.loopNodes),
  ("acyclic", .bool loops.isEmpty),
  ("loops", .ofIdRows loops.loops),
  ("exits", .ofIdRows loops.exits),
  ("redirections", redirectionsToJson loops.redirections)]

def Program.flowSummary (program : Program) (asked : List (PointId × PointId))
    (method : MethodId) : Json :=
  let flow := program.flowGraph method
  .object ([("method", .ofNat method)] ++ flow.summary ++ (program.methodLoops method).summary ++ [
    ("dominates", .ofList (fun pair => flow.dominanceAnswer pair.1 pair.2) asked),
    ("constructors", .ofList allocationToJson (program.constructorCalls method))])

end SeqSlice
