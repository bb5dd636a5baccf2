import SeqSlice.Flow.Coding
import SeqSlice.Supergraph.View
import SeqSlice.Tag.Cycle

/-! The JSON form of supergraphs, of their views and of the plans that cut them. -/

set_option autoImplicit false
namespace SeqSlice

def BlockedCalls.toJson (blocked : BlockedCalls) : Json :=
  .ofIdRows ((ascending blocked.calls).map fun call => (call, blocked.calleesAt call))

def BlockedCalls.pairs (blocked : BlockedCalls) (program : Program) :
    List (PointId × MethodId) :=
  program.pointIds.flatMap fun call =>
    (program.methodIds.filter (blocked.contains call)).map (call, ·)

def Json.ofIdPair (pair : Nat × Nat) : Json := .list [.ofNat pair.1, .ofNat pair.2]

def CyclePlan.toJson (plan : CyclePlan) (program : Program) : Json := .object [
  ("intra", redirectionsToJson plan.redirections),
  ("inter", plan.blocked.toJson),
  ("empty", .bool plan.isEmpty),
  ("blocked", .ofList .ofIdPair (plan.blocked.pairs program))]

namespace Supergraph

variable (graph : Supergraph)

def pointsToJson : Json :=
  .ofList (fun point => .object [
    ("succs", .ofIds (graph.succs point)),
    ("preds", .ofIds (graph.preds point)),
    ("callees", .ofIds (graph.callees point)),
    ("specified", .bool (graph.isSpecified point)),
    ("start", .bool (graph.isStart point)),
    ("exit", .bool (graph.isEnd point)),
    ("return_site", .bool (graph.isReturnSite point))]) graph.program.pointIds

def methodsToJson : Json :=
  .ofList (fun method => .object [
    ("callers", .ofIds (graph.callers method)),
    ("calls", .ofIds (graph.callsWithin method))]) graph.program.methodIds

def idPairLe (first second : Nat × Nat) : Bool :=
  decide (first.1 < second.1) || (first.1 == second.1 && Nat.ble first.2 second.2)

def callsToJson : Json :=
  let calls := graph.callGraph
  let blocks := graph.callSource.recursionBlocks
  .object [
    ("nodes", .ofIds calls.nodes),
    ("edges", .ofList .ofIdPair (calls.edges.mergeSort idPairLe)),
    ("components", .ofList .ofIds ((calls.cyclicComponents.map ascending).mergeSort
      fun first second => (Fact.comparePoints first second).isLE)),
    ("blocks", blocks.toJson),
    ("components_left", .ofNat (graph.callSource.graph blocks).cyclicComponents.length),
    ("with_bodies", .ofIds graph.program.methodsWithBodies)]

end Supergraph

def SupergraphView.toJson (view : SupergraphView) (program : Program) : Json := .object [
  ("orientation", .text view.orientation.name),
  ("entry", .ofNat view.entry),
  ("points", .ofList (fun point => .object [
    ("succs", .ofIds (view.succs point)),
    ("callees", .ofIds (view.callees point)),
    ("returns", .ofIds (view.returnSites point)),
    ("call", .bool (view.isCall point)),
    ("exit", .bool (view.isExit point)),
    ("method", .ofNat (view.methodOf point))]) program.pointIds),
  ("methods", .ofList (fun method => .object [
    ("starts", .ofIds (view.starts method)),
    ("ends", .ofIds (view.ends method)),
    ("callers", .ofIds (view.callers method))]) program.methodIds)]

end SeqSlice
