import SeqSlice.Flow.Graph

/-! Basic blocks: maximal straight runs of the normal flow, each known by its
first statement. -/

set_option autoImplicit false
namespace SeqSlice

structure BlockGraph where
  graph : Digraph
  members : List (PointId × List PointId)
  deriving DecidableEq, Repr, Inhabited

namespace FlowGraph

variable (flow : FlowGraph)

/-- A statement begins a block unless it is the only successor of its only
predecessor. The head always begins one. -/
def isLeader (point : PointId) : Bool :=
  flow.head == some point ||
    match flow.preds point with
    | [pred] => (flow.succs pred).length != 1
    | _ => true

def continuation (point : PointId) : List PointId :=
  match flow.succs point with
  | [next] => if flow.isLeader next then [] else [next]
  | _ => []

def blockOf (leader : PointId) : List PointId :=
  Graph.visit .queue flow.continuation flow.nodes [leader]

def blocks : BlockGraph :=
  let leaders := flow.nodes.filter flow.isLeader
  let members := leaders.map fun leader => (leader, flow.blockOf leader)
  let leaderOf? := fun (point : PointId) =>
    (members.find? fun block => block.2.contains point).map (·.1)
  let edges := members.flatMap fun (leader, block) =>
    (block.getLast?.toList.flatMap flow.succs).filterMap fun next =>
      (leaderOf? next).map fun target => (leader, target)
  ⟨⟨leaders, edges.eraseDups⟩, members⟩

end FlowGraph

namespace BlockGraph

variable (blocks : BlockGraph)

def leaders : List PointId := blocks.graph.nodes

def succs (leader : PointId) : List PointId := blocks.graph.succs leader
def preds (leader : PointId) : List PointId := blocks.graph.preds leader

def block (leader : PointId) : List PointId := (blocks.members.lookup leader).getD []

def leaderOf? (point : PointId) : Option PointId :=
  (blocks.members.find? fun entry => entry.2.contains point).map (·.1)

end BlockGraph
end SeqSlice
