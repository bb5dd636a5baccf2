import SeqSlice.Graph.Basic

/-! Dominance: a node dominates another if no path from the root avoids it. The
table is computed from that definition, by a search that leaves the node out. -/

set_option autoImplicit false
namespace SeqSlice

/-- For each node that the root reaches, the nodes that dominate it: from the
node itself up to the root. -/
structure Dominance where
  chains : List (Nat × List Nat)
  deriving DecidableEq, Repr, Inhabited

namespace Dominance

def compute (next : Nat → List Nat) (domain : List Nat) (root : Nat) : Dominance :=
  let order := Graph.visit .queue next domain [root]
  let avoiding := order.map fun node => (node, Graph.visit .queue next (order.erase node) [root])
  -- A search meets a node after those that dominate it, so each chain is in the
  -- order of the visit, reversed.
  ⟨order.map fun node =>
    (node, ((avoiding.filter fun entry => !entry.2.contains node).map (·.1)).reverse)⟩

variable (dominance : Dominance)

def chain (node : Nat) : List Nat := (dominance.chains.lookup node).getD []

def dominates (upper lower : Nat) : Bool := (dominance.chain lower).contains upper

end Dominance

namespace Digraph

variable (graph : Digraph)

def dominance (root : Nat) : Dominance := Dominance.compute graph.succs graph.nodes root

/-- Stands for the end of all paths. No statement has this id. -/
def exitNode : Nat := 4294967295

/-- Dominance in the reversed graph, from an exit behind every node without
successor. -/
def postDominance : Dominance :=
  let tails := graph.tails
  Dominance.compute (fun node => if node = exitNode then tails else graph.preds node)
    (exitNode :: graph.nodes) exitNode

end Digraph

namespace Dominance

def properChain (dominance : Dominance) (node : Nat) : List Nat :=
  (dominance.chain node).filter (· != Digraph.exitNode)

def immediate? (dominance : Dominance) (node : Nat) : Option Nat :=
  (dominance.chain node)[1]?.filter (· != Digraph.exitNode)

end Dominance
end SeqSlice
