import SeqSlice.Graph.Search

/-! Finite directed graphs. Nodes and edges are kept in the order in which they
were added, and neighbours are given in that order. -/

set_option autoImplicit false
namespace SeqSlice

structure Digraph where
  nodes : List Nat
  edges : List (Nat × Nat)
  deriving DecidableEq, Repr, Inhabited

namespace Digraph

variable (graph : Digraph)

def empty : Digraph := ⟨[], []⟩

def contains (node : Nat) : Bool := graph.nodes.contains node

def hasEdge (source target : Nat) : Bool := graph.edges.contains (source, target)

def succs (node : Nat) : List Nat := (graph.edges.filter (·.1 == node)).map (·.2)

def preds (node : Nat) : List Nat := (graph.edges.filter (·.2 == node)).map (·.1)

theorem mem_succs {source target : Nat} :
    target ∈ graph.succs source ↔ (source, target) ∈ graph.edges := by
  constructor
  · intro member
    obtain ⟨⟨first, second⟩, found, rfl⟩ := List.mem_map.mp member
    obtain ⟨edge, same⟩ := List.mem_filter.mp found
    simp only [beq_iff_eq] at same
    exact same ▸ edge
  · intro edge
    exact List.mem_map.mpr ⟨(source, target), List.mem_filter.mpr ⟨edge, by simp⟩, rfl⟩

theorem mem_preds {source target : Nat} :
    source ∈ graph.preds target ↔ (source, target) ∈ graph.edges := by
  constructor
  · intro member
    obtain ⟨⟨first, second⟩, found, rfl⟩ := List.mem_map.mp member
    obtain ⟨edge, same⟩ := List.mem_filter.mp found
    simp only [beq_iff_eq] at same
    exact same ▸ edge
  · intro edge
    exact List.mem_map.mpr ⟨(source, target), List.mem_filter.mpr ⟨edge, by simp⟩, rfl⟩

def tails : List Nat := graph.nodes.filter fun node => (graph.succs node).isEmpty

/-- What a breadth-first search from the roots visits, with every edge that
leaves a visited node. -/
def explore (next : Nat → List Nat) (domain roots : List Nat) : Digraph :=
  let nodes := Graph.visit .queue next domain roots
  ⟨nodes, (nodes.flatMap fun node => (next node).map fun target => (node, target)).eraseDups⟩

def reachable (node : Nat) : List Nat := Graph.visit .queue graph.succs graph.nodes [node]

def component (node : Nat) : List Nat :=
  (graph.reachable node).filter fun other => (graph.reachable other).contains node

/-- The components with a cycle: more than one node, or a loop at the only one. -/
def cyclicComponents : List (List Nat) :=
  ((graph.nodes.map fun node =>
    graph.nodes.filter (graph.component node).contains).eraseDups).filter fun component =>
      decide (1 < component.length) || component.any fun node => graph.hasEdge node node

end Digraph
end SeqSlice
