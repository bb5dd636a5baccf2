import SeqSlice.Proofs.Graph.Path

/-! Dominance from the exit: over the edges turned round, from an exit behind all nodes
without successor. In terms of the graph itself, a node post-dominates another one if all
paths from there to a node without successor pass it, and there is such a path. -/

set_option autoImplicit false
namespace SeqSlice.Digraph

variable {graph : Digraph}

/-- The edges turned round, and those of the exit to the nodes without successor. -/
def stepsBack (graph : Digraph) (node : Nat) : List Nat :=
  if node = exitNode then graph.tails else graph.preds node

def EdgeBack (graph : Digraph) (source target : Nat) : Prop := target ∈ graph.stepsBack source

theorem spans_stepsBack (sources : ∀ source target, graph.Edge source target → source ∈ graph.nodes) :
    Dominance.Spans graph.stepsBack (exitNode :: graph.nodes) exitNode := by
  refine ⟨List.mem_cons_self, fun source target follows => List.mem_cons_of_mem _ ?_⟩
  unfold stepsBack at follows
  split at follows
  · exact (List.mem_filter.mp follows).1
  · exact sources target source (graph.mem_preds.mp follows)

theorem edge_of_edgeBack {source target : Nat} (inside : source ≠ exitNode)
    (back : graph.EdgeBack source target) : graph.Edge target source := by
  rw [EdgeBack, stepsBack, if_neg inside] at back
  exact graph.mem_preds.mp back

theorem walk_of_postDominates
    (sources : ∀ source target, graph.Edge source target → source ∈ graph.nodes)
    {upper lower : Nat} (proper : upper ≠ exitNode)
    (listed : graph.postDominance.dominates upper lower = true) :
    Relation.ReflTransGen graph.Edge lower upper := by
  have dominates : Dominates graph.EdgeBack exitNode upper lower :=
    (spans_stepsBack sources).dominates_of_compute listed
  -- A forward edge does not lead back to the exit, so only edges of the graph are turned round.
  suffices back : ∀ node, Relation.ReflTransGen (Forward graph.EdgeBack exitNode) upper node →
      node ≠ exitNode ∧ Reached graph.EdgeBack exitNode node ∧
        Relation.ReflTransGen graph.Edge node upper from
    (back lower dominates.forward).2.2
  intro node walk
  induction walk with
  | refl => exact ⟨proper, dominates.reached_upper, .refl⟩
  | @tail node next _ along ih =>
      obtain ⟨inside, reached, walk⟩ := ih
      refine ⟨fun same => along.2 ?_, reached.tail along.1, .head (edge_of_edgeBack inside along.1) walk⟩
      rw [same]
      exact root_dominates reached

/-! ## By paths of the graph -/

theorem mem_tails {node : Nat} :
    node ∈ graph.tails ↔ node ∈ graph.nodes ∧ ∀ next, ¬ graph.Edge node next := by
  rw [tails, List.mem_filter, List.isEmpty_iff, List.eq_nil_iff_forall_not_mem]
  exact and_congr_right fun _ => forall_congr' fun next => not_congr graph.mem_succs

structure Bounded (graph : Digraph) : Prop where
  unique : graph.nodes.Nodup
  source : ∀ source target, graph.Edge source target → source ∈ graph.nodes
  target : ∀ source target, graph.Edge source target → target ∈ graph.nodes
  exit : exitNode ∉ graph.nodes

namespace Bounded

variable (bounded : graph.Bounded)
include bounded

theorem path_edgeBack {first last : Nat} {nodes : List Nat} (inside : first ∈ graph.nodes) :
    Path graph.EdgeBack first nodes last ↔ Path (Function.swap graph.Edge) first nodes last := by
  have proper {node : Nat} (member : node ∈ graph.nodes) : node ≠ exitNode :=
    ne_of_mem_of_not_mem member bounded.exit
  constructor
  · intro path
    induction path with
    | single node => exact .single node
    | cons back _ ih =>
        have along := edge_of_edgeBack (proper inside) back
        exact .cons along (ih (bounded.source _ _ along))
  · intro path
    induction path with
    | single node => exact .single node
    | @cons source next _ _ along _ ih =>
        have back : graph.EdgeBack source next := by
          rw [EdgeBack, stepsBack, if_neg (proper inside)]
          exact graph.mem_preds.mpr along
        exact .cons back (ih (bounded.source _ _ along))

/-- From the exit, the first step is to a node without successor, and the path of the
graph that ends there is read backwards. -/
theorem path_from_exit {node : Nat} {nodes : List Nat} (proper : node ≠ exitNode) :
    Path graph.EdgeBack exitNode nodes node ↔
      ∃ last ∈ graph.tails, ∃ rest, nodes = exitNode :: rest.reverse ∧
        Path graph.Edge node rest last := by
  have step (next : Nat) : graph.EdgeBack exitNode next ↔ next ∈ graph.tails := by
    rw [EdgeBack, stepsBack, if_pos rfl]
  constructor
  · intro path
    cases path with
    | single => exact absurd rfl proper
    | @cons _ last _ rest along path =>
        have ends := (step last).mp along
        have turned := (bounded.path_edgeBack (mem_tails.mp ends).1).mp path
        exact ⟨last, ends, rest.reverse, by rw [List.reverse_reverse], turned.reverse⟩
  · rintro ⟨last, ends, rest, rfl, path⟩
    exact .cons ((step last).mpr ends)
      ((bounded.path_edgeBack (mem_tails.mp ends).1).mpr path.reverse)

theorem mem_of_path {node last : Nat} {nodes : List Nat} (path : Path graph.Edge node nodes last)
    (ends : last ∈ graph.tails) : node ∈ graph.nodes := by
  cases path with
  | single => exact (mem_tails.mp ends).1
  | cons along _ => exact bounded.source _ _ along

theorem postDominates_iff {upper lower : Nat} (inside : upper ∈ graph.nodes) :
    graph.postDominance.dominates upper lower = true ↔
      lower ∈ graph.nodes ∧ (∃ last ∈ graph.tails, Reached graph.Edge lower last) ∧
        ∀ last ∈ graph.tails, ∀ nodes, Path graph.Edge lower nodes last → upper ∈ nodes := by
  have spans := spans_stepsBack bounded.source
  have unique : (exitNode :: graph.nodes).Nodup := List.nodup_cons.mpr ⟨bounded.exit, bounded.unique⟩
  have different : upper ≠ exitNode := ne_of_mem_of_not_mem inside bounded.exit
  have computed : graph.postDominance.dominates upper lower = true ↔
      Dominates graph.EdgeBack exitNode upper lower := spans.dominates_iff unique
  rw [computed, dominates_iff_paths]
  -- The exit is no node of the graph, so nothing of the graph is above it.
  by_cases atExit : lower = exitNode
  · subst atExit
    constructor
    · rintro ⟨_, all⟩
      exact absurd (List.mem_singleton.mp (all _ (.single exitNode))) different
    · exact fun known => absurd known.1 bounded.exit
  constructor
  · rintro ⟨reached, all⟩
    obtain ⟨nodes, path⟩ := Path.exists_of_reached reached
    obtain ⟨last, ends, rest, _, forth⟩ := (bounded.path_from_exit atExit).mp path
    refine ⟨bounded.mem_of_path forth ends, ⟨last, ends, forth.reached⟩, ?_⟩
    intro last ends nodes forth
    have passed := all _ ((bounded.path_from_exit atExit).mpr ⟨last, ends, nodes, rfl, forth⟩)
    simpa [different] using passed
  · rintro ⟨_, ⟨last, ends, reached⟩, all⟩
    obtain ⟨nodes, forth⟩ := Path.exists_of_reached reached
    have path := (bounded.path_from_exit atExit).mpr ⟨last, ends, nodes, rfl, forth⟩
    refine ⟨path.reached, fun others other => ?_⟩
    obtain ⟨last, ends, rest, rfl, forth⟩ := (bounded.path_from_exit atExit).mp other
    exact List.mem_cons_of_mem _ (List.mem_reverse.mpr (all last ends rest forth))

end Bounded
end SeqSlice.Digraph
