import Mathlib
import SeqSlice.Proofs.Flow.NaturalLoop
import SeqSlice.Proofs.Graph.Immediate
import SeqSlice.Proofs.Graph.PostDominance

/-! What the two dominance tables of a flow graph say about its paths. -/

set_option autoImplicit false
namespace SeqSlice

namespace FlowGraph

def IsTail (flow : FlowGraph) (node : PointId) : Prop := ∀ next, ¬ flow.graph.Edge node next

/-- From the lower node there are paths to nodes without successor, and all of them pass
the upper one. -/
structure PostDominates (flow : FlowGraph) (upper lower : PointId) : Prop where
  mem : lower ∈ flow.nodes
  ends : ∃ last nodes, Path flow.graph.Edge lower nodes last ∧ flow.IsTail last
  passed : ∀ last nodes, Path flow.graph.Edge lower nodes last → flow.IsTail last → upper ∈ nodes

/-- A node dominates those to which all paths from the head pass it. Whatever finds the
immediate dominators, the chains are what is passed when going up.

For what is said of paths to the end, the exit must not be a statement: its id is the last
of a word, so that takes a program with as many statements as a word has values. -/
structure DominatesByPaths (flow : FlowGraph) (head : PointId)
    (dominance postDominance : Dominance) : Prop where
  forwards : ∀ upper lower, dominance.dominates upper lower = true ↔
    lower ∈ flow.nodes ∧ ∀ nodes, Path flow.graph.Edge head nodes lower → upper ∈ nodes
  backwards : Digraph.exitNode ∉ flow.nodes → ∀ upper ∈ flow.nodes, ∀ lower,
    (postDominance.dominates upper lower = true ↔ flow.PostDominates upper lower)
  withoutExit : ∀ node, Digraph.exitNode ∉ dominance.properChain node ∧
    Digraph.exitNode ∉ postDominance.properChain node
  climbed : Climbed flow.graph.Edge head dominance.chain
  climbedBack : Digraph.exitNode ∉ flow.nodes →
    Climbed flow.graph.EdgeBack Digraph.exitNode postDominance.chain

variable {flow : FlowGraph} {root : PointId} {dominance : Dominance}

theorem Analysed.mem_nodes_iff (analysed : flow.Analysed root dominance) {node : PointId} :
    node ∈ flow.nodes ↔ Reached flow.graph.Edge root node :=
  ⟨analysed.reached node, fun reached =>
    ((Digraph.reach_iff_reached analysed.rooted).mpr reached).mem_domain⟩

theorem Analysed.bounded (analysed : flow.Analysed root dominance)
    (free : Digraph.exitNode ∉ flow.nodes) : flow.graph.Bounded :=
  ⟨analysed.unique, analysed.source, analysed.rooted.target, free⟩

theorem Analysed.mem_of_path (analysed : flow.Analysed root dominance) {first last : PointId}
    {nodes : List PointId} (inside : first ∈ flow.nodes)
    (path : Path flow.graph.Edge first nodes last) : last ∈ flow.nodes :=
  analysed.mem_nodes_iff.mpr ((analysed.reached first inside).trans path.reached)

theorem Analysed.mem_tails_iff (analysed : flow.Analysed root dominance) {first last : PointId}
    {nodes : List PointId} (inside : first ∈ flow.nodes)
    (path : Path flow.graph.Edge first nodes last) :
    last ∈ flow.graph.tails ↔ flow.IsTail last := by
  rw [Digraph.mem_tails]
  exact and_iff_right (analysed.mem_of_path inside path)

theorem exitNode_notMem_properChain (table : Dominance) (node : PointId) :
    Digraph.exitNode ∉ table.properChain node := by
  simp [Dominance.properChain]

theorem Analysed.postDominates_iff (analysed : flow.Analysed root dominance)
    (free : Digraph.exitNode ∉ flow.nodes) {upper lower : PointId} (inside : upper ∈ flow.nodes) :
    flow.graph.postDominance.dominates upper lower = true ↔ flow.PostDominates upper lower := by
  rw [(analysed.bounded free).postDominates_iff inside]
  constructor
  · rintro ⟨known, ⟨last, stops, reached⟩, all⟩
    obtain ⟨nodes, path⟩ := Path.exists_of_reached reached
    exact ⟨known, ⟨last, nodes, path, (analysed.mem_tails_iff known path).mp stops⟩,
      fun last nodes path stops => all last ((analysed.mem_tails_iff known path).mpr stops) nodes path⟩
  · rintro ⟨known, ⟨last, nodes, path, stops⟩, all⟩
    exact ⟨known, ⟨last, (analysed.mem_tails_iff known path).mpr stops, path.reached⟩,
      fun last stops nodes path => all last nodes path ((analysed.mem_tails_iff known path).mp stops)⟩

end FlowGraph

theorem Program.dominance_exact (program : Program) (method : MethodId) {head : PointId}
    (found : (program.flowGraph method).head = some head) :
    ∃ dominance postDominance, (program.flowGraph method).dominance? = some dominance ∧
      (program.flowGraph method).postDominance? = some postDominance ∧
      (program.flowGraph method).DominatesByPaths head dominance postDominance := by
  have analysed := flowGraph_analysed found
  generalize program.flowGraph method = flow at found analysed
  refine ⟨flow.graph.dominance head, flow.graph.postDominance, by simp [FlowGraph.dominance?, found],
    by simp [FlowGraph.postDominance?, found], ?forwards, ?backwards, ?withoutExit, ?climbed, ?climbedBack⟩
  case forwards =>
    intro upper lower
    rw [analysed.dominates_iff, dominates_iff_paths, analysed.mem_nodes_iff]
  case backwards => exact fun free upper inside lower => analysed.postDominates_iff free inside
  case withoutExit =>
    exact fun node => ⟨FlowGraph.exitNode_notMem_properChain _ node,
      FlowGraph.exitNode_notMem_properChain _ node⟩
  case climbed =>
    rw [← Digraph.mem_succs_eq_edge]
    exact analysed.rooted.spans.climbed analysed.unique
  case climbedBack =>
    exact fun free => (Digraph.spans_stepsBack analysed.source).climbed
      (List.nodup_cons.mpr ⟨free, analysed.unique⟩)

/-- A fork that joins again before the end, and beside it a loop that does not end. -/
def forkedListing : Listing where
  entry := some 0
  classes := [⟨0, "Main", none, [], false, false⟩]
  methods := [⟨0, 0, "main", "", true, false, [0, 1, 2, 3, 4, 5, 6]⟩]
  points := (List.range 7).map fun point => ⟨point, 0, 1, .plain, ""⟩
  edges := [⟨0, 1, false⟩, ⟨1, 2, false⟩, ⟨1, 3, false⟩, ⟨2, 4, false⟩, ⟨3, 4, false⟩,
    ⟨1, 5, false⟩, ⟨5, 6, false⟩, ⟨6, 5, false⟩]
  calls := []
  allocSites := []
  pointsTo := []

def forkedProgram : Program := ⟨forkedListing, 0, rfl, by decide⟩

/-- All paths to the join pass the fork, but not one of its branches, and all paths from the
fork that end pass the join. No path from the loop ends. -/
theorem forkedProgram_dominance :
    (forkedProgram.flowGraph 0).head = some 0 ∧
      Digraph.exitNode ∉ (forkedProgram.flowGraph 0).nodes ∧
      (∀ nodes, Path (forkedProgram.flowGraph 0).graph.Edge 0 nodes 4 → 1 ∈ nodes) ∧
      (¬ ∀ nodes, Path (forkedProgram.flowGraph 0).graph.Edge 0 nodes 4 → 2 ∈ nodes) ∧
      (forkedProgram.flowGraph 0).PostDominates 4 1 ∧
      ¬ ∃ last nodes, Path (forkedProgram.flowGraph 0).graph.Edge 5 nodes last ∧
        (forkedProgram.flowGraph 0).IsTail last := by
  have found : (forkedProgram.flowGraph 0).head = some 0 := by cbv
  have nodes : (forkedProgram.flowGraph 0).nodes = [0, 1, 2, 3, 5, 4, 6] := by cbv
  have inside (node : PointId) (listed : node ∈ [0, 1, 2, 3, 5, 4, 6]) :
      node ∈ (forkedProgram.flowGraph 0).nodes := nodes ▸ listed
  have free : Digraph.exitNode ∉ (forkedProgram.flowGraph 0).nodes := by
    rw [nodes]
    decide
  have tables : ((forkedProgram.flowGraph 0).dominance?.map fun table =>
        (table.dominates 1 4, table.dominates 2 4)) = some (true, false) ∧
      ((forkedProgram.flowGraph 0).postDominance?.map fun table =>
        (table.dominates 4 1, table.dominates 5 5)) = some (true, false) := by
    constructor <;> cbv
  obtain ⟨dominance, postDominance, forth, back, exact⟩ := forkedProgram.dominance_exact 0 found
  rw [forth, back] at tables
  simp only [Option.map_some, Option.some.injEq, Prod.mk.injEq] at tables
  obtain ⟨⟨fork, branch⟩, join, loop⟩ := tables
  refine ⟨found, free, ((exact.forwards 1 4).mp fork).2, fun all => ?_,
    (exact.backwards free 4 (inside 4 (by decide)) 1).mp join, fun ends => ?_⟩
  · have passed := (exact.forwards 2 4).mpr ⟨inside 4 (by decide), all⟩
    rw [branch] at passed
    cases passed
  · -- All paths from the loop pass its start, so with one that ends this would post-dominate itself.
    have passed := (exact.backwards free 5 (inside 5 (by decide)) 5).mpr
      ⟨inside 5 (by decide), ends, fun _ _ path _ => path.source_mem⟩
    rw [loop] at passed
    cases passed

end SeqSlice
