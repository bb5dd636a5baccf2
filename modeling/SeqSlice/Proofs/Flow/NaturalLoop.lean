import Mathlib
import SeqSlice.Flow.Loop
import SeqSlice.Proofs.Graph.Path
import SeqSlice.Proofs.Program.Accepted

/-! Loops of a flow graph: a header that dominates the loop, entered at the header
only, with a way back to it from every node. Two such loops that share a node are
nested, and a loop is left by forward edges, except to a node that dominates its
header. The natural loop of a back edge is what comes to its source without the header,
and the natural loops of a header together are a loop in this sense. -/

set_option autoImplicit false
namespace SeqSlice

section
variable (edge : Nat → Nat → Prop) (root : Nat)

structure IsLoop (header : Nat) (nodes : List Nat) : Prop where
  header_mem : header ∈ nodes
  dominated : ∀ node ∈ nodes, Dominates edge root header node
  closed : ∀ node ∈ nodes, node ≠ header → ∀ source, edge source node → source ∈ nodes
  returns : ∀ node ∈ nodes,
    Relation.ReflTransGen (fun source target => edge source target ∧ target ∈ nodes) node header

variable {edge root}

namespace IsLoop

theorem mem_of_dominates {header middle node : Nat} {nodes : List Nat}
    (isLoop : IsLoop edge root header nodes) (above : Dominates edge root header middle)
    (below : Dominates edge root middle node) (inside : node ∈ nodes) : middle ∈ nodes := by
  by_contra outside
  have different : middle ≠ header := fun same => outside (same ▸ isLoop.header_mem)
  have toHeader : Avoids edge root middle header := by
    by_contra never
    exact different (Dominates.antisymm ⟨above.reached_upper, never⟩ above)
  -- A path to a loop node can be cut short at the header and then stays inside.
  have avoids {inner : Nat} (reached : Reached edge root inner) (member : inner ∈ nodes) :
      Avoids edge root middle inner := by
    induction reached with
    | refl => exact .root fun same => outside (same ▸ member)
    | @tail source target _ along ih =>
        by_cases atHeader : target = header
        · exact atHeader ▸ toHeader
        · have before := ih (isLoop.closed target member atHeader source along)
          exact .step before along fun same => outside (same ▸ member)
  exact below.2 (avoids below.1 inside)

theorem nested {outer inner shared : Nat} {outerNodes innerNodes : List Nat}
    (first : IsLoop edge root outer outerNodes) (second : IsLoop edge root inner innerNodes)
    (above : Dominates edge root outer inner) (different : outer ≠ inner)
    (inOuter : shared ∈ outerNodes) (inInner : shared ∈ innerNodes) :
    ∀ node ∈ innerNodes, node ∈ outerNodes := by
  intro node member
  have start : inner ∈ outerNodes :=
    first.mem_of_dominates above (second.dominated shared inInner) inOuter
  induction second.returns node member using Relation.ReflTransGen.head_induction_on with
  | refl => exact start
  | @head source target along rest ih =>
      refine first.closed target (ih along.2) ?_ source along.1
      rintro rfl
      exact different (above.antisymm (second.dominated target along.2))

theorem enters_at_header {header source target : Nat} {nodes : List Nat}
    (isLoop : IsLoop edge root header nodes) (along : edge source target)
    (outside : source ∉ nodes) (inside : target ∈ nodes) : target = header := by
  by_contra different
  exact outside (isLoop.closed target inside different source along)

theorem leaves_forward {header source target : Nat} {nodes : List Nat}
    (isLoop : IsLoop edge root header nodes) (along : edge source target)
    (inside : source ∈ nodes) (outside : target ∉ nodes)
    (notAbove : ¬ Dominates edge root target header) : Forward edge root source target := by
  refine ⟨along, fun back => ?_⟩
  rcases (isLoop.dominated source inside).total back with above | below
  · exact outside (isLoop.mem_of_dominates above back inside)
  · exact notAbove below

end IsLoop
end

namespace Program

variable {program : Program} {method : MethodId} {head : PointId}

theorem flowHead_mem_body (found : program.flowHead? method = some head) :
    head ∈ program.body method :=
  mem_body_of_mem_starts (List.mem_of_find?_eq_some found)

theorem mem_flowEdges {source target : PointId} :
    (source, target) ∈ (program.flowGraph method).graph.edges ↔
      source ∈ (program.flowGraph method).nodes ∧ target ∈ program.normalSuccs source :=
  Digraph.mem_edges_explore

theorem mem_flowNodes {node : PointId} :
    node ∈ (program.flowGraph method).nodes ↔
      Graph.Reach program.normalSuccs program.pointIds (program.flowHead? method).toList node :=
  Graph.mem_visit

theorem flowNodes_of_no_head {method : MethodId} (found : program.flowHead? method = none)
    (node : PointId) : node ∉ (program.flowGraph method).nodes := by
  intro member
  have reach := mem_flowNodes.mp member
  rw [found] at reach
  induction reach with
  | source _ start => simp at start
  | step before _ _ ih => exact ih (mem_flowNodes.mpr (found ▸ before))

theorem methodOf?_of_mem_flowNodes {node : PointId}
    (member : node ∈ (program.flowGraph method).nodes) :
    program.methodOf? node = some method := by
  have reach := mem_flowNodes.mp member
  induction reach with
  | source _ start =>
      exact methodOf?_of_mem_body (flowHead_mem_body (Option.mem_toList.mp start))
  | step before _ follows ih =>
      rw [(succs_listed (normalSuccs_subset follows)).2.2]
      exact ih (mem_flowNodes.mpr before)

end Program

/-- A flow graph in which everything is reached from the root, with its dominance. -/
structure FlowGraph.Analysed (flow : FlowGraph) (root : PointId) (dominance : Dominance) : Prop where
  rooted : flow.graph.Rooted root
  unique : flow.nodes.Nodup
  source : ∀ source target, flow.graph.Edge source target → source ∈ flow.nodes
  reached : ∀ node ∈ flow.nodes, Reached flow.graph.Edge root node
  dominates_iff : ∀ upper lower, dominance.dominates upper lower = true ↔
    Dominates flow.graph.Edge root upper lower

theorem Program.flowGraph_analysed {program : Program} {method : MethodId} {head : PointId}
    (found : program.flowHead? method = some head) :
    (program.flowGraph method).Analysed head ((program.flowGraph method).graph.dominance head) := by
  have unique : (program.flowGraph method).nodes.Nodup := Graph.nodup_visit List.nodup_range
  have rooted : (program.flowGraph method).graph.Rooted head := by
    constructor
    · have inBody := methodOf?_of_mem_body (flowHead_mem_body found)
      exact mem_flowNodes.mpr (.source (mem_pointIds_of_methodOf? inBody) (by simp [found]))
    · intro source target listed
      obtain ⟨visited, follows⟩ := mem_flowEdges.mp listed
      have inRange := (succs_listed (normalSuccs_subset follows)).2.1
      exact mem_flowNodes.mpr (.step (mem_flowNodes.mp visited) inRange follows)
  refine ⟨rooted, unique, fun source target along => (mem_flowEdges.mp along).1, ?_,
    fun _ _ => Digraph.dominates_iff rooted unique⟩
  intro node member
  have reach := mem_flowNodes.mp member
  induction reach with
  | source _ start =>
      rw [found, Option.mem_toList] at start
      cases start
      exact .refl
  | step before _ follows ih =>
      have visited := mem_flowNodes.mpr before
      exact (ih visited).tail (mem_flowEdges.mpr ⟨visited, follows⟩)

namespace FlowGraph

variable {flow : FlowGraph} {root : PointId} {dominance : Dominance}

theorem mem_backEdges (analysed : flow.Analysed root dominance) {edge : BackEdge} :
    edge ∈ flow.backEdges dominance ↔
      flow.graph.Edge edge.source edge.header ∧
        Dominates flow.graph.Edge root edge.header edge.source := by
  simp only [backEdges, List.mem_flatMap, List.mem_map, List.mem_filter, analysed.dominates_iff]
  constructor
  · rintro ⟨source, _, header, ⟨follows, above⟩, rfl⟩
    exact ⟨flow.graph.mem_succs.mp follows, above⟩
  · rintro ⟨along, above⟩
    exact ⟨edge.source, analysed.source _ _ along, edge.header,
      ⟨flow.graph.mem_succs.mpr along, above⟩, rfl⟩

theorem mem_naturalLoop {edge : BackEdge} {node : PointId} :
    node ∈ flow.naturalLoop edge ↔
      node = edge.header ∨
        Graph.Reach flow.preds (flow.nodes.erase edge.header) [edge.source] node := by
  rw [naturalLoop, List.mem_cons, Graph.mem_visit]

theorem mem_nodes_of_mem_naturalLoop (analysed : flow.Analysed root dominance) {edge : BackEdge}
    (back : edge ∈ flow.backEdges dominance) {node : PointId}
    (member : node ∈ flow.naturalLoop edge) : node ∈ flow.nodes := by
  rcases mem_naturalLoop.mp member with rfl | reach
  · exact analysed.rooted.target _ _ ((mem_backEdges analysed).mp back).1
  · exact List.mem_of_mem_erase reach.mem_domain

theorem mem_naturalLoop_iff_path (analysed : flow.Analysed root dominance) {edge : BackEdge}
    (back : edge ∈ flow.backEdges dominance) {node : PointId} :
    node ∈ flow.naturalLoop edge ↔
      node = edge.header ∨
        ∃ nodes, Path flow.graph.Edge node nodes edge.source ∧ edge.header ∉ nodes := by
  have along := ((mem_backEdges analysed).mp back).1
  have backwards : (fun source target => target ∈ flow.preds source) =
      Function.swap flow.graph.Edge := by
    funext source target
    exact propext flow.graph.mem_preds
  -- The search follows edges backwards, and every node that it can come to is known.
  have known (node : PointId)
      (reached : Reached (fun source target => target ∈ flow.preds source) edge.source node) :
      node ∈ flow.nodes := by
    induction reached with
    | refl => exact analysed.source _ _ along
    | tail _ follows _ => exact analysed.source _ _ (flow.graph.mem_preds.mp follows)
  have searched : Graph.Reach flow.preds (flow.nodes.erase edge.header) [edge.source] node ↔
      Avoids (Function.swap flow.graph.Edge) edge.source edge.header node := by
    rw [← backwards]
    exact ⟨Dominance.avoids_of_reach analysed.unique.not_mem_erase,
      Dominance.reach_erase_of_avoids known⟩
  rw [mem_naturalLoop, searched, avoids_iff_path]
  refine or_congr_right ⟨?_, ?_⟩
  · rintro ⟨nodes, path, absent⟩
    exact ⟨nodes.reverse, path.reverse, by simpa using absent⟩
  · rintro ⟨nodes, path, absent⟩
    exact ⟨nodes.reverse, path.reverse, by simpa using absent⟩

theorem naturalLoop_isLoop (analysed : flow.Analysed root dominance) {edge : BackEdge}
    (back : edge ∈ flow.backEdges dominance) :
    IsLoop flow.graph.Edge root edge.header (flow.naturalLoop edge) := by
  obtain ⟨along, above⟩ := (mem_backEdges analysed).mp back
  have headerMem : edge.header ∈ flow.naturalLoop edge := mem_naturalLoop.mpr (.inl rfl)
  constructor
  · exact headerMem
  · intro node member
    rcases mem_naturalLoop.mp member with rfl | reach
    · exact .refl above.reached_upper
    · -- A path to the node without the header would go on to the source.
      refine ⟨analysed.reached node (List.mem_of_mem_erase reach.mem_domain), fun path => ?_⟩
      have toSource : Avoids flow.graph.Edge root edge.header edge.source := by
        induction reach with
        | source _ start => exact List.mem_singleton.mp start ▸ path
        | @step node parent before _ follows ih =>
            have inside := analysed.unique.mem_erase_iff.mp before.mem_domain
            exact ih (mem_naturalLoop.mpr (.inr before))
              (.step path (flow.graph.mem_preds.mp follows) inside.1)
      exact above.2 toSource
  · -- The search goes back over every edge, but not beyond the header.
    intro node member different source follows
    have reach := (mem_naturalLoop.mp member).resolve_left different
    by_cases atHeader : source = edge.header
    · exact atHeader ▸ headerMem
    · refine mem_naturalLoop.mpr (.inr (.step reach ?_ (flow.graph.mem_preds.mpr follows)))
      exact analysed.unique.mem_erase_iff.mpr ⟨atHeader, analysed.source _ _ follows⟩
  · intro node member
    rcases mem_naturalLoop.mp member with rfl | reach
    · exact .refl
    · induction reach with
      | source _ start => exact .single (List.mem_singleton.mp start ▸ ⟨along, headerMem⟩)
      | step before _ follows ih =>
          have inside := mem_naturalLoop.mpr (.inr before)
          exact .head ⟨flow.graph.mem_preds.mp follows, inside⟩ (ih inside)

theorem source_mem_naturalLoop (analysed : flow.Analysed root dominance) {edge : BackEdge}
    (back : edge ∈ flow.backEdges dominance) : edge.source ∈ flow.naturalLoop edge := by
  obtain ⟨along, _⟩ := (mem_backEdges analysed).mp back
  by_cases self : edge.source = edge.header
  · exact mem_naturalLoop.mpr (.inl self)
  · refine mem_naturalLoop.mpr (.inr (.source ?_ List.mem_cons_self))
    exact analysed.unique.mem_erase_iff.mpr ⟨self, analysed.source _ _ along⟩

theorem mem_loopOf {edges : List BackEdge} {header node : PointId} :
    node ∈ flow.loopOf edges header ↔
      ∃ edge ∈ edges, edge.header = header ∧ node ∈ flow.naturalLoop edge := by
  simp only [loopOf, mem_ascending, List.mem_flatMap, List.mem_filter, beq_iff_eq, and_assoc]

theorem loopOf_isLoop (analysed : flow.Analysed root dominance) {edges : List BackEdge}
    (back : ∀ edge ∈ edges, edge ∈ flow.backEdges dominance) {header : PointId}
    (isHeader : header ∈ edges.map (·.header)) :
    IsLoop flow.graph.Edge root header (flow.loopOf edges header) := by
  have single {edge : BackEdge} (member : edge ∈ edges) := naturalLoop_isLoop analysed (back edge member)
  constructor
  · obtain ⟨edge, member, rfl⟩ := List.mem_map.mp isHeader
    exact mem_loopOf.mpr ⟨edge, member, rfl, (single member).header_mem⟩
  · intro node inside
    obtain ⟨edge, member, rfl, ofEdge⟩ := mem_loopOf.mp inside
    exact (single member).dominated node ofEdge
  · intro node inside different source follows
    obtain ⟨edge, member, rfl, ofEdge⟩ := mem_loopOf.mp inside
    exact mem_loopOf.mpr ⟨edge, member, rfl, (single member).closed node ofEdge different source follows⟩
  · intro node inside
    obtain ⟨edge, member, rfl, ofEdge⟩ := mem_loopOf.mp inside
    refine Relation.ReflTransGen.mono (fun source target along => ?_) _ _
      ((single member).returns node ofEdge)
    exact ⟨along.1, mem_loopOf.mpr ⟨edge, member, rfl, along.2⟩⟩

theorem nodup_naturalLoop (unique : flow.nodes.Nodup) (edge : BackEdge) :
    (flow.naturalLoop edge).Nodup := by
  refine List.nodup_cons.mpr ⟨fun member => ?_, Graph.nodup_visit (unique.erase _)⟩
  exact unique.not_mem_erase (Graph.mem_visit.mp member).mem_domain

/-- The header of a back edge and all nodes with a way to its source that avoids the header.
The header dominates them, and edges lead in only there. -/
structure BackwardBounded (flow : FlowGraph) (head : PointId) (edge : BackEdge)
    (nodes : List PointId) : Prop where
  unique : nodes.Nodup
  mem_iff : ∀ node, node ∈ nodes ↔ node = edge.header ∨
    ∃ way, Path flow.graph.Edge node way edge.source ∧ edge.header ∉ way
  dominated : ∀ node ∈ nodes, (flow.graph.dominance head).dominates edge.header node = true
  passed : ∀ node ∈ nodes, ∀ way, Path flow.graph.Edge head way node → edge.header ∈ way
  entered : ∀ node ∈ nodes, node ≠ edge.header → ∀ pred ∈ flow.preds node, pred ∈ nodes

end FlowGraph

theorem Program.naturalLoop_exact (program : Program) {method : MethodId} {head : PointId}
    (found : (program.flowGraph method).head = some head) {edge : BackEdge}
    (back : edge ∈ (program.flowGraph method).backEdges
      ((program.flowGraph method).graph.dominance head)) :
    (program.flowGraph method).BackwardBounded head edge
      ((program.flowGraph method).naturalLoop edge) := by
  have analysed := flowGraph_analysed found
  have isLoop := FlowGraph.naturalLoop_isLoop analysed back
  constructor
  · exact FlowGraph.nodup_naturalLoop analysed.unique edge
  · exact fun node => FlowGraph.mem_naturalLoop_iff_path analysed back
  · exact fun node inside => (analysed.dominates_iff _ _).mpr (isLoop.dominated node inside)
  · exact fun node inside => (dominates_iff_paths.mp (isLoop.dominated node inside)).2
  · intro node inside different pred follows
    exact isLoop.closed node inside different pred
      ((program.flowGraph method).graph.mem_preds.mp follows)

/-- A header with a loop of its own and, by way of 2, a longer one. -/
def spinningListing : Listing where
  entry := some 0
  classes := [⟨0, "Main", none, [], false, false⟩]
  methods := [⟨0, 0, "main", "", true, false, [0, 1, 2, 3]⟩]
  points := (List.range 4).map fun point => ⟨point, 0, 1, .plain, ""⟩
  edges := [⟨0, 1, false⟩, ⟨1, 1, false⟩, ⟨1, 2, false⟩, ⟨2, 1, false⟩, ⟨2, 3, false⟩]
  calls := []
  allocSites := []
  pointsTo := []

def spinningProgram : Program := ⟨spinningListing, 0, rfl, by decide⟩

/-- The short loop is the header alone: no path from another node to the header avoids it. -/
example : (spinningProgram.flowGraph 0).naturalLoop ⟨1, 1⟩ = [1] := by cbv

theorem spinningProgram_loop :
    (⟨2, 1⟩ : BackEdge) ∈ (spinningProgram.flowGraph 0).backEdges
      ((spinningProgram.flowGraph 0).graph.dominance 0) ∧
    (spinningProgram.flowGraph 0).naturalLoop ⟨2, 1⟩ = [1, 2] ∧
    (spinningProgram.flowGraph 0).BackwardBounded 0 ⟨2, 1⟩
      ((spinningProgram.flowGraph 0).naturalLoop ⟨2, 1⟩) := by
  have found : (spinningProgram.flowGraph 0).head = some 0 := by cbv
  have all : (spinningProgram.flowGraph 0).backEdges
      ((spinningProgram.flowGraph 0).graph.dominance 0) = [⟨1, 1⟩, ⟨2, 1⟩] := by cbv
  have back : (⟨2, 1⟩ : BackEdge) ∈ (spinningProgram.flowGraph 0).backEdges
      ((spinningProgram.flowGraph 0).graph.dominance 0) := by simp [all]
  exact ⟨back, by cbv, spinningProgram.naturalLoop_exact found back⟩

end SeqSlice
