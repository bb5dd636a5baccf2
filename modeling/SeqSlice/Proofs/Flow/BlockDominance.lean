import SeqSlice.Proofs.Flow.Branch
import SeqSlice.Proofs.Flow.Dominance
import SeqSlice.Proofs.Flow.Partition

/-! Dominance between blocks. A path between blocks is written out as a path of statements,
and a path of statements shortened to one between blocks, so the relations that are lifted
from the statements are dominance in the graph of the blocks. The way up through the
decisions above a block climbs in this order and comes to an end. -/

set_option autoImplicit false
namespace SeqSlice

namespace FlowGraph

def blockFlow (flow : FlowGraph) : FlowGraph where
  method := flow.method
  head := flow.head.bind flow.blocks.leaderOf?
  graph := flow.blocks.graph

structure HeadDominates (flow : FlowGraph) (upper lower : PointId) : Prop where
  mem : lower ∈ flow.nodes
  passed : ∃ head, flow.head = some head ∧
    ∀ nodes, Path flow.graph.Edge head nodes lower → upper ∈ nodes

/-- Both relations between blocks are strict dominance in the graph of the blocks. The next
decision above a block dominates it, and so going up ends after the decisions that are
listed, whether paths from the block end or not.

The exit must not be a statement, as for dominance between statements: no chain lists it.
Its id is the last of a word, so that takes as many statements as a word has values. -/
structure BlockDominance (flow : FlowGraph) : Prop where
  above_iff : Digraph.exitNode ∉ flow.nodes → ∀ upper lower,
    (flow.view.dominates upper lower = true ↔
      upper ≠ lower ∧ flow.blockFlow.HeadDominates upper lower)
  behind_iff : Digraph.exitNode ∉ flow.nodes → ∀ upper lower,
    (flow.view.postDominates upper lower = true ↔
      upper ≠ lower ∧ flow.blockFlow.PostDominates upper lower)
  lowest : ∀ block upper, flow.view.lowestBranch? block = some upper →
    upper ≠ block ∧ flow.blockFlow.HeadDominates upper block
  ascent_iff : ∀ block passed, Climbs flow.view.lowestBranch? block passed ↔
    passed = block :: flow.view.decisionsAbove block

variable {flow : FlowGraph} {root first last point leader other upper lower : PointId}
  {nodes blocks : List PointId} {dominance : Dominance}

/-! ## Paths between blocks -/

theorem Continues.path (run : flow.Continues point nodes) (ends : nodes.getLast? = some last) :
    Path flow.graph.Edge point nodes last := by
  induction run with
  | last _ =>
      obtain rfl := Option.some.inj ends
      exact .single _
  | next goesOn rest ih =>
      obtain ⟨others, rfl⟩ := rest.eq_cons
      rw [List.getLast?_cons_cons] at ends
      exact .cons (edge_of_continuation goesOn) (ih ends)

section
variable (analysed : flow.Analysed root dominance)
include analysed

theorem path_leaders (member : first ∈ flow.blocks.leaders)
    (path : Path flow.blocks.graph.Edge first blocks last) :
    ∀ block ∈ blocks, block ∈ flow.blocks.leaders := by
  induction path with
  | single => exact fun block same => List.mem_singleton.mp same ▸ member
  | cons along _ ih =>
      exact List.forall_mem_cons.mpr ⟨member, ih ((blockEdge_iff analysed).mp along).2.1⟩

/-- The blocks on a path are written out one after the other, the last as far as it is
asked for. -/
theorem exists_path_of_blocks {within : List PointId} (member : first ∈ flow.blocks.leaders)
    (path : Path flow.blocks.graph.Edge first blocks leader)
    (inner : Path flow.graph.Edge leader within last)
    (stays : ∀ node ∈ within, node ∈ flow.blockOf leader) :
    ∃ nodes, Path flow.graph.Edge first nodes last ∧ ∀ node ∈ nodes,
      ∀ block ∈ flow.blocks.leaders, node ∈ flow.blockOf block → block ∈ blocks := by
  induction path with
  | single own =>
      refine ⟨within, inner, fun node here block listed inside => ?_⟩
      rw [leader_unique listed member inside (stays node here)]
      exact List.mem_cons_self
  | @cons own _ _ _ along _ ih =>
      obtain ⟨_, nextMember, final, ends, leaves⟩ := (blockEdge_iff analysed).mp along
      obtain ⟨nodes, rest, covered⟩ := ih nextMember inner stays
      have whole := (continues_blockOf analysed member).path ends
      refine ⟨flow.blockOf own ++ nodes, whole.append leaves rest,
        fun node passed block listed inside => ?_⟩
      rcases List.mem_append.mp passed with here | later
      · rw [leader_unique listed member inside here]
        exact List.mem_cons_self
      · exact List.mem_cons_of_mem _ (covered node later block listed inside)

theorem exists_path_of_nodes (head : flow.head = some root)
    (path : Path flow.graph.Edge first nodes last)
    (member : leader ∈ flow.blocks.leaders) (inside : first ∈ flow.blockOf leader)
    (otherMember : other ∈ flow.blocks.leaders) (insideToo : last ∈ flow.blockOf other) :
    ∃ blocks, Path flow.blocks.graph.Edge leader blocks other ∧
      ∀ block ∈ blocks, block = leader ∨ block ∈ nodes := by
  induction path generalizing leader with
  | single =>
      obtain rfl := leader_unique member otherMember inside insideToo
      exact ⟨[leader], .single leader, fun block same => .inl (List.mem_singleton.mp same)⟩
  | @cons source next _ rest along path ih =>
      rcases entered_or_adjacent analysed head along with
        ⟨enters, before, beforeMember, ends⟩ | ⟨around, aroundMember, adjacent⟩
      · -- The block is left at its end, and the next one entered at its leader.
        obtain rfl := leader_unique beforeMember member (List.mem_of_getLast? ends) inside
        obtain ⟨blocks, further, passed⟩ := ih enters (leader_mem_blockOf enters) insideToo
        refine ⟨before :: blocks,
          .cons ((blockEdge_iff analysed).mpr ⟨member, enters, source, ends, along⟩) further, ?_⟩
        refine List.forall_mem_cons.mpr ⟨.inl rfl, fun block listed => .inr ?_⟩
        rcases passed block listed with rfl | later
        · exact List.mem_cons_of_mem _ path.source_mem
        · exact List.mem_cons_of_mem _ later
      · have stays (node : PointId) (here : node ∈ [source, next]) : node ∈ flow.blockOf around :=
          adjacent.subset here
        -- A step inside the block passes no other one.
        obtain rfl := leader_unique aroundMember member (stays source (by simp)) inside
        obtain ⟨blocks, further, passed⟩ := ih member (stays next (by simp)) insideToo
        exact ⟨blocks, further, fun block listed =>
          (passed block listed).imp_right (List.mem_cons_of_mem _)⟩

theorem exists_path_of_leader (head : flow.head = some root)
    (path : Path flow.graph.Edge first nodes last) (member : first ∈ flow.blocks.leaders)
    (lastMember : leader ∈ flow.blocks.leaders) (inside : last ∈ flow.blockOf leader) :
    ∃ blocks, Path flow.blocks.graph.Edge first blocks leader ∧
      ∀ block ∈ blocks, block ∈ nodes := by
  obtain ⟨blocks, short, along⟩ := exists_path_of_nodes analysed head path member
    (leader_mem_blockOf member) lastMember inside
  refine ⟨blocks, short, fun block listed => ?_⟩
  rcases along block listed with rfl | here
  · exact path.source_mem
  · exact here

/-! ## Dominance -/

theorem root_mem_leaders (head : flow.head = some root) : root ∈ flow.blocks.leaders :=
  mem_leaders.mpr ⟨analysed.rooted.root, by simp [isLeader, head]⟩

theorem blockFlow_head (head : flow.head = some root) : flow.blockFlow.head = some root := by
  rw [blockFlow, head, Option.bind_some, leaderOf?_leader (root_mem_leaders analysed head)]

theorem HeadDominates.upper_mem (head : flow.head = some root)
    (dominates : flow.blockFlow.HeadDominates upper lower) : upper ∈ flow.blocks.leaders := by
  obtain ⟨member, start, begins, passed⟩ := dominates
  obtain rfl := Option.some.inj ((blockFlow_head analysed head).symm.trans begins)
  have rootMember := root_mem_leaders analysed head
  obtain ⟨nodes, path⟩ := Path.exists_of_reached (analysed.reached lower (mem_leaders.mp member).1)
  obtain ⟨blocks, short, -⟩ :=
    exists_path_of_leader analysed head path rootMember member (leader_mem_blockOf member)
  exact path_leaders analysed rootMember short upper (passed blocks short)

theorem headDominates_iff (head : flow.head = some root) (upperMember : upper ∈ flow.blocks.leaders)
    (lowerMember : lower ∈ flow.blocks.leaders) :
    flow.blockFlow.HeadDominates upper lower ↔ Dominates flow.graph.Edge root upper lower := by
  have rootMember := root_mem_leaders analysed head
  rw [dominates_iff_paths]
  constructor
  · rintro ⟨-, start, begins, passed⟩
    obtain rfl := Option.some.inj ((blockFlow_head analysed head).symm.trans begins)
    refine ⟨analysed.reached lower (mem_leaders.mp lowerMember).1, fun nodes path => ?_⟩
    obtain ⟨blocks, short, along⟩ := exists_path_of_leader analysed head path rootMember
      lowerMember (leader_mem_blockOf lowerMember)
    exact along upper (passed blocks short)
  · rintro ⟨-, all⟩
    refine ⟨lowerMember, root, blockFlow_head analysed head, fun blocks path => ?_⟩
    obtain ⟨nodes, long, covered⟩ :=
      exists_path_of_blocks analysed rootMember path (.single lower)
        (List.forall_mem_singleton.mpr (leader_mem_blockOf lowerMember))
    exact covered upper (all nodes long) upper upperMember (leader_mem_blockOf upperMember)

/-! ## Dominance from the end -/

theorem isTail_block (member : leader ∈ flow.blocks.leaders) (inside : point ∈ flow.blockOf leader)
    (stops : flow.IsTail point) : flow.blockFlow.IsTail leader := by
  intro next along
  obtain ⟨-, -, final, ends, leaves⟩ := (blockEdge_iff analysed).mp along
  rcases (continues_blockOf analysed member).mem_cases inside with
    ⟨-, atEnd⟩ | ⟨following, goesOn, -⟩
  · obtain rfl := Option.some.inj (atEnd.symm.trans ends)
    exact stops next leaves
  · exact stops following (edge_of_continuation goesOn)

theorem isTail_last (member : leader ∈ flow.blocks.leaders)
    (ends : (flow.blockOf leader).getLast? = some last) (stops : flow.blockFlow.IsTail leader) :
    flow.IsTail last := fun next leaves =>
  stops next ((blockEdge_iff analysed).mpr
    ⟨member, mem_leaders_of_last analysed member ends leaves, last, ends, leaves⟩)

theorem exists_ending_path (member : first ∈ flow.blocks.leaders)
    (path : Path flow.blocks.graph.Edge first blocks leader)
    (stops : flow.blockFlow.IsTail leader) :
    ∃ last nodes, Path flow.graph.Edge first nodes last ∧ flow.IsTail last ∧ ∀ node ∈ nodes,
      ∀ block ∈ flow.blocks.leaders, node ∈ flow.blockOf block → block ∈ blocks := by
  have leaderMember := path_leaders analysed member path leader path.target_mem
  have run := continues_blockOf analysed leaderMember
  obtain ⟨last, ends, -⟩ := run.exists_last
  obtain ⟨nodes, long, covered⟩ :=
    exists_path_of_blocks analysed member path (run.path ends) fun _ inside => inside
  exact ⟨last, nodes, long, isTail_last analysed leaderMember ends stops, covered⟩

theorem exists_ending_blocks (head : flow.head = some root) (member : first ∈ flow.blocks.leaders)
    (path : Path flow.graph.Edge first nodes last) (stops : flow.IsTail last) :
    ∃ leader blocks, Path flow.blocks.graph.Edge first blocks leader ∧
      flow.blockFlow.IsTail leader ∧ ∀ block ∈ blocks, block ∈ nodes := by
  have lastMember := analysed.mem_of_path (mem_leaders.mp member).1 path
  obtain ⟨leader, leaderMember, inside⟩ := exists_block analysed head lastMember
  obtain ⟨blocks, short, along⟩ :=
    exists_path_of_leader analysed head path member leaderMember inside
  exact ⟨leader, blocks, short, isTail_block analysed leaderMember inside stops, along⟩

theorem PostDominates.upper_mem (dominates : flow.blockFlow.PostDominates upper lower) :
    upper ∈ flow.blocks.leaders := by
  obtain ⟨member, ⟨leader, blocks, path, stops⟩, passed⟩ := dominates
  exact path_leaders analysed member path upper (passed leader blocks path stops)

/-- What a statement of the upper block does for statements, the block does for blocks. -/
theorem PostDominates.block (head : flow.head = some root)
    (upperMember : upper ∈ flow.blocks.leaders) (lowerMember : lower ∈ flow.blocks.leaders)
    (inside : point ∈ flow.blockOf upper) (dominates : flow.PostDominates point lower) :
    flow.blockFlow.PostDominates upper lower := by
  obtain ⟨-, ⟨last, nodes, path, stops⟩, passed⟩ := dominates
  refine ⟨lowerMember, ?_, fun leader blocks path stops => ?_⟩
  · obtain ⟨leader, blocks, short, ends, -⟩ :=
      exists_ending_blocks analysed head lowerMember path stops
    exact ⟨leader, blocks, short, ends⟩
  · obtain ⟨last, nodes, long, ends, covered⟩ := exists_ending_path analysed lowerMember path stops
    exact covered point (passed last nodes long ends) upper upperMember inside

theorem PostDominates.leaders (head : flow.head = some root)
    (dominates : flow.blockFlow.PostDominates upper lower) : flow.PostDominates upper lower := by
  obtain ⟨lowerMember, ⟨leader, blocks, path, stops⟩, passed⟩ := dominates
  refine ⟨(mem_leaders.mp lowerMember).1, ?_, fun last nodes path stops => ?_⟩
  · obtain ⟨last, nodes, long, ends, -⟩ := exists_ending_path analysed lowerMember path stops
    exact ⟨last, nodes, long, ends⟩
  · obtain ⟨leader, blocks, short, ends, along⟩ :=
      exists_ending_blocks analysed head lowerMember path stops
    exact along upper (passed leader blocks short ends)

end

/-! ## The lifted relations -/

section
variable (free : Digraph.exitNode ∉ flow.nodes)
include free

theorem mem_liftDominance_of_leaders {table : Dominance} (upperMember : upper ∈ flow.blocks.leaders)
    (lowerMember : lower ∈ flow.blocks.leaders) (different : upper ≠ lower)
    (listed : table.dominates upper lower = true) :
    (upper, lower) ∈ liftDominance flow.blocks table :=
  mem_liftDominance.mpr ⟨lowerMember, different, upper,
    ne_of_mem_of_not_mem (mem_leaders.mp upperMember).1 free, listed, leaderOf?_leader upperMember⟩

variable (analysed : flow.Analysed root (flow.graph.dominance root)) (head : flow.head = some root)
include analysed head

theorem view_dominates_iff : flow.view.dominates upper lower = true ↔
    upper ≠ lower ∧ flow.blockFlow.HeadDominates upper lower := by
  constructor
  · intro listed
    obtain ⟨upperMember, lowerMember, different, above⟩ := dominates_of_view analysed head listed
    exact ⟨different, (headDominates_iff analysed head upperMember lowerMember).mpr above⟩
  · rintro ⟨different, dominates⟩
    have upperMember := dominates.upper_mem analysed head
    have above := (headDominates_iff analysed head upperMember dominates.mem).mp dominates
    rw [view_of_head head, BranchView.dominates, List.contains_iff_mem]
    exact mem_liftDominance_of_leaders free upperMember dominates.mem different
      ((analysed.dominates_iff upper lower).mpr above)

theorem view_postDominates_iff : flow.view.postDominates upper lower = true ↔
    upper ≠ lower ∧ flow.blockFlow.PostDominates upper lower := by
  rw [view_of_head head, BranchView.postDominates, List.contains_iff_mem]
  constructor
  · intro listed
    obtain ⟨lowerMember, different, point, -, behind, led⟩ := mem_liftDominance.mp listed
    obtain ⟨upperMember, inside⟩ := leaderOf?_eq_some led
    refine ⟨different, .block analysed head upperMember lowerMember inside ?_⟩
    exact (analysed.postDominates_iff free (mem_blockOf.mp inside).mem_domain).mp behind
  · rintro ⟨different, dominates⟩
    have upperMember := dominates.upper_mem analysed
    refine mem_liftDominance_of_leaders free upperMember dominates.mem different ?_
    exact (analysed.postDominates_iff free (mem_leaders.mp upperMember).1).mpr
      (dominates.leaders analysed head)

end

theorem leader_of_lifted (listed : flow.view.dominates upper lower = true ∨
    flow.view.postDominates upper lower = true) : lower ∈ flow.blocks.leaders := by
  simp only [BranchView.dominates, BranchView.postDominates, List.contains_iff_mem] at listed
  exact listed.elim (fun above => (mem_liftDominance.mp above).1)
    fun behind => (mem_liftDominance.mp behind).1

theorem view_ranked_of_empty (empty : ∀ block, block ∉ flow.blocks.leaders) :
    flow.view.Ranked fun _ => 0 where
  leaders := List.eq_nil_iff_forall_not_mem.mpr empty ▸ List.nodup_nil
  above := nodup_liftDominance flow.blocks _
  behind := nodup_liftDominance flow.blocks _
  dominated _ lower listed := absurd (leader_of_lifted (.inl listed)) (empty lower)
  postDominated _ lower listed := absurd (leader_of_lifted (.inr listed)) (empty lower)
  bounded _ := Nat.zero_le _

end FlowGraph

/-! ## The way up -/

namespace BranchView

variable {view : BranchView} {depth : PointId → Nat}

theorem climbs_iff (ranked : view.Ranked depth) {block : PointId} {passed : List PointId} :
    Climbs view.lowestBranch? block passed ↔ passed = block :: view.decisionsAbove block := by
  have climbs := climbs_ascent ranked (ranked.bounded block)
  exact ⟨fun other => other.unique climbs, fun same => same ▸ climbs⟩

end BranchView

/-- Lifted dominance is dominance between blocks, and the way up through the decisions above
a block ends. -/
theorem Program.blockDominance_exact (program : Program) (method : MethodId) :
    (program.flowGraph method).BlockDominance := by
  cases found : program.flowHead? method with
  | some head =>
      have analysed := flowGraph_analysed found
      constructor
      · exact fun free upper lower => FlowGraph.view_dominates_iff free analysed found
      · exact fun free upper lower => FlowGraph.view_postDominates_iff free analysed found
      · intro block upper under
        obtain ⟨upperMember, member, different, above⟩ :=
          FlowGraph.dominates_of_view analysed found (BranchView.Under.between under).1
        exact ⟨different, (FlowGraph.headDominates_iff analysed found upperMember member).mpr above⟩
      · exact fun block passed => BranchView.climbs_iff (FlowGraph.view_ranked analysed found)
  | none =>
      -- Without a head there are no statements, and so no blocks.
      have noBlock (block : PointId) : block ∉ (program.flowGraph method).blocks.leaders :=
        fun member => flowNodes_of_no_head found block (FlowGraph.mem_leaders.mp member).1
      have noLift {upper lower : PointId}
          (lifted : (program.flowGraph method).view.dominates upper lower = true ∨
            (program.flowGraph method).view.postDominates upper lower = true) : False :=
        noBlock lower (FlowGraph.leader_of_lifted lifted)
      constructor
      · exact fun _ _ lower => iff_of_false (fun above => noLift (.inl above))
          fun dominates => noBlock lower dominates.2.mem
      · exact fun _ _ lower => iff_of_false (fun behind => noLift (.inr behind))
          fun dominates => noBlock lower dominates.2.mem
      · exact fun _ _ under => (noLift (.inl (BranchView.Under.between under).1)).elim
      · exact fun block passed => BranchView.climbs_iff (FlowGraph.view_ranked_of_empty noBlock)

/-- Two decisions, the inner one in a loop, with a way from the loop that does not end. -/
def spurListing : Listing where
  entry := some 0
  classes := [⟨0, "Main", none, [], false, false⟩]
  methods := [⟨0, 0, "main", "", true, false, [0, 1, 2, 3, 4, 5, 6, 7]⟩]
  points := (List.range 8).map fun point => ⟨point, 0, 1, .plain, ""⟩
  edges := [⟨0, 1, false⟩, ⟨0, 2, false⟩, ⟨1, 3, false⟩, ⟨3, 4, false⟩, ⟨3, 5, false⟩,
    ⟨4, 1, false⟩, ⟨4, 2, false⟩, ⟨5, 6, false⟩, ⟨6, 7, false⟩, ⟨7, 6, false⟩]
  calls := []
  allocSites := []
  pointsTo := []

def spurProgram : Program := ⟨spurListing, 0, rfl, by decide⟩

/-- The inner decision 3 is in the block of 1. All paths of blocks to the endless one pass
it, and those from it that end pass 4. From the endless block the way up passes both
decisions. -/
theorem spurProgram_climbed :
    Digraph.exitNode ∉ (spurProgram.flowGraph 0).nodes ∧
      (spurProgram.flowGraph 0).blockFlow.HeadDominates 1 6 ∧
      ¬ (spurProgram.flowGraph 0).blockFlow.HeadDominates 4 2 ∧
      (spurProgram.flowGraph 0).blockFlow.PostDominates 4 1 ∧
      (spurProgram.flowGraph 0).view.lowestBranch? 5 = some 1 ∧
      (spurProgram.flowGraph 0).blockFlow.HeadDominates 1 5 ∧
      Climbs (spurProgram.flowGraph 0).view.lowestBranch? 6 [6, 5, 1, 0] := by
  have exact := spurProgram.blockDominance_exact 0
  have nodes : (spurProgram.flowGraph 0).nodes = [0, 1, 2, 3, 4, 5, 6, 7] := by cbv
  have free : Digraph.exitNode ∉ (spurProgram.flowGraph 0).nodes := by
    rw [nodes]
    decide
  have above : (spurProgram.flowGraph 0).view.dominates 1 6 = true := by cbv
  have beside : (spurProgram.flowGraph 0).view.dominates 4 2 = false := by cbv
  have behind : (spurProgram.flowGraph 0).view.postDominates 4 1 = true := by cbv
  have lowest : (spurProgram.flowGraph 0).view.lowestBranch? 5 = some 1 := by cbv
  have decisions : (spurProgram.flowGraph 0).view.decisionsAbove 6 = [5, 1, 0] := by cbv
  refine ⟨free, ((exact.above_iff free 1 6).mp above).2, fun dominates => ?_,
    ((exact.behind_iff free 4 1).mp behind).2, lowest, (exact.lowest 5 1 lowest).2,
    (exact.ascent_iff 6 _).mpr (by rw [decisions])⟩
  have listed := (exact.above_iff free 4 2).mpr ⟨by decide, dominates⟩
  rw [beside] at listed
  cases listed

end SeqSlice
