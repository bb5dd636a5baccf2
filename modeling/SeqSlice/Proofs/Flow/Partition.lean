import Mathlib.Data.List.Chain
import SeqSlice.Proofs.Flow.Block

/-! Basic blocks partition a flow graph. Going on from a leader as long as there is no
choice comes to an end, since a statement that is met again would have a second
predecessor. Every statement is on one of these runs, as it is reached from the head, and on
no other, as its only predecessor tells where the run comes from. -/

set_option autoImplicit false
namespace SeqSlice

namespace FlowGraph

/-- The statements passed from a first one, going on as long as the only successor begins no
block. -/
inductive Continues (flow : FlowGraph) : PointId → List PointId → Prop where
  | last {point : PointId} : flow.continuation point = [] → Continues flow point [point]
  | next {point following : PointId} {rest : List PointId} :
      flow.continuation point = [following] → Continues flow following rest →
      Continues flow point (point :: rest)

def Joins (flow : FlowGraph) (first second : PointId) : Prop :=
  flow.succs first = [second] ∧ flow.preds second = [first]

/-- Blocks are straight runs from their leaders, without a statement in common. They cover
the graph, edges enter them at the leader, and an edge between two blocks stands for an edge
from the end of the one to the leader of the other. -/
structure Partitioned (flow : FlowGraph) (blocks : BlockGraph) : Prop where
  run_iff : ∀ leader ∈ blocks.leaders, ∀ nodes,
    flow.Continues leader nodes ↔ nodes = blocks.block leader
  covered : ∀ node ∈ flow.nodes, ∃! leader, leader ∈ blocks.leaders ∧ node ∈ blocks.block leader
  within : ∀ leader ∈ blocks.leaders, ∀ node ∈ blocks.block leader, node ∈ flow.nodes
  unique : ∀ leader ∈ blocks.leaders, (blocks.block leader).Nodup
  straight : ∀ leader ∈ blocks.leaders, ∃ rest, blocks.block leader = leader :: rest ∧
    (leader :: rest).IsChain flow.Joins
  leaderOf_iff : ∀ node leader, blocks.leaderOf? node = some leader ↔
    leader ∈ blocks.leaders ∧ node ∈ blocks.block leader
  entered : ∀ source target, flow.graph.Edge source target →
    (target ∈ blocks.leaders ∧
      ∃ leader ∈ blocks.leaders, (blocks.block leader).getLast? = some source) ∨
    ∃ leader ∈ blocks.leaders, [source, target] <:+: blocks.block leader
  edge_iff : ∀ first second, blocks.graph.Edge first second ↔
    first ∈ blocks.leaders ∧ second ∈ blocks.leaders ∧
      ∃ last, (blocks.block first).getLast? = some last ∧ flow.graph.Edge last second

variable {flow : FlowGraph} {point leader next : PointId} {nodes : List PointId}

/-! ## Runs -/

theorem continuation_eq_singleton :
    flow.continuation point = [next] ↔ flow.succs point = [next] ∧ flow.isLeader next = false := by
  unfold continuation
  split
  · next only one =>
      rw [one]
      by_cases begins : flow.isLeader only = true
      · simp only [begins, if_true, List.cons.injEq, and_true]
        constructor
        · intro none
          cases none
        · rintro ⟨rfl, follower⟩
          rw [begins] at follower
          cases follower
      · simp only [begins, Bool.false_eq_true, if_false, List.cons.injEq, and_true]
        exact ⟨fun same => ⟨same, same ▸ by simpa using begins⟩, And.left⟩
  · next other =>
      constructor
      · intro none
        cases none
      · exact fun ⟨one, _⟩ => absurd one (other next)

theorem edge_of_continuation (goesOn : flow.continuation point = [next]) :
    flow.graph.Edge point next :=
  (of_mem_continuation (goesOn ▸ List.mem_cons_self)).1

theorem continuation_cases (flow : FlowGraph) (point : PointId) :
    flow.continuation point = [] ∨ ∃ next, flow.continuation point = [next] := by
  unfold continuation
  split
  · split
    · exact .inl rfl
    · exact .inr ⟨_, rfl⟩
  · exact .inl rfl

theorem preds_follower (follower : flow.isLeader next = false)
    (along : flow.graph.Edge point next) : flow.preds next = [point] := by
  obtain ⟨-, pred, one⟩ := follower_pred follower
  have listed : point ∈ flow.preds next := flow.graph.mem_preds.mpr along
  rw [one, List.mem_singleton] at listed
  rw [one, listed]

theorem continuation_of_edge (follower : flow.isLeader next = false)
    (along : flow.graph.Edge point next) : flow.continuation point = [next] := by
  have single := follower
  unfold isLeader at single
  rw [Bool.or_eq_false_iff, preds_follower follower along] at single
  obtain ⟨only, same⟩ := List.length_eq_one_iff.mp (by simpa using single.2)
  have listed : next ∈ flow.succs point := flow.graph.mem_succs.mpr along
  rw [same, List.mem_singleton] at listed
  exact continuation_eq_singleton.mpr ⟨listed ▸ same, follower⟩

namespace Continues

theorem unique {others : List PointId} (run : flow.Continues point nodes)
    (other : flow.Continues point others) : nodes = others := by
  induction run generalizing others with
  | last ends =>
      cases other with
      | last _ => rfl
      | next goesOn _ => cases ends.symm.trans goesOn
  | next goesOn _ ih =>
      cases other with
      | last ends => cases ends.symm.trans goesOn
      | next goesOnToo rest =>
          obtain ⟨rfl, _⟩ := List.cons.inj (goesOn.symm.trans goesOnToo)
          rw [ih rest]

theorem eq_cons (run : flow.Continues point nodes) : ∃ rest, nodes = point :: rest := by
  cases run with
  | last _ => exact ⟨[], rfl⟩
  | next _ _ => exact ⟨_, rfl⟩

theorem isChain (run : flow.Continues point nodes) : nodes.IsChain flow.Joins := by
  induction run with
  | last _ => exact .singleton _
  | next goesOn rest ih =>
      obtain ⟨others, rfl⟩ := rest.eq_cons
      obtain ⟨one, follower⟩ := continuation_eq_singleton.mp goesOn
      exact .cons_cons ⟨one, preds_follower follower (edge_of_continuation goesOn)⟩ ih

theorem mem_cases {node : PointId} (run : flow.Continues point nodes) (inside : node ∈ nodes) :
    (flow.continuation node = [] ∧ nodes.getLast? = some node) ∨
      ∃ following, flow.continuation node = [following] ∧ [node, following] <:+: nodes := by
  induction run with
  | last ends =>
      obtain rfl := List.mem_singleton.mp inside
      exact .inl ⟨ends, rfl⟩
  | next goesOn rest ih =>
      obtain ⟨others, rfl⟩ := rest.eq_cons
      rcases List.mem_cons.mp inside with rfl | later
      · exact .inr ⟨_, goesOn, ⟨[], others, rfl⟩⟩
      · rcases ih later with ⟨ends, last⟩ | ⟨following, goesOnThere, adjacent⟩
        · exact .inl ⟨ends, by rw [List.getLast?_cons_cons, last]⟩
        · exact .inr ⟨following, goesOnThere, adjacent.trans (List.infix_cons List.infix_rfl)⟩

theorem exists_last (run : flow.Continues point nodes) :
    ∃ last, nodes.getLast? = some last ∧ flow.continuation last = [] := by
  induction run with
  | last ends => exact ⟨_, rfl, ends⟩
  | next _ rest ih =>
      obtain ⟨others, rfl⟩ := rest.eq_cons
      obtain ⟨last, found, ends⟩ := ih
      exact ⟨last, by rw [List.getLast?_cons_cons, found], ends⟩

/-- What the search visits is a run. A statement that it met twice would be met the second
time from another predecessor, so nothing of the run is left out. -/
theorem of_visit {remaining pending : List PointId} (unique : remaining.Nodup)
    (begins : pending = [point]) (member : point ∈ remaining)
    (fresh : flow.isLeader point = false → ∀ source, flow.graph.Edge source point →
      source ∉ remaining)
    (closed : ∀ node, node ∉ remaining → flow.isLeader node = false →
      ∀ source, flow.graph.Edge source node → source ∉ remaining) :
    flow.Continues point (Graph.visit .queue flow.continuation remaining pending) := by
  fun_induction Graph.visit .queue flow.continuation remaining pending generalizing point with
  | case1 remaining => cases begins
  | case2 remaining first rest _ ih =>
      obtain ⟨rfl, rfl⟩ := List.cons.inj begins
      rcases flow.continuation_cases first with ends | ⟨following, goesOn⟩
      · rw [ends]
        simpa [Graph.Discipline.add, Graph.visit] using Continues.last ends
      · obtain ⟨along, follower⟩ :=
          of_mem_continuation (goesOn ▸ List.mem_cons_self : following ∈ flow.continuation first)
        -- What begins no block has one predecessor only, so it was not met by another way.
        have left : following ∈ remaining := by
          by_contra gone
          exact closed following gone follower first along member
        have different : following ≠ first := by
          rintro rfl
          exact fresh follower following along member
        have gone {node : PointId} (absent : node ∉ remaining) : node ∉ remaining.erase first :=
          fun inside => absent (List.mem_of_mem_erase inside)
        refine .next goesOn (ih (unique.erase first) (by rw [goesOn]; rfl)
          (unique.mem_erase_iff.mpr ⟨different, left⟩) ?_ ?_)
        · intro _ source alongToo
          rw [pred_unique follower alongToo along]
          exact unique.not_mem_erase
        · intro node absent followerToo source edge
          by_cases same : node = first
          · exact gone (fresh (same ▸ followerToo) source (same ▸ edge))
          · refine gone (closed node (fun inside => absent ?_) followerToo source edge)
            exact unique.mem_erase_iff.mpr ⟨same, inside⟩
  | case3 remaining first rest absent ih =>
      obtain ⟨rfl, rfl⟩ := List.cons.inj begins
      exact absurd member absent

end Continues

/-! ## Blocks -/

variable {root : PointId} {dominance : Dominance}

theorem continues_blockOf (analysed : flow.Analysed root dominance)
    (member : leader ∈ flow.blocks.leaders) : flow.Continues leader (flow.blockOf leader) := by
  obtain ⟨listed, begins⟩ := mem_leaders.mp member
  refine .of_visit analysed.unique rfl listed (fun follower => ?_) fun node absent _ source along => ?_
  · rw [begins] at follower
    cases follower
  · exact absurd (analysed.rooted.target _ _ along) absent

theorem block_blocks (member : leader ∈ flow.blocks.leaders) :
    flow.blocks.block leader = flow.blockOf leader := by
  have found := Dominance.lookup_map_self flow.blockOf flow.blocks.leaders leader
  rw [if_pos member] at found
  exact congrArg (Option.getD · []) found

theorem leader_mem_blockOf (member : leader ∈ flow.blocks.leaders) :
    leader ∈ flow.blockOf leader :=
  mem_blockOf.mpr (.source (mem_leaders.mp member).1 List.mem_cons_self)

/-- Two blocks have no statement in common: going back from it over the only predecessors
leads to both leaders. -/
theorem leader_unique {other : PointId} (member : leader ∈ flow.blocks.leaders)
    (otherMember : other ∈ flow.blocks.leaders) (inside : point ∈ flow.blockOf leader)
    (insideToo : point ∈ flow.blockOf other) : leader = other := by
  have reach := mem_blockOf.mp inside
  have reachToo := mem_blockOf.mp insideToo
  clear inside insideToo
  have not_leader {node : PointId} (listed : node ∈ flow.blocks.leaders)
      (follower : flow.isLeader node = false) : False := by
    rw [(mem_leaders.mp listed).2] at follower
    cases follower
  -- Going back from the statement over the only predecessors leads to both leaders.
  induction reach with
  | source _ start =>
      obtain rfl := List.mem_singleton.mp start
      cases reachToo with
      | source _ startToo => exact List.mem_singleton.mp startToo
      | step _ _ follows => exact (not_leader member (of_mem_continuation follows).2).elim
  | step _ _ follows ih =>
      obtain ⟨along, follower⟩ := of_mem_continuation follows
      cases reachToo with
      | source _ startToo =>
          obtain rfl := List.mem_singleton.mp startToo
          exact (not_leader otherMember follower).elim
      | step before _ followsToo =>
          exact ih (pred_unique follower (of_mem_continuation followsToo).1 along ▸ before)

/-- Everything that the head reaches is in a block: a statement that begins none comes next
to its predecessor in the block of that one. -/
theorem exists_block (analysed : flow.Analysed root dominance) (head : flow.head = some root)
    (member : point ∈ flow.nodes) : ∃ leader ∈ flow.blocks.leaders, point ∈ flow.blockOf leader := by
  have own {node : PointId} (listed : node ∈ flow.nodes) (begins : flow.isLeader node = true) :
      ∃ leader ∈ flow.blocks.leaders, node ∈ flow.blockOf leader :=
    ⟨node, mem_leaders.mpr ⟨listed, begins⟩, leader_mem_blockOf (mem_leaders.mpr ⟨listed, begins⟩)⟩
  have reached := analysed.reached point member
  clear member
  induction reached with
  | refl => exact own analysed.rooted.root (by simp [isLeader, head])
  | @tail source target _ along ih =>
      by_cases begins : flow.isLeader target = true
      · exact own (analysed.rooted.target _ _ along) begins
      · obtain ⟨leader, listed, inside⟩ := ih
        have goesOn := continuation_of_edge (by simpa using begins) along
        refine ⟨leader, listed, mem_blockOf.mpr ?_⟩
        exact .step (mem_blockOf.mp inside) (analysed.rooted.target _ _ along) (by simp [goesOn])

theorem leaderOf?_eq_some_iff {node : PointId} :
    flow.blocks.leaderOf? node = some leader ↔
      leader ∈ flow.blocks.leaders ∧ node ∈ flow.blockOf leader := by
  refine ⟨leaderOf?_eq_some, fun ⟨member, inside⟩ => ?_⟩
  cases found : flow.blocks.leaderOf? node with
  | none =>
      have missed := List.find?_eq_none.mp (Option.map_eq_none_iff.mp found)
      have listed : (leader, flow.blockOf leader) ∈ flow.blocks.members :=
        List.mem_map.mpr ⟨leader, member, rfl⟩
      exact absurd inside (by simpa using missed _ listed)
  | some other =>
      obtain ⟨otherMember, insideToo⟩ := leaderOf?_eq_some found
      rw [leader_unique member otherMember inside insideToo]

theorem leaderOf?_leader (member : leader ∈ flow.blocks.leaders) :
    flow.blocks.leaderOf? leader = some leader :=
  leaderOf?_eq_some_iff.mpr ⟨member, leader_mem_blockOf member⟩

theorem mem_blockEdges {first second : PointId} : flow.blocks.graph.Edge first second ↔
    first ∈ flow.blocks.leaders ∧ ∃ last, (flow.blockOf first).getLast? = some last ∧
      ∃ next, flow.graph.Edge last next ∧ flow.blocks.leaderOf? next = some second := by
  change (first, second) ∈ (flow.blocks.members.flatMap fun entry =>
    (entry.2.getLast?.toList.flatMap flow.succs).filterMap fun next =>
      (flow.blocks.leaderOf? next).map fun target => (entry.1, target)).eraseDups ↔ _
  simp only [List.mem_eraseDups, List.mem_flatMap, List.mem_filterMap, Option.mem_toList,
    Option.map_eq_some_iff, Prod.mk.injEq]
  constructor
  · rintro ⟨_, listed, next, ⟨last, found, follows⟩, target, leads, rfl, rfl⟩
    obtain ⟨leader, member, rfl⟩ := List.mem_map.mp listed
    exact ⟨member, last, found, next, flow.graph.mem_succs.mp follows, leads⟩
  · rintro ⟨member, last, found, next, follows, leads⟩
    exact ⟨_, List.mem_map.mpr ⟨first, member, rfl⟩, next,
      ⟨last, found, flow.graph.mem_succs.mpr follows⟩, second, leads, rfl, rfl⟩

theorem mem_leaders_of_last (analysed : flow.Analysed root dominance)
    (member : leader ∈ flow.blocks.leaders) {last : PointId}
    (found : (flow.blockOf leader).getLast? = some last) (along : flow.graph.Edge last next) :
    next ∈ flow.blocks.leaders := by
  obtain ⟨final, ends, stops⟩ := (continues_blockOf analysed member).exists_last
  obtain rfl := Option.some.inj (found.symm.trans ends)
  refine mem_leaders.mpr ⟨analysed.rooted.target _ _ along, ?_⟩
  by_contra follower
  cases stops.symm.trans (continuation_of_edge (by simpa using follower) along)

theorem blockEdge_iff (analysed : flow.Analysed root dominance) {first second : PointId} :
    flow.blocks.graph.Edge first second ↔
      first ∈ flow.blocks.leaders ∧ second ∈ flow.blocks.leaders ∧
        ∃ last, (flow.blockOf first).getLast? = some last ∧ flow.graph.Edge last second := by
  rw [mem_blockEdges]
  constructor
  · rintro ⟨member, last, found, next, along, leads⟩
    have nextMember := mem_leaders_of_last analysed member found along
    obtain rfl := Option.some.inj ((leaderOf?_leader nextMember).symm.trans leads)
    exact ⟨member, nextMember, last, found, along⟩
  · rintro ⟨member, otherMember, last, found, along⟩
    exact ⟨member, last, found, second, along, leaderOf?_leader otherMember⟩

theorem entered_or_adjacent (analysed : flow.Analysed root dominance) (head : flow.head = some root)
    {source target : PointId} (along : flow.graph.Edge source target) :
    (target ∈ flow.blocks.leaders ∧
      ∃ leader ∈ flow.blocks.leaders, (flow.blockOf leader).getLast? = some source) ∨
    ∃ leader ∈ flow.blocks.leaders, [source, target] <:+: flow.blockOf leader := by
  obtain ⟨leader, member, inside⟩ := exists_block analysed head (analysed.source _ _ along)
  rcases (continues_blockOf analysed member).mem_cases inside with
    ⟨-, last⟩ | ⟨following, goesOn, adjacent⟩
  · exact .inl ⟨mem_leaders_of_last analysed member last along, leader, member, last⟩
  · -- The way on is the only edge.
    have listed : target ∈ flow.succs source := flow.graph.mem_succs.mpr along
    rw [(continuation_eq_singleton.mp goesOn).1, List.mem_singleton] at listed
    exact .inr ⟨leader, member, listed ▸ adjacent⟩

theorem partitioned (analysed : flow.Analysed root dominance) (head : flow.head = some root) :
    flow.Partitioned flow.blocks where
  run_iff leader member nodes := by
    have run := continues_blockOf analysed member
    rw [block_blocks member]
    exact ⟨fun other => other.unique run, fun same => same ▸ run⟩
  covered node listed := by
    obtain ⟨leader, member, inside⟩ := exists_block analysed head listed
    refine ⟨leader, ⟨member, block_blocks member ▸ inside⟩, ?_⟩
    rintro other ⟨otherMember, insideToo⟩
    rw [block_blocks otherMember] at insideToo
    exact leader_unique otherMember member insideToo inside
  within leader member node inside := by
    rw [block_blocks member] at inside
    exact (mem_blockOf.mp inside).mem_domain
  unique leader member := by
    rw [block_blocks member]
    exact Graph.nodup_visit analysed.unique
  straight leader member := by
    have run := continues_blockOf analysed member
    obtain ⟨rest, same⟩ := run.eq_cons
    exact ⟨rest, by rw [block_blocks member, same], same ▸ run.isChain⟩
  leaderOf_iff node leader := by
    rw [leaderOf?_eq_some_iff]
    exact and_congr_right fun member => by rw [block_blocks member]
  entered source target along := by
    refine (entered_or_adjacent analysed head along).imp ?_ ?_
    · rintro ⟨leads, leader, member, last⟩
      exact ⟨leads, leader, member, block_blocks member ▸ last⟩
    · rintro ⟨leader, member, adjacent⟩
      exact ⟨leader, member, block_blocks member ▸ adjacent⟩
  edge_iff first second := by
    rw [blockEdge_iff analysed]
    exact and_congr_right fun member => by rw [block_blocks member]

end FlowGraph

namespace Program

theorem blocks_partition (program : Program) (method : MethodId) :
    (program.flowGraph method).Partitioned (program.flowGraph method).blocks := by
  cases found : program.flowHead? method with
  | some head => exact FlowGraph.partitioned (flowGraph_analysed found) found
  | none =>
      -- Without a head there are no statements, and so no blocks.
      have noNode := flowNodes_of_no_head found
      have noLeader (leader : PointId) : leader ∉ (program.flowGraph method).blocks.leaders :=
        fun member => noNode leader (FlowGraph.mem_leaders.mp member).1
      constructor
      · exact fun leader member => absurd member (noLeader leader)
      · exact fun node member => absurd member (noNode node)
      · exact fun leader member => absurd member (noLeader leader)
      · exact fun leader member => absurd member (noLeader leader)
      · exact fun leader member => absurd member (noLeader leader)
      · exact fun node leader => ⟨
          fun leads => absurd (FlowGraph.leaderOf?_eq_some leads).1 (noLeader leader),
          fun inside => absurd inside.1 (noLeader leader)⟩
      · exact fun source target along => absurd (mem_flowEdges.mp along).1 (noNode source)
      · exact fun first second => ⟨
          fun along => absurd (FlowGraph.mem_blockEdges.mp along).1 (noLeader first),
          fun joined => absurd joined.1 (noLeader first)⟩

end Program
end SeqSlice
