import SeqSlice.Flow.Block
import SeqSlice.Proofs.Flow.NaturalLoop

/-! Basic blocks are entered at their leaders only: every other statement has the one before
it as its only predecessor. So the leader dominates its block, and a walk that comes into
the block from another leader passes it. -/

set_option autoImplicit false
namespace SeqSlice

namespace BlockGraph

variable {blocks : BlockGraph}

theorem of_leaderOf? {point leader : PointId} (found : blocks.leaderOf? point = some leader) :
    ∃ members, (leader, members) ∈ blocks.members ∧ point ∈ members := by
  obtain ⟨⟨first, members⟩, here, rfl⟩ := Option.map_eq_some_iff.mp found
  exact ⟨members, List.mem_of_find?_eq_some here, by simpa using List.find?_some here⟩

end BlockGraph

namespace FlowGraph

variable {flow : FlowGraph} {point leader next : PointId}

theorem mem_leaders : leader ∈ flow.blocks.leaders ↔ leader ∈ flow.nodes ∧ flow.isLeader leader = true :=
  List.mem_filter

theorem leaderOf?_eq_some (found : flow.blocks.leaderOf? point = some leader) :
    leader ∈ flow.blocks.leaders ∧ point ∈ flow.blockOf leader := by
  obtain ⟨members, listed, inside⟩ := BlockGraph.of_leaderOf? found
  obtain ⟨_, member, same⟩ := List.mem_map.mp listed
  cases same
  exact ⟨member, inside⟩

theorem follower_pred (follower : flow.isLeader point = false) :
    flow.head ≠ some point ∧ ∃ pred, flow.preds point = [pred] := by
  unfold isLeader at follower
  rw [Bool.or_eq_false_iff] at follower
  refine ⟨by simpa using follower.1, ?_⟩
  have onePred := follower.2
  split at onePred
  · next pred one => exact ⟨pred, one⟩
  · cases onePred

theorem pred_unique (follower : flow.isLeader point = false) {first second : PointId}
    (along : flow.graph.Edge first point) (alongToo : flow.graph.Edge second point) :
    first = second := by
  obtain ⟨-, pred, one⟩ := follower_pred follower
  have only {source : PointId} (edge : flow.graph.Edge source point) : source = pred := by
    have listed : source ∈ flow.preds point := flow.graph.mem_preds.mpr edge
    rwa [one, List.mem_singleton] at listed
  rw [only along, only alongToo]

theorem of_mem_continuation (follows : next ∈ flow.continuation point) :
    flow.graph.Edge point next ∧ flow.isLeader next = false := by
  unfold continuation at follows
  split at follows
  · next only one =>
      split at follows
      · cases follows
      · next follower =>
          rw [List.mem_singleton.mp follows]
          refine ⟨flow.graph.mem_succs.mp ?_, by simpa using follower⟩
          change only ∈ flow.succs point
          rw [one]
          exact List.mem_cons_self
  · cases follows

theorem mem_blockOf {member : PointId} :
    member ∈ flow.blockOf leader ↔ Graph.Reach flow.continuation flow.nodes [leader] member :=
  Graph.mem_visit

variable {root : PointId} {dominance : Dominance}

/-- All ways into a block go through its leader. -/
theorem leader_dominates (analysed : flow.Analysed root dominance) (head : flow.head = some root)
    (inside : point ∈ flow.blockOf leader) : Dominates flow.graph.Edge root leader point := by
  have reach := mem_blockOf.mp inside
  clear inside
  induction reach with
  | source member start =>
      rw [List.mem_singleton.mp start] at member ⊢
      exact .refl (analysed.reached leader member)
  | step _ member follows ih =>
      obtain ⟨along, follower⟩ := of_mem_continuation follows
      refine ⟨analysed.reached _ member, fun path => ?_⟩
      -- The last edge of the path comes from the only predecessor, which is in the block too.
      cases path with
      | root _ => exact (follower_pred follower).1 head
      | step before edge _ => exact ih.2 (pred_unique follower edge along ▸ before)

theorem leader_on_walk {start : PointId} (begins : flow.isLeader start = true)
    (inside : point ∈ flow.blockOf leader)
    (walk : Relation.ReflTransGen flow.graph.Edge start point) :
    Relation.ReflTransGen flow.graph.Edge start leader := by
  have reach := mem_blockOf.mp inside
  clear inside
  induction reach with
  | source _ same => rwa [← List.mem_singleton.mp same]
  | step _ _ follows ih =>
      obtain ⟨along, follower⟩ := of_mem_continuation follows
      -- The walk does not begin here, so it passes the only predecessor.
      rcases Relation.ReflTransGen.cases_tail walk with same | ⟨pred, before, edge⟩
      · rw [same, begins] at follower
        cases follower
      · exact ih (pred_unique follower edge along ▸ before)

end FlowGraph
end SeqSlice
