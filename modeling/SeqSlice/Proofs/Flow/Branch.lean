import Mathlib.Data.List.Nodup
import SeqSlice.CallGraph.Basic
import SeqSlice.Flow.Branch
import SeqSlice.Proofs.Flow.Block
import SeqSlice.Proofs.Flow.LoopCut
import SeqSlice.Proofs.Graph.Immediate
import SeqSlice.Proofs.Graph.PostDominance

/-! Branches by the way up through the decisions above a block, and what the count of
dominated blocks has to do with it. The count leaves a block out just when the blocks that
it both dominates and post-dominates are at least as many as those that it neither
dominates nor post-dominates. Only a block on a cycle can do so and be in a branch. -/

set_option autoImplicit false
namespace SeqSlice

theorem countP_add_countP {α : Type} (first second : α → Bool) (values : List α) :
    values.countP first + values.countP second +
        values.countP (fun value => !first value && !second value) =
      values.length + values.countP fun value => first value && second value := by
  induction values with
  | nil => rfl
  | cons value rest ih =>
      simp only [List.countP_cons, List.length_cons]
      cases one : first value <;> cases other : second value <;> simp <;> omega

theorem length_filter_fst {relation : List (Nat × Nat)} {values : List Nat} {value : Nat}
    (unique : relation.Nodup) (distinct : values.Nodup)
    (inside : ∀ other, (value, other) ∈ relation → other ∈ values) :
    (relation.filter (·.1 == value)).length =
      values.countP fun other => relation.contains (value, other) := by
  -- Neither list repeats anything, so it is enough that both have the same members.
  have seconds : ((relation.filter (·.1 == value)).map (·.2)).Perm
      (values.filter fun other => relation.contains (value, other)) := by
    refine (List.perm_ext_iff_of_nodup ?_ (distinct.filter _)).mpr fun other => ?_
    · refine (unique.filter _).map_on fun first member second memberToo same => ?_
      have left := (List.mem_filter.mp member).2
      have right := (List.mem_filter.mp memberToo).2
      rw [beq_iff_eq] at left right
      exact Prod.ext (left.trans right.symm) same
    · simp only [List.mem_map, List.mem_filter, beq_iff_eq, List.contains_eq_mem, decide_eq_true_eq]
      constructor
      · rintro ⟨⟨_, _⟩, ⟨listed, rfl⟩, rfl⟩
        exact ⟨inside _ listed, listed⟩
      · rintro ⟨-, listed⟩
        exact ⟨(value, other), ⟨listed, rfl⟩, rfl⟩
  rw [List.countP_eq_length_filter, ← seconds.length_eq, List.length_map]

namespace BranchView

variable (view : BranchView)

/-! ## Being in a branch -/

def Under (lower upper : PointId) : Prop := view.lowestBranch? lower = some upper

/-- The decision has a successor other than the block that neither dominates the block
strictly nor follows it at once. -/
def Divides (decision block : PointId) : Prop :=
  ∃ other ∈ view.blocks.succs decision,
    other ≠ block ∧ view.dominates other block = false ∧ other ∉ view.blocks.succs block

def InBranch (block : PointId) : Prop :=
  ∃ decision, Relation.ReflTransGen view.Under block decision ∧ view.Divides decision block

def countEnclosed (block : PointId) : Nat :=
  (view.blocks.leaders.erase block).countP fun other =>
    view.dominates block other && view.postDominates block other

def countApart (block : PointId) : Nat :=
  (view.blocks.leaders.erase block).countP fun other =>
    !view.dominates block other && !view.postDominates block other

structure Ranked (depth : PointId → Nat) : Prop where
  leaders : view.blocks.leaders.Nodup
  above : view.above.Nodup
  behind : view.behind.Nodup
  dominated : ∀ upper lower, view.dominates upper lower = true →
    upper ∈ view.blocks.leaders ∧ lower ∈ view.blocks.leaders ∧ depth upper < depth lower
  postDominated : ∀ upper lower, view.postDominates upper lower = true →
    lower ∈ view.blocks.leaders ∧ upper ≠ lower
  bounded : ∀ block, depth block ≤ view.blocks.leaders.length

variable {view} {block decision upper : PointId} {depth : PointId → Nat}

theorem Under.between (under : view.Under block upper) :
    view.dominates upper block = true ∧ view.postDominates block upper = false := by
  have found := List.find?_some under
  simpa using found

theorem divides_iff : view.divides decision block = true ↔ view.Divides decision block := by
  simp [divides, Divides, and_assoc]

theorem not_divides_self : ¬ view.Divides block block := by
  rintro ⟨other, follows, -, -, apart⟩
  exact apart follows

/-- Each step goes to a block that is less deep, so as many steps as the block is deep lead to
the end of the way. -/
theorem climbs_ascent (ranked : view.Ranked depth) {steps : Nat} (enough : depth block ≤ steps) :
    Climbs view.lowestBranch? block (block :: view.ascent steps block) := by
  induction steps generalizing block with
  | zero =>
      refine .top (Option.eq_none_iff_forall_ne_some.mpr fun upper under => ?_)
      have deeper := (ranked.dominated _ _ (Under.between under).1).2.2
      omega
  | succ steps ih =>
      rw [ascent]
      cases found : view.lowestBranch? block with
      | none => exact .top found
      | some upper =>
          have deeper := (ranked.dominated _ _ (Under.between found).1).2.2
          exact .up found (ih (by omega))

theorem mem_ascent_iff (ranked : view.Ranked depth) {steps : Nat} (enough : depth block ≤ steps) :
    decision ∈ view.ascent steps block ↔ Relation.TransGen view.Under block decision := by
  rw [Relation.TransGen.head'_iff]
  have climbs := climbs_ascent ranked enough
  generalize view.ascent steps block = passed at climbs
  cases climbs with
  | top ends => simp [Under, ends]
  | up found rest =>
      simp only [rest.mem_iff, Under, found, Option.some.injEq, exists_eq_left']
      rfl

theorem inBranch_iff (ranked : view.Ranked depth) :
    ((view.decisionsAbove block).any fun decision => view.divides decision block) = true ↔
      view.InBranch block := by
  simp only [List.any_eq_true, decisionsAbove, mem_ascent_iff ranked (ranked.bounded block),
    divides_iff, InBranch, Relation.reflTransGen_iff_eq_or_transGen]
  constructor
  · rintro ⟨decision, above, divides⟩
    exact ⟨decision, .inr above, divides⟩
  · rintro ⟨decision, rfl | above, divides⟩
    · exact absurd divides not_divides_self
    · exact ⟨decision, above, divides⟩

/-! ## The count -/

theorem isSpine_iff (ranked : view.Ranked depth) (member : block ∈ view.blocks.leaders) :
    view.isSpine block = true ↔ view.countApart block ≤ view.countEnclosed block := by
  have unique := ranked.leaders.erase block
  have dominated : view.countDominated block =
      (view.blocks.leaders.erase block).countP (view.dominates block) := by
    refine length_filter_fst ranked.above unique fun other listed => ?_
    obtain ⟨-, inside, deeper⟩ := ranked.dominated block other (by simpa [dominates] using listed)
    refine ranked.leaders.mem_erase_iff.mpr ⟨fun same => ?_, inside⟩
    exact Nat.lt_irrefl _ (same ▸ deeper)
  have postDominated : view.countPostDominated block =
      (view.blocks.leaders.erase block).countP (view.postDominates block) := by
    refine length_filter_fst ranked.behind unique fun other listed => ?_
    obtain ⟨inside, different⟩ :=
      ranked.postDominated block other (by simpa [postDominates] using listed)
    exact ranked.leaders.mem_erase_iff.mpr ⟨different.symm, inside⟩
  have others := List.length_erase_of_mem member
  have positive := List.length_pos_of_mem member
  -- What has both relations is counted twice, and what has none not at all.
  have counted := countP_add_countP (view.dominates block) (view.postDominates block)
    (view.blocks.leaders.erase block)
  rw [isSpine, decide_eq_true_eq, dominated, postDominated, countApart, countEnclosed]
  omega

theorem isBranch_iff (ranked : view.Ranked depth) :
    view.isBranch block = true ↔ view.InBranch block ∧ view.isSpine block = false := by
  rw [isBranch, Bool.and_eq_true, inBranch_iff ranked, Bool.not_eq_true', and_comm]

theorem InBranch.countApart_pos (ranked : view.Ranked depth) (inBranch : view.InBranch block) :
    0 < view.countApart block := by
  obtain ⟨decision, above, divides⟩ := inBranch
  rcases Relation.ReflTransGen.cases_head above with rfl | ⟨upper, under, -⟩
  · exact absurd divides not_divides_self
  · obtain ⟨dominates, notBehind⟩ := under.between
    obtain ⟨member, -, deeper⟩ := ranked.dominated upper block dominates
    have different : upper ≠ block := fun same => Nat.lt_irrefl _ (same ▸ deeper)
    refine List.countP_pos_iff.mpr ⟨upper, ranked.leaders.mem_erase_iff.mpr ⟨different, member⟩, ?_⟩
    have notAbove : view.dominates block upper = false := by
      rw [Bool.eq_false_iff]
      intro below
      have deeperToo := (ranked.dominated block upper below).2.2
      omega
    simp [notAbove, notBehind]

end BranchView

/-! ## The blocks of a method -/

namespace FlowGraph

def view (flow : FlowGraph) : BranchView :=
  flow.branchView (flow.dominance?.getD ⟨[]⟩) (flow.postDominance?.getD ⟨[]⟩)

variable {flow : FlowGraph} {root upper lower block : PointId}

theorem view_of_head (head : flow.head = some root) :
    flow.view = flow.branchView (flow.graph.dominance root) flow.graph.postDominance := by
  simp [view, dominance?, postDominance?, head]

theorem mem_liftDominance {blocks : BlockGraph} {dominance : Dominance} :
    (upper, lower) ∈ liftDominance blocks dominance ↔
      lower ∈ blocks.leaders ∧ upper ≠ lower ∧ ∃ point ≠ Digraph.exitNode,
        dominance.dominates point lower = true ∧ blocks.leaderOf? point = some upper := by
  simp only [liftDominance, Dominance.properChain, Dominance.dominates, List.mem_eraseDups,
    List.mem_flatMap, List.mem_map, List.mem_filter, List.mem_filterMap, bne_iff_ne,
    List.contains_eq_mem, decide_eq_true_eq, Prod.mk.injEq]
  constructor
  · rintro ⟨_, member, _, ⟨⟨point, ⟨listed, proper⟩, led⟩, different⟩, rfl, rfl⟩
    exact ⟨member, different, point, proper, listed, led⟩
  · rintro ⟨member, different, point, proper, listed, led⟩
    exact ⟨lower, member, upper, ⟨⟨point, ⟨listed, proper⟩, led⟩, different⟩, rfl, rfl⟩

theorem nodup_liftDominance (blocks : BlockGraph) (dominance : Dominance) :
    (liftDominance blocks dominance).Nodup :=
  nodup_eraseDups _

section
variable (analysed : flow.Analysed root (flow.graph.dominance root)) (head : flow.head = some root)
include analysed head

theorem dominates_of_view (listed : flow.view.dominates upper lower = true) :
    upper ∈ flow.blocks.leaders ∧ lower ∈ flow.blocks.leaders ∧ upper ≠ lower ∧
      Dominates flow.graph.Edge root upper lower := by
  rw [view_of_head head, BranchView.dominates, List.contains_eq_mem, decide_eq_true_eq] at listed
  obtain ⟨member, different, point, -, above, led⟩ := mem_liftDominance.mp listed
  obtain ⟨memberToo, inside⟩ := leaderOf?_eq_some led
  refine ⟨memberToo, member, different, (leader_dominates analysed head inside).trans ?_⟩
  exact (analysed.dominates_iff point lower).mp above

theorem walk_of_view (listed : flow.view.postDominates upper lower = true) :
    lower ∈ flow.blocks.leaders ∧ upper ≠ lower ∧
      Relation.ReflTransGen flow.graph.Edge lower upper := by
  rw [view_of_head head, BranchView.postDominates, List.contains_eq_mem, decide_eq_true_eq] at listed
  obtain ⟨member, different, point, proper, behind, led⟩ := mem_liftDominance.mp listed
  refine ⟨member, different, leader_on_walk (mem_leaders.mp member).2 (leaderOf?_eq_some led).2 ?_⟩
  exact Digraph.walk_of_postDominates analysed.source proper behind

theorem view_ranked : flow.view.Ranked fun block =>
    flow.blocks.leaders.countP fun other => (flow.graph.dominance root).dominates other block where
  leaders := analysed.unique.filter _
  above := nodup_liftDominance flow.blocks _
  behind := nodup_liftDominance flow.blocks _
  dominated upper lower listed := by
    obtain ⟨memberToo, member, different, above⟩ := dominates_of_view analysed head listed
    refine ⟨memberToo, member, CallSource.countP_lt_countP (fun other _ higher => ?_) member ?_ ?_⟩
    · rw [analysed.dominates_iff] at higher ⊢
      exact higher.trans above
    · exact (analysed.dominates_iff lower lower).mpr (.refl above.1)
    · intro below
      exact different (above.antisymm ((analysed.dominates_iff lower upper).mp below))
  postDominated upper lower listed :=
    let ⟨member, different, _⟩ := walk_of_view analysed head listed
    ⟨member, different⟩
  bounded _ := List.countP_le_length

theorem cycle_of_enclosed (enclosed : 0 < flow.view.countEnclosed block) :
    Relation.TransGen flow.graph.Edge block block := by
  obtain ⟨other, _, both⟩ := List.countP_pos_iff.mp enclosed
  rw [Bool.and_eq_true] at both
  obtain ⟨-, -, different, dominates⟩ := dominates_of_view analysed head both.1
  obtain ⟨-, -, back⟩ := walk_of_view analysed head both.2
  -- Dominance leads to the other block, and post-dominance back.
  have out : Relation.ReflTransGen flow.graph.Edge block other :=
    Relation.ReflTransGen.mono (fun _ _ along => along.1) _ _ dominates.forward
  rcases Relation.reflTransGen_iff_eq_or_transGen.mp out with same | out
  · exact absurd same.symm different
  · exact out.trans_left back

theorem not_isSpine_of_acyclic (member : block ∈ flow.blocks.leaders)
    (inBranch : flow.view.InBranch block)
    (acyclic : ¬ Relation.TransGen flow.graph.Edge block block) :
    flow.view.isSpine block = false := by
  have ranked := view_ranked analysed head
  have apart := inBranch.countApart_pos ranked
  have none : flow.view.countEnclosed block = 0 :=
    Nat.eq_zero_of_not_pos fun enclosed => acyclic (cycle_of_enclosed analysed head enclosed)
  rw [Bool.eq_false_iff, ne_eq, BranchView.isSpine_iff ranked member]
  omega

end

theorem branchPoints_of_head (head : flow.head = some root) :
    flow.branchPoints = flow.nodes.filter
      ((flow.view.blocks.leaders.filter flow.view.isBranch).flatMap flow.view.blocks.block).contains := by
  simp [branchPoints, view, dominance?, postDominance?, head]

open Classical in
/-- The answer is the statements of the blocks in branches, in the order of the graph,
without the blocks that the count leaves out. -/
structure BranchesFound (flow : FlowGraph) : Prop where
  points : flow.branchPoints = flow.nodes.filter fun point =>
    decide (∃ block ∈ flow.view.blocks.leaders, point ∈ flow.view.blocks.block block ∧
      flow.view.InBranch block ∧ flow.view.isSpine block = false)
  leftOut : ∀ block ∈ flow.view.blocks.leaders, flow.view.isSpine block = true ↔
    flow.view.countApart block ≤ flow.view.countEnclosed block
  acyclic : ∀ block ∈ flow.view.blocks.leaders, flow.view.InBranch block →
    ¬ Relation.TransGen flow.graph.Edge block block → flow.view.isSpine block = false

end FlowGraph

namespace Program

/-- The count leaves out a block in a branch only where the blocks that it both dominates
and post-dominates outweigh those apart from it, so only a block on a cycle. -/
theorem branches_found (program : Program) (method : MethodId) :
    (program.flowGraph method).BranchesFound := by
  cases found : program.flowHead? method with
  | none =>
      have noNodes : (program.flowGraph method).nodes = [] :=
        List.eq_nil_iff_forall_not_mem.mpr (flowNodes_of_no_head found)
      have noBlocks (block : PointId) : block ∉ (program.flowGraph method).view.blocks.leaders :=
        fun member => flowNodes_of_no_head found block (FlowGraph.mem_leaders.mp member).1
      have head : (program.flowGraph method).head = none := found
      constructor
      · simp [FlowGraph.branchPoints, FlowGraph.dominance?, head, noNodes]
      · exact fun block member => absurd member (noBlocks block)
      · exact fun block member => absurd member (noBlocks block)
  | some head =>
      have analysed := flowGraph_analysed found
      have ranked := FlowGraph.view_ranked analysed found
      constructor
      · rw [FlowGraph.branchPoints_of_head found]
        refine List.filter_congr fun point _ => ?_
        rw [List.contains_eq_mem, decide_eq_decide]
        simp only [List.mem_flatMap, List.mem_filter, BranchView.isBranch_iff ranked]
        constructor
        · rintro ⟨block, ⟨member, isBranch⟩, inside⟩
          exact ⟨block, member, inside, isBranch⟩
        · rintro ⟨block, member, inside, isBranch⟩
          exact ⟨block, ⟨member, isBranch⟩, inside⟩
      · exact fun block member => BranchView.isSpine_iff ranked member
      · exact fun block member => FlowGraph.not_isSpine_of_acyclic analysed found member

end Program

/-- One way of the decision ends at once. The other is a loop at 1 with two ways back. -/
def latchedListing : Listing where
  entry := some 0
  classes := [⟨0, "Main", none, [], false, false⟩]
  methods := [⟨0, 0, "main", "", true, false, [0, 1, 2, 3, 4, 5]⟩]
  points := (List.range 6).map fun point => ⟨point, 0, 1, .plain, ""⟩
  edges := [⟨0, 1, false⟩, ⟨0, 2, false⟩, ⟨1, 3, false⟩, ⟨3, 4, false⟩, ⟨3, 1, false⟩,
    ⟨4, 1, false⟩, ⟨1, 5, false⟩]
  calls := []
  allocSites := []
  pointsTo := []

def latchedProgram : Program := ⟨latchedListing, 0, rfl, by decide⟩

/-- The header 1 is in a branch with the rest of its loop, but 3 and 4, which it encloses,
outweigh 0 and 2. -/
theorem latchedProgram_header_left_out :
    (latchedProgram.flowGraph 0).branchPoints = [2, 3, 5, 4] ∧
      1 ∈ (latchedProgram.flowGraph 0).nodes ∧
      ∃ block ∈ (latchedProgram.flowGraph 0).view.blocks.leaders,
        1 ∈ (latchedProgram.flowGraph 0).view.blocks.block block ∧
          (latchedProgram.flowGraph 0).view.InBranch block := by
  have lowest : (latchedProgram.flowGraph 0).view.lowestBranch? 1 = some 0 := by cbv
  have divides : (latchedProgram.flowGraph 0).view.divides 0 1 = true := by cbv
  have leaders : (latchedProgram.flowGraph 0).view.blocks.leaders = [0, 1, 2, 3, 5, 4] := by cbv
  have block : (latchedProgram.flowGraph 0).view.blocks.block 1 = [1] := by cbv
  have nodes : (latchedProgram.flowGraph 0).nodes = [0, 1, 2, 3, 5, 4] := by cbv
  refine ⟨by cbv, by simp [nodes], 1, by simp [leaders], by simp [block], 0, .single lowest, ?_⟩
  exact BranchView.divides_iff.mp divides

end SeqSlice
