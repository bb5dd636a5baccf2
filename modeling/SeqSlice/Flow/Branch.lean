import SeqSlice.Flow.Block

/-! Branches. A block is in a branch if, going up through the decisions above it,
one is met that has a way on which neither leads to the block nor is one of the
block's own successors. -/

set_option autoImplicit false
namespace SeqSlice

/-- The blocks of a method with their strict dominance and post-dominance: pairs
of an upper and a lower block. -/
structure BranchView where
  blocks : BlockGraph
  above : List (PointId × PointId)
  behind : List (PointId × PointId)
  deriving DecidableEq, Repr, Inhabited

namespace BranchView

variable (view : BranchView)

def dominates (upper lower : PointId) : Bool := view.above.contains (upper, lower)

def postDominates (upper lower : PointId) : Bool := view.behind.contains (upper, lower)

def countDominated (block : PointId) : Nat := (view.above.filter (·.1 == block)).length

def countPostDominated (block : PointId) : Nat := (view.behind.filter (·.1 == block)).length

/-- The nearest block upwards that dominates the block and is not post-dominated
by it. -/
def lowestBranch? (block : PointId) : Option PointId :=
  (Graph.visit .queue view.blocks.preds (view.blocks.leaders.erase block)
    (view.blocks.preds block)).find? fun other =>
      view.dominates other block && !view.postDominates block other

/-- The decisions above a block, the nearest first. Each dominates the one before
it, so there are no more than there are blocks. -/
def ascent : Nat → PointId → List PointId
  | 0, _ => []
  | steps + 1, block =>
      match view.lowestBranch? block with
      | some upper => upper :: ascent steps upper
      | none => []

def decisionsAbove (block : PointId) : List PointId :=
  view.ascent view.blocks.leaders.length block

/-- The decision has a way on that does not merely lead to the block. -/
def divides (decision block : PointId) : Bool :=
  (view.blocks.succs decision).any fun other =>
    other != block && !view.dominates other block && !(view.blocks.succs block).contains other

/-- A block that dominates or post-dominates all others is in no branch. -/
def isSpine (block : PointId) : Bool :=
  decide (view.blocks.leaders.length ≤
    view.countDominated block + view.countPostDominated block + 1)

def isBranch (block : PointId) : Bool :=
  !view.isSpine block && (view.decisionsAbove block).any fun decision => view.divides decision block

end BranchView

namespace FlowGraph

variable (flow : FlowGraph)

def liftDominance (blocks : BlockGraph) (dominance : Dominance) : List (PointId × PointId) :=
  (blocks.leaders.flatMap fun lower =>
    (((dominance.properChain lower).filterMap blocks.leaderOf?).filter (· != lower)).map
      fun upper => (upper, lower)).eraseDups

def branchView (dominance postDominance : Dominance) : BranchView :=
  let blocks := flow.blocks
  ⟨blocks, liftDominance blocks dominance, liftDominance blocks postDominance⟩

def branchPoints : List PointId :=
  match flow.dominance?, flow.postDominance? with
  | some dominance, some postDominance =>
      let view := flow.branchView dominance postDominance
      let inside := (view.blocks.leaders.filter view.isBranch).flatMap view.blocks.block
      flow.nodes.filter inside.contains
  | _, _ => []

end FlowGraph
end SeqSlice
