import SeqSlice.CallGraph.Basic
import SeqSlice.Flow.Loop

/-! Successors and predecessors of statements, and the redirection of edges. -/

set_option autoImplicit false
namespace SeqSlice

structure Links where
  succs : PointId → List PointId
  preds : PointId → List PointId

def pushNew {α : Type} [DecidableEq α] (values : List α) (value : α) : List α :=
  if value ∈ values then values else values ++ [value]

theorem mem_pushNew {α : Type} [DecidableEq α] {values : List α} {value other : α} :
    other ∈ pushNew values value ↔ other ∈ values ∨ other = value := by
  unfold pushNew
  split
  · next present => exact ⟨.inl, fun either => either.elim id fun same => same ▸ present⟩
  · simp

theorem nodup_pushNew {α : Type} [DecidableEq α] {values : List α} (unique : values.Nodup)
    (value : α) : (pushNew values value).Nodup := by
  unfold pushNew
  split
  · exact unique
  · next absent =>
      refine List.nodup_append.mpr ⟨unique, by simp, fun other member last same => ?_⟩
      intro again
      exact absent (List.mem_singleton.mp same ▸ again ▸ member)

namespace Links

def ofProgram (program : Program) : Links := ⟨program.succs, program.preds⟩

def remove (links : Links) (source target : PointId) : Links where
  succs point := if point = source then (links.succs point).filter (· != target) else links.succs point
  preds point := if point = target then (links.preds point).filter (· != source) else links.preds point

def add (links : Links) (source target : PointId) : Links where
  succs point := if point = source then pushNew (links.succs point) target else links.succs point
  preds point := if point = target then pushNew (links.preds point) source else links.preds point

def redirect (links : Links) (edge : BackEdge) (exits : List PointId) : Links :=
  (ascending exits).foldl (fun links exit => links.add edge.source exit)
    (links.remove edge.source edge.header)

end Links

structure CyclePlan where
  /-- Where each listed edge leads instead. An edge is listed once. -/
  redirections : List (BackEdge × List PointId)
  blocked : BlockedCalls
  deriving DecidableEq, Repr, Inhabited

namespace CyclePlan

def empty : CyclePlan := ⟨[], .empty⟩

def ofRows (rows : List (BackEdge × List PointId)) (blocked : BlockedCalls) : CyclePlan :=
  ⟨(rows.map (·.1)).eraseDups.map fun edge =>
    (edge, (rows.filter (·.1 == edge)).flatMap (·.2)), blocked⟩

def isEmpty (plan : CyclePlan) : Bool := plan.redirections.isEmpty && plan.blocked.isEmpty

def sortedRedirections (plan : CyclePlan) : List (BackEdge × List PointId) :=
  plan.redirections.mergeSort fun first second => first.1.le second.1

def links (plan : CyclePlan) (program : Program) : Links :=
  plan.sortedRedirections.foldl (fun links (edge, exits) => links.redirect edge exits)
    (.ofProgram program)

def namedPoints (plan : CyclePlan) : List PointId :=
  plan.sortedRedirections.flatMap fun (edge, exits) => edge.source :: edge.header :: exits

end CyclePlan

def Program.loopPlan (program : Program) : CyclePlan :=
  ⟨program.loopsByMethod.flatMap fun (_, loops) => loops.redirections, .empty⟩

end SeqSlice
