import Mathlib
import SeqSlice.Proofs.Solver.Order
import SeqSlice.Proofs.Supergraph.Assembled
import SeqSlice.Slice.BottomUp

/-! What holds at an exit gets back to the calls that it answers.

This is so for every exit that is not a call statement. An exit that is one leaves no
summary, and facts stay behind in the method. Read backwards, this is the first
statement of a body that begins with a loop, if the loop ends with a call. -/

set_option autoImplicit false
namespace SeqSlice
namespace Tabulation

variable {D : Type} [DecidableEq D]

/-- Each fact at the exit is handed to every call that entered the method with the
fact from which it comes. -/
def HandsBack (graph : InterGraph) (problem : FlowProblem D) (table : Tabulation D)
    (exit : PointId) : Prop :=
  ∀ caller ∈ table.edges, ∀ leaving ∈ table.edges, leaving.point = exit →
    graph.isCall caller.point = true → graph.methodOf exit ∈ graph.callees caller.point →
    graph.starts (graph.methodOf exit) ≠ [] →
    leaving.entry ∈ problem.apply (problem.call caller.point (graph.methodOf exit)) caller.fact →
    ∀ next ∈ graph.returnSites caller.point,
      ∀ image ∈ problem.apply (problem.ret caller.point (graph.methodOf exit) exit next) leaving.fact,
        ⟨next, caller.entry, image⟩ ∈ table.edges

variable {graph : InterGraph} {problem : FlowProblem D}

theorem Runs.summaries_noCall {taken : List (PathEdge D)} {table : Tabulation D}
    (runs : Runs graph problem taken table) :
    ∀ record ∈ table.summaries, graph.isCall record.exit = false := by
  induction runs with
  | seeds => simp [start, empty]
  | @step _ edge _ _ _ taking ih =>
      refine taking.keeps (∀ record ∈ ·.summaries, graph.isCall record.exit = false) ?_ ?_
      · intro rest _ record member
        rcases mem_summaries_recorded.mp member with known | ⟨noCall, _, new⟩
        · exact ih record known
        · obtain ⟨start, _, rfl⟩ := mem_exitRecords.mp new
          exact noCall
      · intro table other _ kept
        rw [summaries_propagate]
        exact kept

/-- All exits hand back, calls apart, and these leave no summary. -/
theorem exits_hand_back {taken : List (PathEdge D)} {table : Tabulation D}
    (ended : Ends graph problem taken table) :
    (∀ exit, graph.isExit exit = true → graph.isCall exit = false →
      HandsBack graph problem table exit) ∧
    ∀ record ∈ table.summaries, graph.isCall record.exit = false := by
  refine ⟨?_, ended.runs.summaries_noCall⟩
  rintro _ isExit noCall caller held leaving known rfl isCall called some carried next returns image
    left
  -- A call reaches a method by its starts, so without any it could not answer.
  obtain ⟨start, starts⟩ := List.exists_mem_of_ne_nil _ some
  have answers : Answers graph problem caller leaving :=
    ⟨start, mem_entries.mpr ⟨called, starts, carried⟩⟩
  exact ended.runs.saturated.returned caller leaving (ended.finished held) (ended.finished known)
    isCall noCall isExit answers _ ⟨next, returns, image, left, rfl⟩

end Tabulation

open Tabulation

theorem twoCalls_hand_back :
    ∃ taken, Ends twoCalls twoCallsFlows taken (solve twoCalls twoCallsFlows 6 2) ∧
      twoCalls.isExit 5 = true ∧ twoCalls.isCall 5 = false ∧
      HandsBack twoCalls twoCallsFlows (solve twoCalls twoCallsFlows 6 2) 5 ∧
      ⟨3, 0, 1⟩ ∈ (solve twoCalls twoCallsFlows 6 2).edges := by
  obtain ⟨taken, ended⟩ := ends_solve twoCalls_within (Nat.le_refl 6) (Nat.le_refl 2)
  have back := (exits_hand_back ended).1 5 (by decide) (by decide)
  refine ⟨taken, ended, by decide, by decide, back, ?_⟩
  exact back ⟨2, 0, 1⟩ (by decide) ⟨5, 1, 1⟩ (by decide) rfl (by decide) (by decide) (by decide)
    (by decide) 3 (by decide) 1 (by decide)

/-! ## An exit that is a call -/

/-- The entry calls a helper, whose body begins with a loop around a library call. -/
def loopedListing : Listing where
  entry := some 0
  classes := [⟨0, "Main", none, [], false, false⟩]
  methods := [⟨0, 0, "main", "", true, false, [0, 1]⟩, ⟨1, 0, "helper", "", true, false, [2, 3, 4]⟩,
    ⟨2, 0, "api", "", true, false, []⟩]
  points := [⟨0, 0, 1, .call ⟨1, .static, none, [], none⟩, ""⟩, ⟨1, 0, 2, .plain, ""⟩,
    ⟨2, 1, 3, .plain, ""⟩, ⟨3, 1, 4, .call ⟨2, .static, none, [], none⟩, ""⟩, ⟨4, 1, 5, .plain, ""⟩]
  edges := [⟨0, 1, false⟩, ⟨2, 3, false⟩, ⟨3, 2, false⟩, ⟨2, 4, false⟩]
  calls := [⟨0, 1⟩, ⟨3, 2⟩]
  allocSites := []
  pointsTo := []

def loopedProgram : Program := ⟨loopedListing, 0, rfl, by decide⟩

def loopedGraph : Supergraph := Supergraph.assemble loopedProgram [] .empty .default

def loopedCriteria : Criteria := .ofList [.seq [3]]

theorem loopedGraph_edges : (BottomUp.solve loopedGraph loopedCriteria).edges =
    [⟨2, .zero, .seq [3]⟩, ⟨3, .zero, .seq [3]⟩, ⟨3, .zero, .zero⟩, ⟨2, .zero, .zero⟩,
      ⟨0, .zero, .zero⟩, ⟨4, .zero, .zero⟩, ⟨1, .zero, .zero⟩] := by cbv

/-- The library call is a criterion. It is found inside the helper, but not carried
from there to the call of the helper. -/
theorem loopedGraph_keeps_inside :
    Supergraph.build loopedProgram loopedCriteria.specified .empty .default = .ok loopedGraph ∧
      (∃ taken, Ends loopedGraph.backward.toInterGraph (BottomUp.problem loopedGraph loopedCriteria)
        taken (BottomUp.solve loopedGraph loopedCriteria)) ∧
      loopedGraph.backward.isExit 2 = true ∧
      ¬ HandsBack loopedGraph.backward.toInterGraph (BottomUp.problem loopedGraph loopedCriteria)
        (BottomUp.solve loopedGraph loopedCriteria) 2 := by
  have built : Supergraph.build loopedProgram loopedCriteria.specified .empty .default =
      .ok loopedGraph := by
    have none : loopedCriteria.specified = [] := by cbv
    rw [none]
    refine Supergraph.build_of_known .default fun point named => ?_
    have nothing : CyclePlan.empty.namedPoints ++ [] = [] := by cbv
    simp [nothing] at named
  have drained : (BottomUp.solve loopedGraph loopedCriteria).pending = [] := by cbv
  obtain ⟨taken, runs, _⟩ := runs_run loopedGraph.backward.toInterGraph
    (BottomUp.problem loopedGraph loopedCriteria)
    (loopedGraph.program.points.length * (BottomUp.factBound loopedCriteria *
      BottomUp.factBound loopedCriteria))
  have ended : Ends loopedGraph.backward.toInterGraph (BottomUp.problem loopedGraph loopedCriteria)
      taken (BottomUp.solve loopedGraph loopedCriteria) := ⟨runs, drained⟩
  have isExit : loopedGraph.backward.isExit 2 = true := by cbv
  refine ⟨built, ⟨taken, ended⟩, isExit, fun back => ?_⟩
  -- Point 2 is a call as well, since the library call leads to it.
  have method : loopedGraph.backward.methodOf 2 = 1 := by cbv
  have isCall : loopedGraph.backward.isCall 1 = true := by cbv
  have callees : loopedGraph.backward.callees 1 = [1] := by cbv
  have starts : loopedGraph.backward.starts 1 = [4] := by cbv
  have sites : loopedGraph.backward.returnSites 1 = [0] := by cbv
  have returned : BottomUp.returnFlow loopedGraph loopedCriteria 1 0 (.seq [3]) = [.seq [3]] := by cbv
  have missing := back ⟨1, .zero, .zero⟩ (by simp [loopedGraph_edges]) ⟨2, .zero, .seq [3]⟩
    (by simp [loopedGraph_edges]) rfl isCall (by simp [method, callees]) (by simp [method, starts])
    (by simp [FlowProblem.mem_apply, BottomUp.problem]) 0 (by simp [sites]) (.seq [3])
    (by simp [FlowProblem.mem_apply, BottomUp.problem, method, returned])
  simp [loopedGraph_edges, Fact.zero] at missing

end SeqSlice
