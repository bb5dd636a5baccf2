import Mathlib
import SeqSlice.Proofs.Solver.Path
import SeqSlice.Proofs.Supergraph.Assembled
import SeqSlice.Slice.Run

/-! Whether a body starts at its first statement.

The forward pass sets out from the first statement of the entry, but calls enter at
starts, and the seeds are read there too. Starts are the statements without
predecessor, the handlers among them, and only a body without any of these starts at
its first statement for that reason alone. So a loop back to the first statement takes
this out of the starts as soon as another statement has no predecessor. -/

set_option autoImplicit false
namespace SeqSlice

namespace Program

/-- Nothing leads to the first statement of the body, or something leads to each. -/
def BeginsFirst (program : Program) (method : MethodId) : Prop :=
  (∀ first ∈ (program.body method).head?, program.preds first = []) ∨
    ∀ point ∈ program.body method, program.preds point ≠ []

variable {program : Program} {method : MethodId} {first : PointId}

theorem mem_starts_iff_of_exists {point : PointId}
    (free : ∃ other ∈ program.body method, program.preds other = []) :
    point ∈ program.starts method ↔ point ∈ program.body method ∧ program.preds point = [] := by
  obtain ⟨other, inBody, none⟩ := free
  have listed : other ∈ (program.body method).filter fun point => (program.preds point).isEmpty :=
    List.mem_filter.mpr ⟨inBody, by simp [none]⟩
  unfold starts
  split
  · next nothing => simp [nothing] at listed
  · next nonempty => rw [List.mem_filter, List.isEmpty_iff]

theorem first_mem_starts_iff (begins : (program.body method).head? = some first) :
    first ∈ program.starts method ↔ program.BeginsFirst method := by
  have inBody : first ∈ program.body method := List.mem_of_head? begins
  simp only [BeginsFirst, begins, Option.mem_some_iff, forall_eq']
  by_cases free : ∃ other ∈ program.body method, program.preds other = []
  · rw [mem_starts_iff_of_exists free]
    obtain ⟨other, listed, none⟩ := free
    exact ⟨fun known => .inl known.2, fun either => ⟨inBody, either.resolve_right fun all =>
      all other listed none⟩⟩
  · -- Every statement has a predecessor, and the first one stands in for a start.
    have all : ∀ point ∈ program.body method, program.preds point ≠ [] :=
      fun point listed none => free ⟨point, listed, none⟩
    have nothing : (program.body method).filter (fun point => (program.preds point).isEmpty) = [] := by
      simpa [List.filter_eq_nil_iff] using all
    refine iff_of_true ?_ (.inr all)
    rw [starts, nothing]
    exact List.mem_of_head? (by simp [List.head?_take, begins])

end Program

section
variable {graph : Supergraph} {D : Type} [DecidableEq D] {problem : FlowProblem D}
  {stack : List Frame} {site : PointId} {callee : MethodId} {fact image : D}

theorem Supergraph.mem_starts_of_entered {start : PointId}
    (step : PathStep graph.forward.toInterGraph problem ⟨stack, site, fact⟩
      ⟨⟨site, callee⟩ :: stack, start, image⟩) : start ∈ graph.program.starts callee := by
  generalize entered : (⟨⟨site, callee⟩ :: stack, start, image⟩ : PathState D) = after at step
  cases step <;> cases entered
  assumption

theorem Supergraph.enters_first_iff {first : PointId}
    (begins : (graph.program.body callee).head? = some first)
    (isCall : graph.isCall site = true) (called : callee ∈ graph.callees site)
    (carried : image ∈ problem.apply (problem.call site callee) fact) :
    PathStep graph.forward.toInterGraph problem ⟨stack, site, fact⟩
        ⟨⟨site, callee⟩ :: stack, first, image⟩ ↔ graph.program.BeginsFirst callee := by
  rw [← Program.first_mem_starts_iff begins]
  exact ⟨mem_starts_of_entered, fun starts => .enter isCall called starts carried⟩

end

theorem SliceRun.mem_factsAtStart {run : SliceRun} {first : PointId}
    (begins : TopDown.start? run.graph = some first)
    (beginsFirst : run.graph.program.BeginsFirst run.graph.program.entry) :
    ∀ fact ∈ run.bottomUp.factsAt first, fact ∈ run.factsAtStart := by
  intro fact built
  rw [factsAtStart, List.mem_eraseDups, List.mem_flatMap]
  exact ⟨first, (Program.first_mem_starts_iff begins).mpr beginsFirst, built⟩

/-- The first statement is a start of its method under one condition on the body. It is
then among the places that seeds are read from, if the method is the entry, and every
call of the method steps to it; under no other condition does any call. -/
theorem body_starts_first_iff {program : Program} {method : MethodId} {first : PointId}
    (begins : (program.body method).head? = some first) :
    (first ∈ program.starts method ↔ program.BeginsFirst method) ∧
    (∀ run : SliceRun, run.graph.program = program → program.entry = method →
      program.BeginsFirst method →
        TopDown.start? run.graph = some first ∧
          ∀ fact ∈ run.bottomUp.factsAt first, fact ∈ run.factsAtStart) ∧
    (∀ graph : Supergraph, graph.program = program → ∀ site, graph.isCall site = true →
      method ∈ graph.callees site →
      ∀ (problem : FlowProblem Fact) stack fact,
        ∀ image ∈ problem.apply (problem.call site method) fact,
          (PathStep graph.forward.toInterGraph problem ⟨stack, site, fact⟩
            ⟨⟨site, method⟩ :: stack, first, image⟩ ↔ program.BeginsFirst method)) := by
  refine ⟨Program.first_mem_starts_iff begins, ?_, ?_⟩
  · rintro run rfl rfl beginsFirst
    exact ⟨begins, run.mem_factsAtStart begins beginsFirst⟩
  · rintro graph rfl site isCall called problem stack fact image carried
    exact Supergraph.enters_first_iff begins isCall called carried

/-- Both helpers begin with a loop around their second statement. The second one has a
handler besides. -/
def handlerListing : Listing where
  entry := some 0
  classes := [⟨0, "Main", none, [], false, false⟩]
  methods := [⟨0, 0, "main", "", true, false, [0, 1]⟩, ⟨1, 0, "looped", "", true, false, [2, 3, 4]⟩,
    ⟨2, 0, "guarded", "", true, false, [5, 6, 7, 8]⟩]
  points := [⟨0, 0, 1, .call ⟨1, .static, none, [], none⟩, ""⟩,
    ⟨1, 0, 2, .call ⟨2, .static, none, [], none⟩, ""⟩, ⟨2, 1, 3, .plain, ""⟩, ⟨3, 1, 4, .plain, ""⟩,
    ⟨4, 1, 5, .plain, ""⟩, ⟨5, 2, 6, .plain, ""⟩, ⟨6, 2, 7, .plain, ""⟩, ⟨7, 2, 8, .plain, ""⟩,
    ⟨8, 2, 9, .catchEntry, ""⟩]
  edges := [⟨0, 1, false⟩, ⟨2, 3, false⟩, ⟨3, 2, false⟩, ⟨3, 4, false⟩, ⟨5, 6, false⟩, ⟨6, 5, false⟩,
    ⟨6, 7, false⟩, ⟨8, 7, false⟩]
  calls := [⟨0, 1⟩, ⟨1, 2⟩]
  allocSites := []
  pointsTo := []

def handlerProgram : Program := ⟨handlerListing, 0, rfl, by decide⟩

def handlerGraph : Supergraph := Supergraph.assemble handlerProgram [] .empty .default

theorem looped_starts_first :
    (handlerProgram.body 1).head? = some 2 ∧ handlerProgram.preds 2 = [3] ∧
      2 ∈ handlerProgram.starts 1 ∧
      ∀ (problem : FlowProblem Fact) fact, ∀ image ∈ problem.apply (problem.call 0 1) fact,
        PathStep handlerGraph.forward.toInterGraph problem ⟨[], 0, fact⟩ ⟨[⟨0, 1⟩], 2, image⟩ := by
  have begins : (handlerProgram.body 1).head? = some 2 := by decide
  have beginsFirst : handlerProgram.BeginsFirst 1 := .inr (by decide)
  obtain ⟨starts, _, enters⟩ := body_starts_first_iff begins
  have called : handlerGraph.callees 0 = [1] := by cbv
  refine ⟨begins, by decide, starts.mpr beginsFirst, fun problem fact image carried => ?_⟩
  exact (enters handlerGraph Supergraph.program_assemble 0 (by cbv) (by simp [called]) problem []
    fact image carried).mpr beginsFirst

/-- The call enters the handler and nothing else, and the body is never begun. -/
theorem guarded_starts_at_handler :
    (handlerProgram.body 2).head? = some 5 ∧ handlerProgram.starts 2 = [8] ∧
      2 ∈ handlerGraph.forward.callees 1 ∧
      ∀ (problem : FlowProblem Fact) fact image,
        ¬ PathStep handlerGraph.forward.toInterGraph problem ⟨[], 1, fact⟩ ⟨[⟨1, 2⟩], 5, image⟩ := by
  have starts : handlerProgram.starts 2 = [8] := by decide
  have called : handlerGraph.callees 1 = [2] := by cbv
  refine ⟨by decide, starts, by simp [Supergraph.forward, Supergraph.forwardWhere, called], ?_⟩
  intro problem fact image step
  have here := Supergraph.mem_starts_of_entered step
  rw [handlerGraph, Supergraph.program_assemble, starts] at here
  exact absurd here (by decide)

end SeqSlice
