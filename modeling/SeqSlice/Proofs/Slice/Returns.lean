import SeqSlice.Proofs.Supergraph.Calls
import SeqSlice.Slice.BottomUp

/-! Which calls the backward pass returns to.

Behind several calls the backward view offers the methods of all of them, and each of
these calls is then a place to return to. What decides is whether the method counts
the call among its callers. This is as much as being entered by the call, except at a
specified statement: it enters nothing, but methods go on to count it. -/

set_option autoImplicit false
namespace SeqSlice

namespace Supergraph.RestoresOnce

variable {graph : Supergraph} {initializers : List MethodId}
  (once : graph.RestoresOnce initializers) {method : MethodId}
include once

theorem mem_callees_iff_mem_callers {point : PointId} (looked : graph.isSpecified point = false)
    (body : graph.program.hasBody method = true)
    (visible : graph.blockedMethods.contains method = false) :
    method ∈ graph.callees point ↔ point ∈ graph.callers method := by
  by_cases added : (point, method) ∈ graph.initializerCalls
  · -- An added call needs neither a body nor the call graph.
    have restored := (once point method added).2
    rw [restored.mem_callees_iff added, restored.mem_callers_iff added]
    exact iff_of_true looked visible
  · rw [(callsAgree_of_not_added added).mirrored]
    exact ⟨fun known => known.2.2, fun known => ⟨looked, body, known⟩⟩

theorem open_of_mem_callees {other : PointId} (entered : method ∈ graph.callees other)
    (visible : graph.blockedMethods.contains method = false) :
    graph.isExcluded method = false ∧ graph.isHidden method = false := by
  obtain ⟨_, included, ⟨_, _, shown, _⟩ | added⟩ := mem_callees.mp entered
  · exact ⟨included, shown⟩
  · exact ⟨included, (once other method added).2.isHidden_eq.trans visible⟩

end Supergraph.RestoresOnce

theorem Supergraph.mem_calleesBefore {graph : Supergraph} {point : PointId} {method : MethodId} :
    method ∈ graph.calleesBefore point ↔
      ∃ call ∈ graph.preds point, graph.isCall call = true ∧ method ∈ graph.callees call := by
  simp only [calleesBefore, List.mem_eraseDups, List.mem_flatMap, List.mem_filter, and_assoc]

namespace BottomUp

variable {graph : Supergraph} {criteria : Criteria}

theorem extended_ne_nil (point : PointId) (fact : Fact) : extended criteria point fact ≠ [] := by
  unfold extended
  split <;> exact List.cons_ne_nil _ _

theorem returnFlow_ne_nil_iff {callee : MethodId} {call : PointId} {fact : Fact} :
    returnFlow graph criteria callee call fact ≠ [] ↔ call ∈ graph.callers callee := by
  unfold returnFlow
  by_cases counted : call ∈ graph.callers callee
  · simp [counted, extended_ne_nil]
  · simp [counted]

section
variable {program : Program} {plan : CyclePlan} {config : Config}

/-- Of a method that is offered behind some statement, facts are carried out to just the
calls that it counts as callers. A call that is looked into is one of them if and only
if it enters the method; a specified statement is one by the call graph alone. -/
theorem returns_iff
    (built : Supergraph.build program criteria.specified plan config = .ok graph)
    {site : PointId} {callee : MethodId} (offered : callee ∈ graph.backward.callees site)
    (body : program.hasBody callee = true)
    (visible : callee ∉ Supergraph.methodsOfPackages program config.blockPackagePrefixes)
    (exit call : PointId) (fact : Fact) :
    ((problem graph criteria).ret site callee exit call fact ≠ [] ↔
        call ∈ graph.callers callee) ∧
      (call ∉ criteria.specified →
        ((problem graph criteria).ret site callee exit call fact ≠ [] ↔
          callee ∈ graph.callees call)) ∧
      (call ∈ criteria.specified →
        callee ∉ graph.callees call ∧
          ((problem graph criteria).ret site callee exit call fact ≠ [] ↔
            (callee ∈ program.callees call ∧ plan.blocked.contains call callee = false) ∨
              (call, callee) ∈ graph.initializerCalls)) := by
  obtain rfl := Supergraph.eq_assemble_of_build built
  have once := Supergraph.assemble_restoresOnce program criteria.specified plan config
  obtain ⟨calls, same⟩ := Supergraph.exists_assemble_eq program criteria.specified plan config
  have returns : (problem (Supergraph.assemble program criteria.specified plan config) criteria).ret
      site callee exit call fact ≠ [] ↔
        call ∈ (Supergraph.assemble program criteria.specified plan config).callers callee :=
    returnFlow_ne_nil_iff
  have looked : (Supergraph.assemble program criteria.specified plan config).isSpecified call =
      decide (call ∈ criteria.specified) := by
    simp [same, Supergraph.base, Supergraph.isSpecified, mem_ascending]
  have hidden : (Supergraph.assemble program criteria.specified plan config).blockedMethods.contains
      callee = false := by
    simpa [same] using visible
  have sameProgram : (Supergraph.assemble program criteria.specified plan config).program = program :=
    Supergraph.program_assemble
  refine ⟨returns, fun transparent => ?_, fun isSpecified => ⟨?_, ?_⟩⟩
  · rw [returns, once.mem_callees_iff_mem_callers (by simp [looked, transparent])
      (by rwa [sameProgram]) hidden]
  · intro entered
    have transparent := (Supergraph.mem_callees.mp entered).1
    simp [looked, isSpecified] at transparent
  · -- Some call enters the method, so of what makes a caller the call graph is left.
    obtain ⟨other, _, _, entered⟩ := Supergraph.mem_calleesBefore.mp offered
    obtain ⟨included, shown⟩ := once.open_of_mem_callees entered hidden
    rw [returns, Supergraph.mem_callers, sameProgram, Supergraph.blocked_assemble,
      Program.mem_callees_iff_mem_callers]
    simp [included, shown]

end
end BottomUp

/-- Two calls of the helper on the two ways of a branch. The first is a criterion that
is followed by the library call inside the helper. -/
def branchListing : Listing where
  entry := some 0
  classes := [⟨0, "Main", none, [], false, false⟩]
  methods := [⟨0, 0, "main", "", true, false, [0, 1, 2, 3]⟩,
    ⟨1, 0, "helper", "", true, false, [4, 5]⟩, ⟨2, 0, "api", "", true, false, []⟩]
  points := [⟨0, 0, 1, .plain, ""⟩, ⟨1, 0, 2, .call ⟨1, .static, none, [], none⟩, ""⟩,
    ⟨2, 0, 3, .call ⟨1, .static, none, [], none⟩, ""⟩, ⟨3, 0, 4, .plain, ""⟩,
    ⟨4, 1, 5, .call ⟨2, .static, none, [], none⟩, ""⟩, ⟨5, 1, 6, .plain, ""⟩]
  edges := [⟨0, 1, false⟩, ⟨0, 2, false⟩, ⟨1, 3, false⟩, ⟨2, 3, false⟩, ⟨4, 5, false⟩]
  calls := [⟨1, 1⟩, ⟨2, 1⟩, ⟨4, 2⟩]
  allocSites := []
  pointsTo := []

def branchProgram : Program := ⟨branchListing, 0, rfl, by decide⟩

def branchCriteria : Criteria := .ofList [.seq [1, 4]]

def branchGraph : Supergraph := Supergraph.assemble branchProgram [1] .empty .default

theorem branchCriteria_specified : branchCriteria.specified = [1] := by cbv

theorem branchGraph_built :
    Supergraph.build branchProgram branchCriteria.specified .empty .default = .ok branchGraph := by
  rw [branchCriteria_specified]
  refine Supergraph.build_of_known .default ?_
  have named : CyclePlan.empty.namedPoints = [] := by cbv
  rw [named]
  decide

theorem branchGraph_offers : branchGraph.backward.callees 3 = [1] := by cbv

theorem branchProgram_returns :
    Supergraph.build branchProgram branchCriteria.specified .empty .default = .ok branchGraph ∧
      1 ∈ branchGraph.backward.callees 3 ∧
      (BottomUp.problem branchGraph branchCriteria).ret 3 1 4 1 (.seq [4]) ≠ [] ∧
      (BottomUp.problem branchGraph branchCriteria).ret 3 1 4 2 (.seq [4]) ≠ [] ∧
      1 ∈ branchGraph.callees 2 := by
  have offered : 1 ∈ branchGraph.backward.callees 3 := by simp [branchGraph_offers]
  have visible : 1 ∉ Supergraph.methodsOfPackages branchProgram
      Config.default.blockPackagePrefixes := by
    have none : Supergraph.methodsOfPackages branchProgram Config.default.blockPackagePrefixes =
        [] := by cbv
    simp [none]
  have first := BottomUp.returns_iff branchGraph_built offered (by decide) visible 4 1 (.seq [4])
  have second := BottomUp.returns_iff branchGraph_built offered (by decide) visible 4 2 (.seq [4])
  have entered : branchGraph.callees 2 = [1] := by cbv
  refine ⟨branchGraph_built, offered, ?_, ?_, by simp [entered]⟩
  · refine (first.2.2 (by simp [branchCriteria_specified])).2.mpr (.inl ⟨by decide, by decide⟩)
  · exact (second.2.1 (by simp [branchCriteria_specified])).mpr (by simp [entered])

/-- The fact is carried out to the specified call, and the pass keeps it there. -/
theorem specifiedCall_returned_to :
    Supergraph.build branchProgram branchCriteria.specified .empty .default = .ok branchGraph ∧
      1 ∈ branchGraph.backward.callees 3 ∧ 1 ∈ branchGraph.preds 3 ∧ Fact.seq [4] ≠ .zero ∧
      (BottomUp.problem branchGraph branchCriteria).ret 3 1 4 1 (.seq [4]) = [.seq [4]] ∧
      1 ∉ branchGraph.callees 1 ∧
      (BottomUp.solve branchGraph branchCriteria).holds 1 (.seq [4]) = true := by
  have before : branchGraph.preds 3 = [1, 2] := by cbv
  have enters : branchGraph.callees 1 = [] := by cbv
  have flow : BottomUp.returnFlow branchGraph branchCriteria 1 1 (.seq [4]) = [.seq [4]] := by cbv
  exact ⟨branchGraph_built, by simp [branchGraph_offers], by simp [before], by simp [Fact.zero],
    flow, by simp [enters], by cbv⟩

end SeqSlice
