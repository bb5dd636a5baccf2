import SeqSlice.Proofs.Slice.Bound
import SeqSlice.Proofs.Solver.Simulation

/-! Without extension the backward pass builds ends of criteria, and with a match it
builds every end of that match at the same statement: a pass that put fewer calls
before the others on the way would come by there too. -/

set_option autoImplicit false
namespace SeqSlice

namespace Fact

def lastCalls (count : Nat) : Fact → Fact
  | .epsilon => .epsilon
  | .seq calls => .seq (calls.drop (calls.length - count))

theorem lastCalls_of_le {count : Nat} {fact : Fact} (few : fact.length ≤ count) :
    fact.lastCalls count = fact := by
  cases fact with
  | epsilon => rfl
  | seq calls =>
      have none : calls.length - count = 0 := Nat.sub_eq_zero_of_le few
      rw [lastCalls, none, List.drop_zero]

theorem lastCalls_addHead {count : Nat} {calls : List PointId} (enough : count ≤ calls.length)
    (call : PointId) :
    ((Fact.seq calls).addHead call).lastCalls count = (Fact.seq calls).lastCalls count := by
  have taken : (call :: calls).length - count = calls.length - count + 1 := by
    rw [List.length_cons]
    omega
  rw [addHead, points, lastCalls, taken, List.drop_succ_cons, lastCalls]

theorem lastCalls_eq_zero_iff {count : Nat} (positive : 0 < count) {fact : Fact} :
    fact.lastCalls count = zero ↔ fact = zero := by
  cases fact with
  | epsilon => simp [lastCalls, zero]
  | seq calls =>
      simp only [lastCalls, zero, seq.injEq, List.drop_eq_nil_iff]
      rw [← List.length_eq_zero_iff]
      omega

theorem lastCalls_of_suffix {rest calls : List PointId} (ends : rest <:+ calls) :
    (Fact.seq calls).lastCalls rest.length = .seq rest := by
  rw [lastCalls, ← List.suffix_iff_eq_drop.mp ends]

end Fact

namespace BottomUp

variable {graph : Supergraph} {criteria : Criteria}

/-- The pass follows itself when only so many calls of its matches count. -/
theorem follows_lastCalls (asTheyAre : criteria.hasExtension = false) {count : Nat}
    (positive : 0 < count) :
    (problem graph criteria).Follows graph.backward.toInterGraph
      (fun fact other => other = fact.lastCalls count) (problem graph criteria) := by
  constructor
  · exact ((Fact.lastCalls_eq_zero_iff positive).mpr rfl).symm
  · rintro fact _ rfl
    exact (Fact.lastCalls_eq_zero_iff positive).symm
  · intro seed listed
    obtain ⟨last, _, rfl⟩ := List.mem_map.mp listed
    exact ⟨_, listed, ((Fact.lastCalls_eq_zero_iff positive).mpr rfl).symm⟩
  · exact fun _ _ => .identity
  · exact fun _ _ _ => .identity
  · rintro _ callee _ call fact _ rfl image member
    simp only [problem, returnFlow, extended, extends?, asTheyAre, Bool.false_and,
      Bool.false_eq_true, if_false] at member ⊢
    split at member
    · next enters =>
        rw [List.mem_singleton.mp member, if_pos enters]
        exact ⟨_, List.mem_singleton_self _, rfl⟩
    · cases member
  · rintro _ call fact _ rfl image member
    rcases of_mem_aroundFlow member with rfl | ⟨rfl, _⟩
    · exact ⟨_, self_mem_aroundFlow call _, rfl⟩
    · -- The new call counts if there is still room for it.
      by_cases room : fact.length < count
      · have whole : (fact.addHead call).lastCalls count = fact.addHead call :=
          Fact.lastCalls_of_le room
        rw [Fact.lastCalls_of_le (Nat.le_of_lt room)]
        exact ⟨_, member, whole.symm⟩
      · cases fact with
        | epsilon => exact absurd positive room
        | seq calls =>
            exact ⟨_, self_mem_aroundFlow call _, (Fact.lastCalls_addHead (Nat.le_of_not_lt room) call).symm⟩

end BottomUp

namespace SliceRun

variable {run : SliceRun} {program : Program} {config : Config} {sequences : List Fact}
variable (plain : run.Plain program config sequences)
include plain

theorem Plain.criterion_of_builds {point : PointId} {fact : Fact} (builds : run.Builds point fact) :
    ∃ calls, fact = .seq calls ∧ calls ≠ [] ∧
      ∃ criterion ∈ run.criteria.sequences, calls <:+ criterion.points := by
  have within := BottomUp.within_facts plain.linked plain.hasExtension
  have known : fact ∈ BottomUp.facts run.criteria := Tabulation.mem_of_holds within builds.1
  rcases List.mem_cons.mp known with isZero | ends
  · exact absurd isZero builds.2
  · obtain ⟨criterion, member, listed⟩ := List.mem_flatMap.mp ends
    obtain ⟨calls, left, rfl⟩ := List.mem_map.mp listed
    obtain ⟨some, isEnd⟩ := mem_rests.mp left
    exact ⟨calls, rfl, some, criterion, member, isEnd⟩

theorem Plain.builds_suffix {point : PointId} {rest calls : List PointId}
    (builds : run.Builds point (.seq calls)) (some : rest ≠ []) (ends : rest <:+ calls) :
    run.Builds point (.seq rest) := by
  have within := BottomUp.within_facts plain.linked plain.hasExtension
  have few := Nat.le_of_eq (BottomUp.length_facts plain.hasExtension)
  obtain ⟨_, rfl, found⟩ := Tabulation.holds_of_follows plain.linked.backward_local
    (BottomUp.follows_lastCalls plain.hasExtension (List.length_pos_of_ne_nil some)) within within
    (by simp [Program.pointIds]) few few builds.1
  rw [Fact.lastCalls_of_suffix ends] at found
  exact ⟨found, by simpa [Fact.zero] using some⟩

end SliceRun
end SeqSlice
