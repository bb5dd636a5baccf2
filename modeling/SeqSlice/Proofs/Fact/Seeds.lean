import Mathlib.Data.List.Permutation
import SeqSlice.Fact.Criteria
import SeqSlice.Proofs.Fact.Order

/-! The facts from which the forward pass sets out under an extension relation: the
longest ones that end with a whole criterion. A complete match is not lost with the
fact that extends it, since what ends with that one's end is complete as well. -/

set_option autoImplicit false
namespace SeqSlice

namespace Criteria

variable {criteria : Criteria} {facts : List Fact}

def Completed (criteria : Criteria) (fact : Fact) : Prop :=
  ∃ criterion ∈ criteria.sequences, criterion = fact ∨ criterion.Ends fact

theorem Completed.extended {fact longer : Fact} (complete : criteria.Completed fact)
    (ends : fact.Ends longer) : criteria.Completed longer := by
  obtain ⟨criterion, member, rfl | before⟩ := complete
  · exact ⟨criterion, member, .inr ends⟩
  · exact ⟨criterion, member, .inr (before.trans ends)⟩

theorem mem_seeds (extending : criteria.hasExtension = true) {fact : Fact} :
    fact ∈ criteria.seeds facts ↔
      fact ∈ facts ∧ (∀ other ∈ facts, ¬ fact.Ends other) ∧ criteria.Completed fact := by
  rw [seeds, if_pos extending, Fact.mem_sorted]
  simp only [List.mem_filter, Bool.not_eq_true', List.any_eq_false, List.any_eq_true,
    Fact.isStrictSuffixOf_iff, Bool.or_eq_true, beq_iff_eq, and_assoc, Completed]

structure LongestMatches (criteria : Criteria) (facts seeds : List Fact) : Prop where
  sorted : seeds.Pairwise fun first second => Fact.order first second = .lt
  subset : seeds ⊆ facts
  longest : ∀ seed ∈ seeds, ∀ fact ∈ facts, ¬ seed.Ends fact
  complete : ∀ seed ∈ seeds, criteria.Completed seed
  covered : ∀ fact ∈ facts, criteria.Completed fact → ∃ seed ∈ seeds, fact = seed ∨ fact.Ends seed

/-- With extension the seeds are the longest complete matches, in order, and each complete
match is one of them or ends one. -/
theorem seeds_longest (extending : criteria.hasExtension = true) (facts : List Fact) :
    criteria.LongestMatches facts (criteria.seeds facts) := by
  constructor
  · unfold seeds
    exact Fact.sorted_strict _
  · exact fun seed member => ((mem_seeds extending).mp member).1
  · exact fun seed member => ((mem_seeds extending).mp member).2.1
  · exact fun seed member => ((mem_seeds extending).mp member).2.2
  · intro fact member complete
    -- The longest fact above it is a seed, since it ends with the same criterion.
    obtain ⟨longest, listed, above, last⟩ := Fact.exists_longest member
    have completeToo : criteria.Completed longest := by
      rcases above with rfl | ends
      · exact complete
      · exact complete.extended ends
    exact ⟨longest, (mem_seeds extending).mpr ⟨listed, last, completeToo⟩, above⟩

end Criteria

/-- Two criteria of one tail, and a call that may stand before the first of them. -/
def relayedCriteria : Criteria := ⟨[.seq [1, 2, 3], .seq [4, 3]], ⟨[(1, [7])]⟩⟩

/-- The first criterion is left to the match that extends it. A longer fact that ends with
no criterion is dropped, and so are zero and `epsilon`. -/
theorem relayedCriteria_longest :
    relayedCriteria.hasExtension = true ∧
      relayedCriteria.LongestMatches
        [.seq [3], .zero, .seq [2, 3], .seq [1, 2, 3], .epsilon, .seq [7, 1, 2, 3], .seq [4, 3],
          .seq [9, 2, 3]]
        [.seq [4, 3], .seq [7, 1, 2, 3]] := by
  have evaluated : relayedCriteria.seeds
      [.seq [3], .zero, .seq [2, 3], .seq [1, 2, 3], .epsilon, .seq [7, 1, 2, 3], .seq [4, 3],
        .seq [9, 2, 3]] = [.seq [4, 3], .seq [7, 1, 2, 3]] := by cbv
  exact ⟨rfl, evaluated ▸ Criteria.seeds_longest rfl _⟩

end SeqSlice
