import SeqSlice.Proofs.Slice.Bound
import SeqSlice.Proofs.Solver.Simulation

/-! The forward pass with and without extension, set out with the same matches.

With extension a call that is waited for is taken off where it enters a method, too.
Less is then left of a match than without, behind the call and inside of it. If no call
but the last of a match can be waited for where a method is entered, the difference
is that call. -/

set_option autoImplicit false
namespace SeqSlice

def Criteria.bare (criteria : Criteria) : Criteria := { criteria with extension := .empty }

namespace TopDown

variable {graph : Supergraph} {criteria : Criteria} {config : Config} {first : PointId}
  {seeds : List Fact} {fact other : Fact}

def EndsWith (fact other : Fact) : Prop :=
  (fact = .zero ∧ other = .zero) ∨
    ∃ rest ending, fact = Fact.left rest ∧ other = Fact.left ending ∧ ending <:+ rest

theorem EndsWith.refl_left (rest : List PointId) : EndsWith (Fact.left rest) (Fact.left rest) :=
  .inr ⟨rest, rest, rfl, rfl, List.suffix_refl rest⟩

theorem pop_zero (call : PointId) : pop call .zero = .zero := rfl

theorem EndsWith.pop_right (ends : EndsWith fact other) (call : PointId) :
    EndsWith fact (pop call other) := by
  rcases ends with ⟨rfl, rfl⟩ | ⟨rest, ending, rfl, rfl, short⟩
  · exact .inl ⟨rfl, pop_zero call⟩
  · refine .inr ⟨rest, _, rfl, pop_left call ending, ?_⟩
    split
    · exact (List.tail_suffix ending).trans short
    · exact short

theorem EndsWith.pop (ends : EndsWith fact other) (call : PointId) :
    EndsWith (pop call fact) (pop call other) := by
  -- Where the first waits for something else, only the second may lose a call.
  have right := ends.pop_right call
  rcases ends with ⟨rfl, -⟩ | ⟨rest, ending, rfl, rfl, short⟩
  · exact right
  · rw [pop_left, pop_left]
    refine .inr ⟨_, _, rfl, rfl, ?_⟩
    by_cases waits : rest.head? = some call
    · -- If both wait for the call, both lose it; a shorter list is in the tail already.
      rw [if_pos waits]
      obtain ⟨others, rfl⟩ := List.head?_eq_some_iff.mp waits
      rcases List.suffix_cons_iff.mp short with rfl | inside
      · rw [if_pos waits]
      · split
        · exact (List.tail_suffix ending).trans inside
        · exact inside
    · rw [if_neg waits]
      split
      · exact (List.tail_suffix ending).trans short
      · exact short

theorem aroundFlow_matches {related : Fact → Fact → Prop} {site : PointId}
    (popped : ∀ fact other, related fact other → related (pop site fact) (pop site other)) :
    FlowsMatch related (aroundFlow graph criteria config site)
      (aroundFlow graph criteria config site) := by
  intro fact other agree image member
  by_cases isPoint : criteria.isPoint site = true
  · simp only [aroundFlow, if_pos isPoint, List.mem_singleton] at member ⊢
    exact ⟨_, rfl, member ▸ popped fact other agree⟩
  · by_cases enters : entersCallee graph config site = true
    · simp only [aroundFlow, if_neg isPoint, if_pos enters, List.not_mem_nil] at member
    · simp only [aroundFlow, if_neg isPoint, if_neg enters, List.mem_singleton] at member ⊢
      exact ⟨_, rfl, member ▸ agree⟩

/-- What is taken off on entering a method does not come back, so at most more is taken
off. -/
theorem follows_bare (inter : InterGraph) (proper : ∀ seed ∈ seeds, seed = Fact.left seed.points) :
    (problem graph criteria.bare config first seeds).Follows inter EndsWith
      (problem graph criteria config first seeds) := by
  constructor
  · exact .inl ⟨rfl, rfl⟩
  · rintro _ _ (⟨rfl, rfl⟩ | ⟨rest, ending, rfl, rfl, -⟩)
    · exact Iff.rfl
    · exact iff_of_false (Fact.left_ne_zero rest) (Fact.left_ne_zero ending)
  · intro seed listed
    refine ⟨seed.2, listed, ?_⟩
    obtain ⟨fact, member, rfl⟩ := List.mem_map.mp listed
    rcases List.mem_append.mp member with isSeed | isZero
    · rw [proper fact isSeed]
      exact .refl_left fact.points
    · exact .inl ⟨List.mem_singleton.mp isZero, List.mem_singleton.mp isZero⟩
  · exact fun _ _ => .identity
  · rintro site _ _ fact other ends _ member
    rw [List.mem_singleton.mp member]
    simp only [problem, callFlow]
    split
    -- Only the pass with extension takes a call off here.
    · exact ⟨_, List.mem_singleton_self _, ends.pop_right site⟩
    · exact ⟨_, List.mem_singleton_self _, ends⟩
  · exact fun _ _ _ _ => .identity
  · exact fun site _ => aroundFlow_matches fun _ _ ends => ends.pop site

/-- The same, unless the first has taken the last call off where it enters a method and
the second has yet to come past it. -/
def Precedes (tail : PointId) (seeds : List Fact) (fact other : Fact) : Prop :=
  fact ∈ facts seeds ∧ (other = fact ∨ fact = .epsilon ∧ other = .seq [tail])

theorem Precedes.pop {tail : PointId} (precedes : Precedes tail seeds fact other) (call : PointId) :
    Precedes tail seeds (pop call fact) (pop call other) := by
  obtain ⟨known, rfl | ⟨rfl, rfl⟩⟩ := precedes
  · exact ⟨pop_closed known, .inl rfl⟩
  · refine ⟨known, ?_⟩
    by_cases same : tail = call
    · exact .inl (by simp [TopDown.pop, Fact.head?, Fact.points, Fact.removeHead, same])
    · exact .inr ⟨rfl, by simp [TopDown.pop, Fact.head?, Fact.points, same]⟩

/-- If only the last call of a match can be waited for where a method is entered, the
pass without extension is behind by this call and no other. -/
theorem bare_follows {inter : InterGraph} {tail : PointId}
    (proper : ∀ seed ∈ seeds, seed = Fact.left seed.points)
    (last : ∀ site, ∀ callee ∈ inter.callees site, ∀ fact ∈ facts seeds,
      fact.head? = some site → fact = .seq [tail]) :
    (problem graph criteria config first seeds).Follows inter (Precedes tail seeds)
      (problem graph criteria.bare config first seeds) := by
  constructor
  · exact ⟨List.mem_cons_self, .inl rfl⟩
  · rintro fact _ ⟨-, rfl | ⟨rfl, rfl⟩⟩
    · exact Iff.rfl
    · simp [problem, Fact.zero]
  · intro seed listed
    refine ⟨seed.2, listed, ?_, .inl rfl⟩
    obtain ⟨fact, member, rfl⟩ := List.mem_map.mp listed
    exact mem_facts_of_seed proper member
  · exact fun _ _ => .identity
  · rintro site callee enters fact other precedes image member
    refine ⟨other, List.mem_singleton_self other, ?_⟩
    simp only [problem, callFlow] at member
    split at member
    · rw [List.mem_singleton.mp member]
      obtain ⟨known, rfl | ⟨rfl, rfl⟩⟩ := precedes
      · by_cases waits : other.head? = some site
        · -- The last call is taken off on entering, and the other pass keeps it.
          have alone := last site callee enters other known waits
          subst alone
          have taken : TopDown.pop site (.seq [tail]) = .epsilon := by
            rw [TopDown.pop, if_pos waits, Fact.removeHead]
          exact ⟨pop_closed known, .inr ⟨taken, rfl⟩⟩
        · have stays : TopDown.pop site other = other := if_neg waits
          rw [stays]
          exact ⟨known, .inl rfl⟩
      · exact ⟨known, .inr ⟨rfl, rfl⟩⟩
    · rw [List.mem_singleton.mp member]
      exact precedes
  · exact fun _ _ _ _ => .identity
  · exact fun site _ => aroundFlow_matches fun _ _ precedes => precedes.pop site

end TopDown

end SeqSlice
