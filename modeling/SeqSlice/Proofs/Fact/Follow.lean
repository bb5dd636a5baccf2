import Mathlib.Data.List.Basic
import SeqSlice.Fact.Criteria

/-! What may be put before a match: the calls with which it still ends a criterion. So
matches that grow call by call from the tails are the ends of the criteria. -/

set_option autoImplicit false
namespace SeqSlice

namespace Criteria

variable {criteria : Criteria}

theorem mem_followers {point : PointId} {calls : List PointId} {fact : Fact} :
    fact ∈ followers point calls ↔ ∃ rest, fact = .seq rest ∧ rest ≠ [] ∧ point :: rest <:+ calls := by
  induction calls with
  | nil => simp [followers]
  | cons first others ih =>
      cases others with
      | nil =>
          -- Behind the only call there is nothing.
          simp only [followers, List.not_mem_nil, false_iff]
          rintro ⟨rest, rfl, some, ends⟩
          have short := ends.length_le
          have positive := List.length_pos_of_ne_nil some
          simp only [List.length_cons, List.length_nil] at short
          omega
      | cons second others =>
          have step (rest : List PointId) : point :: rest <:+ first :: second :: others ↔
              (first = point ∧ rest = second :: others) ∨ point :: rest <:+ second :: others := by
            rw [List.suffix_cons_iff, List.cons.injEq, eq_comm]
          simp only [followers, step]
          by_cases here : first = point
          · rw [if_pos here, List.mem_cons, ih]
            constructor
            · rintro (rfl | ⟨rest, rfl, some, later⟩)
              · exact ⟨_, rfl, by simp, .inl ⟨here, rfl⟩⟩
              · exact ⟨rest, rfl, some, .inr later⟩
            · rintro ⟨rest, rfl, some, ⟨_, rfl⟩ | later⟩
              · exact .inl rfl
              · exact .inr ⟨rest, rfl, some, later⟩
          · rw [if_neg here, ih]
            simp only [here, false_and, false_or]

theorem canAddHead_iff {point : PointId} {rest : List PointId} :
    criteria.canAddHead point (.seq rest) = true ↔
      rest ≠ [] ∧ ∃ criterion ∈ criteria.sequences, point :: rest <:+ criterion.points := by
  simp only [canAddHead, follow, List.contains_eq_mem, decide_eq_true_eq, List.mem_eraseDups,
    List.mem_flatMap, mem_followers, Fact.seq.injEq]
  constructor
  · rintro ⟨criterion, member, _, rfl, some, ends⟩
    exact ⟨some, criterion, member, ends⟩
  · rintro ⟨some, criterion, member, ends⟩
    exact ⟨criterion, member, rest, rfl, some, ends⟩

theorem canAddHead_epsilon {point : PointId} : criteria.canAddHead point .epsilon = false := by
  simp [canAddHead, follow, mem_followers]

theorem isTail_iff {point : PointId} :
    criteria.isTail point = true ↔ ∃ criterion ∈ criteria.sequences, [point] <:+ criterion.points := by
  simp only [isTail, tails, List.contains_eq_mem, decide_eq_true_eq, List.mem_eraseDups,
    List.mem_filterMap, Fact.tail?, List.getLast?_eq_some_iff, List.singleton_suffix_iff_getLast?_eq_some]

/-- Matches that are built from a tail by putting calls before them. -/
inductive Built (criteria : Criteria) : Fact → Prop where
  | tail {point : PointId} : criteria.isTail point = true → Built criteria (.seq [point])
  | head {point : PointId} {fact : Fact} : Built criteria fact →
      criteria.canAddHead point fact = true → Built criteria (fact.addHead point)

theorem Built.ends {fact : Fact} (built : criteria.Built fact) :
    ∃ calls, fact = .seq calls ∧ calls ≠ [] ∧
      ∃ criterion ∈ criteria.sequences, calls <:+ criterion.points := by
  induction built with
  | tail isTail => exact ⟨_, rfl, by simp, isTail_iff.mp isTail⟩
  | head _ fits ih =>
      obtain ⟨calls, rfl, _⟩ := ih
      exact ⟨_, rfl, by simp, (canAddHead_iff.mp fits).2⟩

theorem built_of_ends {calls : List PointId} (some : calls ≠ []) {criterion : Fact}
    (member : criterion ∈ criteria.sequences) (ends : calls <:+ criterion.points) :
    criteria.Built (.seq calls) := by
  induction calls with
  | nil => exact absurd rfl some
  | cons call rest ih =>
      cases rest with
      | nil => exact .tail (isTail_iff.mpr ⟨criterion, member, ends⟩)
      | cons next others =>
          have shorter := ih (by simp) ((List.suffix_cons call _).trans ends)
          exact .head shorter (canAddHead_iff.mpr ⟨by simp, criterion, member, ends⟩)

theorem exists_ends_ofList {sequences : List Fact} {calls : List PointId} (some : calls ≠ []) :
    (∃ criterion ∈ (ofList sequences).sequences, calls <:+ criterion.points) ↔
      ∃ criterion ∈ sequences, calls <:+ criterion.points := by
  constructor
  · rintro ⟨criterion, member, ends⟩
    exact ⟨criterion, (mem_sequences_ofList.mp member).1, ends⟩
  · rintro ⟨criterion, member, ends⟩
    refine ⟨criterion, mem_sequences_ofList.mpr ⟨member, ?_⟩, ends⟩
    rw [Fact.isEmpty, List.isEmpty_eq_false_iff]
    intro none
    rw [none, List.suffix_nil] at ends
    exact some ends

/-- A call may be put before a match just when both together end a criterion of the list;
growing so from the tails gives the ends of the criteria, and nothing else. -/
theorem follow_exact (sequences : List Fact) :
    (∀ point fact, (ofList sequences).canAddHead point fact = true ↔
      ∃ rest, fact = .seq rest ∧ rest ≠ [] ∧
        ∃ criterion ∈ sequences, point :: rest <:+ criterion.points) ∧
    ∀ fact, (ofList sequences).Built fact ↔
      ∃ calls, fact = .seq calls ∧ calls ≠ [] ∧ ∃ criterion ∈ sequences, calls <:+ criterion.points := by
  constructor
  · intro point fact
    cases fact with
    | epsilon => simp [canAddHead_epsilon]
    | seq rest =>
        rw [canAddHead_iff, exists_ends_ofList (by simp)]
        simp
  · intro fact
    constructor
    · intro built
      obtain ⟨calls, rfl, some, ends⟩ := built.ends
      exact ⟨calls, rfl, some, (exists_ends_ofList some).mp ends⟩
    · rintro ⟨calls, rfl, some, ends⟩
      obtain ⟨criterion, member, ends⟩ := (exists_ends_ofList some).mpr ends
      exact built_of_ends some member ends

end Criteria
end SeqSlice
