import SeqSlice.Proofs.Fact.Follow
import SeqSlice.Proofs.Slice.Outcome
import SeqSlice.Proofs.Solver.Complete

/-! Without extension both passes handle ends of criteria only. These are as many as
the calls of all criteria, so the solver comes to an end within its bound, and what
paths lead to is found. -/

set_option autoImplicit false
namespace SeqSlice

def rests (calls : List PointId) : List (List PointId) := (List.range calls.length).map calls.drop

theorem length_rests (calls : List PointId) : (rests calls).length = calls.length := by
  simp [rests]

theorem mem_rests {calls rest : List PointId} : rest ∈ rests calls ↔ rest ≠ [] ∧ rest <:+ calls := by
  simp only [rests, List.mem_map, List.mem_range]
  constructor
  · rintro ⟨taken, inRange, rfl⟩
    refine ⟨?_, List.drop_suffix _ _⟩
    rw [ne_eq, List.drop_eq_nil_iff]
    omega
  · rintro ⟨some, before, rfl⟩
    have positive := List.length_pos_of_ne_nil some
    refine ⟨before.length, ?_, List.drop_left⟩
    rw [List.length_append]
    omega

namespace BottomUp

variable {graph : Supergraph} {criteria : Criteria}

def facts (criteria : Criteria) : List Fact :=
  .zero :: criteria.sequences.flatMap fun criterion => (rests criterion.points).map .seq

theorem mem_facts {calls : List PointId} :
    .seq calls ∈ facts criteria ↔
      calls = [] ∨ ∃ criterion ∈ criteria.sequences, calls ≠ [] ∧ calls <:+ criterion.points := by
  simp [facts, Fact.zero, mem_rests]

theorem length_facts (asTheyAre : criteria.hasExtension = false) :
    (facts criteria).length = factBound criteria := by
  have rows : criteria.extension.rows = [] := by
    simpa [Criteria.hasExtension, Extension.isEmpty] using asTheyAre
  simp [facts, factBound, rows, List.length_flatMap, length_rests, Nat.add_comm]

theorem self_mem_aroundFlow (call : PointId) (fact : Fact) : fact ∈ aroundFlow criteria call fact := by
  unfold aroundFlow
  split
  · simp
  · split
    · split <;> simp
    · split <;> simp

theorem of_mem_aroundFlow {call : PointId} {fact image : Fact}
    (member : image ∈ aroundFlow criteria call fact) :
    image = fact ∨ image = fact.addHead call ∧
      (fact.isEmpty = true ∧ criteria.isTail call = true ∨ criteria.canAddHead call fact = true ∨
        extends? criteria call fact = true) := by
  unfold aroundFlow at member
  split at member
  · exact .inl (List.mem_singleton.mp member)
  · split at member
    · next none =>
        have alone : fact.addHead call = .seq [call] := by
          rw [Fact.addHead, List.isEmpty_iff.mp none]
        rw [alone]
        split at member <;> simp_all
    · split at member <;> simp_all

theorem aroundFlow_closed (asTheyAre : criteria.hasExtension = false) {call : PointId}
    {fact image : Fact} (known : fact ∈ facts criteria)
    (flows : image ∈ aroundFlow criteria call fact) : image ∈ facts criteria := by
  cases fact with
  | epsilon => simp [facts, Fact.zero] at known
  | seq calls =>
      rcases of_mem_aroundFlow flows with rfl | ⟨rfl, ⟨none, isTail⟩ | fits | extending⟩
      · exact known
      · obtain ⟨criterion, member, ends⟩ := Criteria.isTail_iff.mp isTail
        have alone : calls = [] := List.isEmpty_iff.mp none
        exact mem_facts.mpr (.inr ⟨criterion, member, by simp, alone ▸ ends⟩)
      · obtain ⟨_, criterion, member, ends⟩ := Criteria.canAddHead_iff.mp fits
        exact mem_facts.mpr (.inr ⟨criterion, member, by simp, ends⟩)
      · simp [extends?, asTheyAre] at extending

/-- The backward pass stays in any list of facts that passing a call and extending by
one do not lead out of. -/
theorem within_of_closed
    (known : ∀ point, ∀ before ∈ graph.preds point, before ∈ graph.program.pointIds)
    {facts : List Fact} (zero : .zero ∈ facts)
    (passed : ∀ call, ∀ fact ∈ facts, ∀ image ∈ aroundFlow criteria call fact, image ∈ facts)
    (grown : ∀ call, ∀ fact ∈ facts, ∀ image ∈ extended criteria call fact, image ∈ facts) :
    (problem graph criteria).Within graph.backward.toInterGraph graph.program.pointIds facts := by
  have inRange {method : MethodId} {point : PointId} (inBody : point ∈ graph.program.body method) :
      point ∈ graph.program.pointIds :=
    Program.mem_pointIds_of_methodOf? (Program.methodOf?_of_mem_body inBody)
  constructor
  · exact zero
  · intro seed listed
    obtain ⟨last, isEnd, rfl⟩ := List.mem_map.mp listed
    exact ⟨inRange (Program.mem_body_of_mem_ends isEnd), zero⟩
  · exact fun point _ before member => known point before member
  · exact fun point _ before member => known point before member
  · exact fun _ _ _ _ _ member => inRange (Program.mem_body_of_mem_ends member)
  · exact fun _ _ _ inside _ member => List.mem_singleton.mp member ▸ inside
  · exact fun _ _ _ inside _ member => List.mem_singleton.mp member ▸ inside
  · intro _ callee _ call fact inside image member
    change image ∈ returnFlow graph criteria callee call fact at member
    unfold returnFlow at member
    -- Out of a method the match may also be extended.
    split at member
    · exact grown call fact inside image member
    · cases member
  · exact fun _ call fact inside image member => passed call fact inside image member

theorem within_facts (linked : graph.Linked) (asTheyAre : criteria.hasExtension = false) :
    (problem graph criteria).Within graph.backward.toInterGraph graph.program.pointIds
      (facts criteria) := by
  refine within_of_closed ?_ List.mem_cons_self ?_ ?_
  · exact fun point before member => (linked.together _ _ (linked.mem_succs_iff.mpr member)).1
  · exact fun _ _ inside _ member => aroundFlow_closed asTheyAre inside member
  · intro _ _ inside _ member
    simp only [extended, extends?, asTheyAre, Bool.false_and, Bool.false_eq_true, if_false,
      List.mem_singleton] at member
    exact member ▸ inside

end BottomUp

namespace TopDown

variable {graph : Supergraph} {criteria : Criteria} {config : Config} {first : PointId}
  {seeds : List Fact}

def facts (seeds : List Fact) : List Fact :=
  .zero :: .epsilon :: seeds.flatMap fun seed => (rests seed.points).map .seq

theorem length_facts : (facts seeds).length = factBound seeds := by
  simp only [facts, factBound, List.length_cons, List.length_flatMap, List.length_map, length_rests]
  omega

theorem left_mem_facts {seed : Fact} (member : seed ∈ seeds) {rest : List PointId}
    (ends : rest <:+ seed.points) : Fact.left rest ∈ facts seeds := by
  cases rest with
  | nil => simp [facts, Fact.left]
  | cons call others =>
      have listed : call :: others ∈ rests seed.points := mem_rests.mpr ⟨by simp, ends⟩
      refine List.mem_cons_of_mem _ (List.mem_cons_of_mem _ (List.mem_flatMap.mpr ⟨seed, member, ?_⟩))
      exact List.mem_map.mpr ⟨_, listed, rfl⟩

theorem mem_facts {calls : List PointId} :
    .seq calls ∈ facts seeds ↔ calls = [] ∨ ∃ seed ∈ seeds, calls ≠ [] ∧ calls <:+ seed.points := by
  simp [facts, Fact.zero, mem_rests]

theorem mem_facts_of_seed (proper : ∀ seed ∈ seeds, seed = Fact.left seed.points) {fact : Fact}
    (member : fact ∈ seeds ++ [Fact.zero]) : fact ∈ facts seeds := by
  rcases List.mem_append.mp member with isSeed | isZero
  · rw [proper fact isSeed]
    exact left_mem_facts isSeed (List.suffix_refl _)
  · exact List.mem_singleton.mp isZero ▸ List.mem_cons_self

theorem pop_closed {call : PointId} {fact : Fact} (known : fact ∈ facts seeds) :
    pop call fact ∈ facts seeds := by
  rcases List.mem_cons.mp known with rfl | known
  · exact List.mem_cons_self
  rcases List.mem_cons.mp known with rfl | known
  · exact List.mem_cons_of_mem _ List.mem_cons_self
  obtain ⟨seed, member, found⟩ := List.mem_flatMap.mp known
  obtain ⟨rest, listed, rfl⟩ := List.mem_map.mp found
  obtain ⟨some, ends⟩ := mem_rests.mp listed
  rw [← Fact.left_of_ne_nil some, pop_left]
  split
  · exact left_mem_facts member ((List.tail_suffix rest).trans ends)
  · exact left_mem_facts member ends

theorem within_facts (linked : graph.Linked) {region : List PointId}
    (inRange : first ∈ graph.program.pointIds)
    (proper : ∀ seed ∈ seeds, seed = Fact.left seed.points) :
    (problem graph criteria config first seeds).Within (graph.restricted region).toInterGraph
      graph.program.pointIds (facts seeds) := by
  have behind {point next : PointId} (member : next ∈ (graph.succs point).filter region.contains) :
      next ∈ graph.program.pointIds :=
    (linked.together _ _ (List.mem_filter.mp member).1).2.1
  constructor
  · exact List.mem_cons_self
  · intro seed listed
    obtain ⟨fact, member, rfl⟩ := List.mem_map.mp listed
    exact ⟨inRange, mem_facts_of_seed proper member⟩
  · exact fun _ _ _ member => behind member
  · exact fun _ _ _ member => behind member
  · intro _ _ _ _ start member
    have inBody := Program.mem_body_of_mem_starts member
    exact Program.mem_pointIds_of_methodOf? (Program.methodOf?_of_mem_body inBody)
  · exact fun _ _ _ known _ member => List.mem_singleton.mp member ▸ known
  · intro _ _ fact known image member
    simp only [problem, callFlow] at member
    split at member
    · exact List.mem_singleton.mp member ▸ pop_closed known
    · exact List.mem_singleton.mp member ▸ known
  · exact fun _ _ _ _ _ known _ member => List.mem_singleton.mp member ▸ known
  · intro site _ fact known image member
    simp only [problem, aroundFlow] at member
    split at member
    · exact List.mem_singleton.mp member ▸ pop_closed known
    · split at member
      · simp at member
      · exact List.mem_singleton.mp member ▸ known

end TopDown

namespace SliceRun

variable {run : SliceRun} {program : Program} {config : Config} {sequences : List Fact}
variable (plain : run.Plain program config sequences)
include plain

theorem Plain.builds_of_realizable {point : PointId} {calls : List PointId}
    (realizable : Realizable run.graph.backward.toInterGraph
      (BottomUp.problem run.graph run.criteria) point (.seq calls)) (some : calls ≠ []) :
    run.Builds point (.seq calls) := by
  have within := BottomUp.within_facts plain.linked plain.hasExtension
  have drained : (BottomUp.solve run.graph run.criteria).pending = [] :=
    Tabulation.pending_solve within (by simp [Program.pointIds])
      (Nat.le_of_eq (BottomUp.length_facts plain.hasExtension))
  refine ⟨Tabulation.holds_of_realizable plain.linked.backward_local drained realizable, ?_⟩
  simpa [Fact.zero] using some

theorem Plain.followed_of_realizable {first point : PointId} {fact : Fact}
    (inRange : first ∈ program.pointIds)
    (realizable : Realizable (run.graph.restricted run.region).toInterGraph
      (TopDown.problem run.graph run.criteria run.config first run.waiting) point fact) :
    (run.followed first).holds point fact = true := by
  have proper (seed : Fact) (member : seed ∈ run.waiting) : seed = Fact.left seed.points :=
    (plain.criterion_eq_left (plain.mem_waiting.mp member).1).1
  have within : (TopDown.problem run.graph run.criteria run.config first run.waiting).Within
      (run.graph.restricted run.region).toInterGraph run.graph.program.pointIds
      (TopDown.facts run.waiting) :=
    TopDown.within_facts plain.linked (plain.program.symm ▸ inRange) proper
  have drained : (run.followed first).pending = [] :=
    Tabulation.pending_solve within (by simp [Program.pointIds]) (Nat.le_of_eq TopDown.length_facts)
  exact Tabulation.holds_of_realizable (plain.linked.forwardWhere_local _) drained realizable

end SliceRun
end SeqSlice
