import SeqSlice.Proofs.Slice.Outcome
import SeqSlice.Proofs.Solver.Sound

/-! Soundness of slices without extension. A statement is only kept where a run may
have come by after some calls of a criterion, and may still make all the others. -/

set_option autoImplicit false
namespace SeqSlice

def Supergraph.EntryUncalled (graph : Supergraph) : Prop :=
  ∀ site, graph.isCall site = true → graph.program.entry ∉ graph.callees site

theorem Supergraph.entryUncalled_iff {graph : Supergraph} :
    graph.EntryUncalled ↔ ∀ site ∈ graph.program.pointIds,
      graph.isCall site = true → graph.program.entry ∉ graph.callees site := by
  refine ⟨fun uncalled site _ => uncalled site, fun listed site isCall => ?_⟩
  refine listed site (Program.mem_pointIds.mpr ?_) isCall
  unfold Supergraph.isCall Program.isCall Program.callSite? Program.point? at isCall
  by_contra outside
  have absent : graph.program.listing.points[site]? = none :=
    List.getElem?_eq_none (Nat.le_of_not_lt outside)
  simp [absent] at isCall

instance (graph : Supergraph) : Decidable graph.EntryUncalled :=
  decidable_of_iff' _ Supergraph.entryUncalled_iff

namespace SliceRun

variable {run : SliceRun} {program : Program} {config : Config} {sequences : List Fact}

section
variable (plain : run.Plain program config sequences) (uncalled : run.graph.EntryUncalled)
include plain uncalled

/-- What the backward pass has built at a statement was put together on the way
from an end of the program. -/
theorem Plain.journey_of_builds {point : PointId} {fact : Fact} (builds : run.Builds point fact) :
    ∃ calls, fact = .seq calls ∧ calls ≠ [] ∧ ∃ last ∈ program.ends program.entry, ∃ stack,
      Journey run.graph.backward.toInterGraph PutsBefore last [] stack point calls := by
  have seedsUncalled :
      (BottomUp.problem run.graph run.criteria).SeedsUncalled run.graph.backward.toInterGraph := by
    intro seed listed site _ called
    obtain ⟨last, isEnd, rfl⟩ := List.mem_map.mp listed
    have inEntry : run.graph.backward.methodOf last = run.graph.program.entry :=
      Supergraph.methodOf_of_mem_body (Program.mem_body_of_mem_ends isEnd)
    rw [inEntry] at called
    -- A method that is entered backwards is entered from a call before the statement.
    obtain ⟨call, before, enters⟩ := List.mem_flatMap.mp (List.mem_eraseDups.mp called)
    exact uncalled call (List.mem_filter.mp before).2 enters
  obtain ⟨stack, seed, listed, path⟩ :=
    Tabulation.realizable_of_holds plain.linked.backward_local seedsUncalled builds.1
  obtain ⟨last, isEnd, rfl⟩ := List.mem_map.mp listed
  obtain ⟨calls, rfl, journey⟩ := BottomUp.journey_of_path plain.hasExtension path
  refine ⟨calls, rfl, ?_, last, plain.program ▸ isEnd, stack, journey⟩
  rintro rfl
  exact builds.2 rfl

/-- What the forward pass waits for at a statement is what is left of a criterion
after the calls that it has passed. -/
theorem Plain.journey_of_followed {first point : PointId} {fact : Fact}
    (inEntry : first ∈ program.body program.entry)
    (found : (run.followed first).holds point fact = true) (proper : fact ≠ .zero) :
    ∃ criterion ∈ run.waiting, ∃ rest, fact = Fact.left rest ∧ ∃ stack,
      Journey run.graph.forward.toInterGraph TakesOff first criterion.points stack point rest := by
  have atEntry : run.graph.methodOf first = run.graph.program.entry := by
    rw [← plain.program] at inEntry
    exact Supergraph.methodOf_of_mem_body inEntry
  have seedsUncalled :
      (TopDown.problem run.graph run.criteria run.config first run.waiting).SeedsUncalled
        (run.graph.restricted run.region).toInterGraph := by
    intro seed listed site isCall called
    obtain ⟨_, _, rfl⟩ := List.mem_map.mp listed
    exact uncalled site isCall (atEntry ▸ called)
  obtain ⟨stack, seed, listed, path⟩ :=
    Tabulation.realizable_of_holds (plain.linked.forwardWhere_local _) seedsUncalled found
  obtain ⟨criterion, member, rfl⟩ := List.mem_map.mp listed
  rcases List.mem_append.mp member with isSeed | isZero
  · have ofGroup := (plain.mem_waiting.mp isSeed).1
    have same := (plain.criterion_eq_left ofGroup).1
    rw [same] at path
    obtain ⟨rest, left, journey⟩ := TopDown.journey_of_path plain.hasExtension
      (fun call inside => Criteria.isPoint_of_mem ofGroup inside) path
    exact ⟨criterion, isSeed, rest, left, stack, journey.forward_of_restricted⟩
  · -- From zero nothing else comes.
    rw [List.mem_singleton.mp isZero] at path
    exact absurd (TopDown.zero_of_path plain.hasExtension path) proper

end

/-- A path through the program leads to the statement after some calls of the
criterion, made in order. If calls are left, then they are ahead: the backward pass
has built them there, on a path from an end of the program. -/
def Explains (run : SliceRun) (program : Program) (criterion : Fact) (point : PointId) : Prop :=
  ∃ made rest, criterion = .seq (made ++ rest) ∧
    (∃ first stack, (program.body program.entry).head? = some first ∧
      Journey run.graph.forward.toInterGraph TakesOff first (made ++ rest) stack point rest) ∧
    (rest ≠ [] → .seq rest ∈ run.runAll.2.bottomUp.factsAt point ∧
      ∃ last ∈ program.ends program.entry, ∃ stack,
        Journey run.graph.backward.toInterGraph PutsBefore last [] stack point rest)

theorem Plain.explains_of_agrees (plain : run.Plain program config sequences)
    (uncalled : run.graph.EntryUncalled) {first point : PointId}
    (found : (program.body program.entry).head? = some first)
    (table : run.runAll.2.bottomUp = run.backed.bottomUp) (agrees : run.Agrees first point) :
    ∃ criterion ∈ run.waiting, run.Explains program criterion point := by
  obtain ⟨_, fact, holds, proper, agree⟩ := agrees
  obtain ⟨criterion, seed, rest, rfl, stack, journey⟩ :=
    plain.journey_of_followed uncalled (List.mem_of_head? found) holds proper
  obtain ⟨made, whole⟩ := journey.suffix
  obtain ⟨same, some⟩ := plain.criterion_eq_left (plain.mem_waiting.mp seed).1
  refine ⟨criterion, seed, made, rest, ?_, ⟨first, stack, found, whole ▸ journey⟩, fun left => ?_⟩
  · rw [same, Fact.left_of_ne_nil some, whole]
  · -- Calls are left, so the passes agree on them.
    rw [Fact.left_of_ne_nil left] at agree
    rcases agree with complete | ⟨other, builds, sameCalls⟩
    · cases complete
    · obtain ⟨calls, rfl, _, last, isEnd, stack, back⟩ := plain.journey_of_builds uncalled builds
      have here : rest = calls := sameCalls
      subst here
      refine ⟨?_, last, isEnd, stack, back⟩
      rw [table]
      exact (mem_factsAt_backed plain.phase).mpr builds

/-- Every statement of a slice is explained by a criterion that the backward pass
has completed where the program starts. Without such a criterion the slice is
empty. -/
theorem slice_sound {tail : PointId} (asTheyAre : config.extendCriteria = false)
    (prepared : prepare program config tail sequences = .ok run)
    (uncalled : run.graph.EntryUncalled) :
    (program.body program.entry ≠ [] → ∃ slice, run.runAll.1 = .ok slice) ∧
    ∀ slice, run.runAll.1 = .ok slice →
      (∀ point ∈ slice.points,
        run.runAll.2.bottomUp.factsAt point ≠ [] ∧
        ∃ criterion ∈ sequences,
          (∃ start ∈ program.starts program.entry,
            criterion ∈ run.runAll.2.bottomUp.factsAt start) ∧
          run.Explains program criterion point) ∧
      ((∀ criterion ∈ sequences, ∀ start ∈ program.starts program.entry,
          criterion ∉ run.runAll.2.bottomUp.factsAt start) →
        slice.isEmpty = true) := by
  have plain := plain_of_prepare asTheyAre prepared
  cases found : (program.body program.entry).head? with
  | none =>
      obtain ⟨error, failed⟩ := plain.runAll_of_no_start found
      refine ⟨fun some => absurd (List.head?_eq_none_iff.mp found) some, fun slice finished => ?_⟩
      simp [failed] at finished
  | some first =>
      obtain ⟨known, result, _, table, kept, empty⟩ := plain.runAll_of_start found
      refine ⟨fun _ => ⟨known, result⟩, fun slice finished => ?_⟩
      cases Except.ok.inj (result.symm.trans finished)
      have builds_iff {point : PointId} {fact : Fact} :
          fact ∈ run.runAll.2.bottomUp.factsAt point ↔ run.Builds point fact := by
        rw [table]
        exact mem_factsAt_backed plain.phase
      -- The forward pass sets out with nothing but criteria completed at a start.
      have completed {criterion : Fact} (seed : criterion ∈ run.waiting) :
          criterion ∈ sequences ∧ ∃ start ∈ program.starts program.entry,
            criterion ∈ run.runAll.2.bottomUp.factsAt start := by
        obtain ⟨ofGroup, start, isStart, builds⟩ := plain.mem_waiting.mp seed
        rw [plain.criteria] at ofGroup
        exact ⟨(Criteria.mem_sequences_ofList.mp ofGroup).1, start, isStart, builds_iff.mpr builds⟩
      constructor
      · intro point member
        have agrees := ((kept point).mp member).2
        obtain ⟨built, builds⟩ := agrees.1
        obtain ⟨criterion, seed, explains⟩ := plain.explains_of_agrees uncalled found table agrees
        exact ⟨List.ne_nil_of_mem (builds_iff.mpr builds), criterion, (completed seed).1,
          (completed seed).2, explains⟩
      · intro never
        apply empty
        rw [List.eq_nil_iff_forall_not_mem]
        intro point member
        obtain ⟨criterion, seed, _⟩ :=
          plain.explains_of_agrees uncalled found table ((kept point).mp member).2
        obtain ⟨ofSequences, start, isStart, atStart⟩ := completed seed
        exact never criterion ofSequences start isStart atStart

theorem helperProgram_explained :
    ∃ run slice, prepare helperProgram plainConfig 1 [.seq [5, 1]] = .ok run ∧
      run.graph.EntryUncalled ∧ run.runAll.1 = .ok slice ∧ slice.points = [0, 1, 4, 5, 6] ∧
      ∀ point ∈ slice.points, run.Explains helperProgram (.seq [5, 1]) point := by
  have evaluated : ((prepare helperProgram plainConfig 1 [.seq [5, 1]]).toOption.bind fun run =>
      if run.graph.EntryUncalled then run.runAll.1.toOption.map (·.points) else none) =
        some [0, 1, 4, 5, 6] := by cbv
  obtain ⟨run, made, rest⟩ := Option.bind_eq_some_iff.mp evaluated
  have prepared := ok_of_toOption made
  by_cases uncalled : run.graph.EntryUncalled
  · rw [if_pos uncalled] at rest
    obtain ⟨slice, finished, points⟩ := Option.map_eq_some_iff.mp rest
    have result := ok_of_toOption finished
    refine ⟨run, slice, prepared, uncalled, result, points, fun point member => ?_⟩
    obtain ⟨_, criterion, ofGroup, _, explains⟩ :=
      ((slice_sound rfl prepared uncalled).2 slice result).1 point member
    exact List.mem_singleton.mp ofGroup ▸ explains
  · simp [uncalled] at rest

end SliceRun
end SeqSlice
