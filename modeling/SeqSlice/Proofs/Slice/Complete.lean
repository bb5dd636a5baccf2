import SeqSlice.Proofs.Slice.Execution

/-! Completeness of slices without extension: what an execution visits until it has
stepped around all calls of a criterion in order, is kept. At each of these
statements the calls that are left are still ahead, so the backward pass has built
them. The forward pass takes off every call as soon as it can; this is never too
early, since less is left then. -/

set_option autoImplicit false
namespace SeqSlice

theorem passed_cons (move : Move) (moves : List Move) :
    passed (move :: moves) = if move.around then move.point :: passed moves else passed moves := by
  unfold passed
  cases around : move.around <;> simp [around]

theorem passed_append (first second : List Move) :
    passed (first ++ second) = passed first ++ passed second := by
  simp [passed]

/-- Nothing is left, or what is left ends with the call, and the calls before it are
made on the way. -/
def Ahead (rest : List PointId) (call : PointId) (moves : List Move) : Prop :=
  rest = [] ∨ ∃ others, rest = others ++ [call] ∧ others.Sublist (passed moves)

namespace Ahead

variable {rest : List PointId} {call : PointId} {moves : List Move}

theorem sublist (ahead : Ahead rest call moves) (after : List Move) :
    rest.Sublist (passed (moves ++ ⟨call, true⟩ :: after)) := by
  rw [passed_append, passed_cons, if_pos rfl]
  rcases ahead with rfl | ⟨others, rfl, inOrder⟩
  · exact List.nil_sublist _
  · exact inOrder.append (List.singleton_sublist.mpr List.mem_cons_self)

theorem takeOff {move : Move} (ahead : Ahead rest call (move :: moves)) :
    Ahead (move.takeOff rest) call moves := by
  unfold Move.takeOff
  rcases ahead with rfl | ⟨others, rfl, inOrder⟩
  · exact .inl (by simp)
  · rw [passed_cons] at inOrder
    cases others with
    | nil =>
        -- Only the last call is left: it stays, or nothing is left.
        split
        · exact .inl rfl
        · exact .inr ⟨[], rfl, List.nil_sublist _⟩
    | cons first others =>
        by_cases taken : move.around = true ∧ first = move.point
        · obtain ⟨around, rfl⟩ := taken
          rw [if_pos around] at inOrder
          refine .inr ⟨others, ?_, List.cons_sublist_cons.mp inOrder⟩
          simp [around]
        · refine .inr ⟨first :: others, ?_, ?_⟩
          · rw [if_neg]
            rintro ⟨around, head⟩
            exact taken ⟨around, Option.some.inj head⟩
          · cases around : move.around with
            | false => simpa [around] using inOrder
            | true =>
                rw [around, if_pos rfl] at inOrder
                cases inOrder with
                | cons _ later => exact later
                | cons_cons _ _ => exact absurd ⟨around, rfl⟩ taken

end Ahead

namespace SliceRun

variable {run : SliceRun} {program : Program} {config : Config} {sequences : List Fact}

section
variable (plain : run.Plain program config sequences) (apart : run.graph.StartsApart)
include plain apart

/-- From the end of an execution the backward pass comes to any of its states with
the end of a criterion whose calls are made from there on. -/
theorem Plain.reaches_back {state final : ExecState} {moves : List Move}
    (executes : Executes run.graph run.criteria run.config state moves final)
    (finished : final.stack = [] ∧ final.point ∈ program.ends program.entry)
    (stacked : run.graph.Stacked state.stack state.point) {criterion : Fact}
    (member : criterion ∈ run.criteria.sequences) {calls : List PointId}
    (ends : calls <:+ criterion.points) (inOrder : calls.Sublist (passed moves)) :
    ReachesWith run.graph.backward.toInterGraph (BottomUp.problem run.graph run.criteria)
      (BottomUp.frames state.stack) state.point (.seq calls) := by
  -- The induction goes from the end of the execution backwards, as the pass does.
  induction executes generalizing calls with
  | @done state =>
      have none : calls = [] := List.sublist_nil.mp inOrder
      subst none
      rw [finished.1]
      refine ⟨(state.point, .zero), List.mem_map.mpr ⟨state.point, ?_, rfl⟩, .refl⟩
      exact plain.program.symm ▸ finished.2
  | @step state next final around moves step _ ih =>
      have keep (kept : calls.Sublist (passed moves)) :
          ReachesWith run.graph.backward.toInterGraph (BottomUp.problem run.graph run.criteria)
            (BottomUp.frames state.stack) state.point (.seq calls) :=
        (ih finished (step.stacked plain.linked stacked) ends kept).step
          (BottomUp.keeps_step plain.linked apart plain.hasExtension step stacked _)
      rw [passed_cons] at inOrder
      cases around with
      | false => exact keep inOrder
      | true =>
          rw [if_pos rfl] at inOrder
          rcases List.sublist_cons_iff.mp inOrder with kept | ⟨others, rfl, later⟩
          · exact keep kept
          · have shorter : others <:+ criterion.points := (List.suffix_cons _ _).trans ends
            exact (ih finished (step.stacked plain.linked stacked) shorter later).step
              (BottomUp.grows_step plain.linked step member ends)

theorem Plain.builds_ahead {state final : ExecState} {moves : List Move}
    (executes : Executes run.graph run.criteria run.config state moves final)
    (finished : final.stack = [] ∧ final.point ∈ program.ends program.entry)
    (stacked : run.graph.Stacked state.stack state.point) {criterion : Fact}
    (member : criterion ∈ run.criteria.sequences) {calls : List PointId} (some : calls ≠ [])
    (ends : calls <:+ criterion.points) (inOrder : calls.Sublist (passed moves)) :
    run.Builds state.point (.seq calls) :=
  plain.builds_of_realizable
    ⟨_, plain.reaches_back apart executes finished stacked member ends inOrder⟩ some

variable {first call : PointId} {criterion : Fact} (member : criterion ∈ run.criteria.sequences)
  (isLast : [call] <:+ criterion.points) {before after : List Move} {state final : ExecState}
  (executes : Executes run.graph run.criteria run.config state (before ++ ⟨call, true⟩ :: after)
    final)
  (finished : final.stack = [] ∧ final.point ∈ program.ends program.entry)
  (stacked : run.graph.Stacked state.stack state.point)
include member isLast executes finished stacked

theorem Plain.builds_call : run.Builds state.point (.seq [call]) := by
  have ahead : Ahead [call] call before := .inr ⟨[], rfl, List.nil_sublist _⟩
  exact plain.builds_ahead apart executes finished stacked member (by simp) isLast
    (ahead.sublist after)

variable (inRange : first ∈ program.pointIds) {rest : List PointId}
  (ends : rest <:+ criterion.points) (ahead : Ahead rest call before)
  (reached : ReachesWith (run.graph.restricted run.region).toInterGraph
    (TopDown.problem run.graph run.criteria run.config first run.waiting)
    (TopDown.frames state.stack) state.point (Fact.left rest))
include inRange ends ahead reached

theorem Plain.agrees_here : run.Agrees first state.point := by
  have call := plain.builds_call apart member isLast executes finished stacked
  refine ⟨⟨_, call⟩, Fact.left rest, plain.followed_of_realizable inRange ⟨_, reached⟩,
    Fact.left_ne_zero rest, ?_⟩
  cases rest with
  | nil => exact .inl rfl
  | cons head others =>
      have built := plain.builds_ahead apart executes finished stacked member (by simp) ends
        (ahead.sublist after)
      exact .inr ⟨_, built, rfl⟩

theorem Plain.agrees_along : ∀ move ∈ before ++ [⟨call, true⟩], run.Agrees first move.point := by
  induction before generalizing state rest with
  | nil =>
      intro move isCall
      have now := plain.agrees_here apart member isLast executes finished stacked inRange ends ahead
        reached
      rw [List.mem_singleton.mp isCall]
      cases executes with
      | step _ _ => exact now
  | cons move before ih =>
      have now := plain.agrees_here apart member isLast executes finished stacked inRange ends ahead
        reached
      cases executes with
      | @step _ next _ around _ step later =>
          have nextStacked := step.stacked plain.linked stacked
          -- The call is ahead of the next state too, so the pass may step onto it.
          have allowed : next.point ∈ run.region := plain.mem_region.mpr
            ⟨_, plain.builds_call apart member isLast later finished nextStacked⟩
          have points (other : PointId) (inside : other ∈ rest) :
              run.criteria.isPoint other = true :=
            Criteria.isPoint_of_mem member (ends.subset inside)
          have moved := reached.step
            (TopDown.follows_step plain.hasExtension step stacked allowed points)
          have shorter := (Move.takeOff_suffix ⟨state.point, around⟩ rest).trans ends
          have others := ih later nextStacked shorter ahead.takeOff moved
          intro other visited
          rcases List.mem_cons.mp visited with rfl | behind
          · exact now
          · exact others other behind

end

/-- Suppose that an execution goes from the first statement of the program to an end,
that it steps around the calls of a criterion in order, and that its moves are cut
where it steps around the last of them. Of the statements up to this one, all that
bodies list are in the slice. -/
theorem slice_complete {tail : PointId} (asTheyAre : config.extendCriteria = false)
    (prepared : prepare program config tail sequences = .ok run)
    (apart : run.graph.StartsApart) {first last call : PointId}
    (found : (program.body program.entry).head? = some first)
    (isStart : first ∈ program.starts program.entry) (isEnd : last ∈ program.ends program.entry)
    {before after : List Move}
    (executes : Executes run.graph run.criteria config ⟨[], first⟩
      (before ++ ⟨call, true⟩ :: after) ⟨[], last⟩)
    {others : List PointId} (criterion : .seq (others ++ [call]) ∈ sequences)
    (inOrder : others.Sublist (passed before)) :
    ∃ slice, run.runAll.1 = .ok slice ∧ ∀ move ∈ before ++ [⟨call, true⟩],
      (move.point ∈ slice.points ↔ ∃ method, move.point ∈ program.body method) := by
  have plain := plain_of_prepare asTheyAre prepared
  rw [← plain.config] at executes
  have member : .seq (others ++ [call]) ∈ run.criteria.sequences := by
    rw [plain.criteria]
    exact Criteria.mem_sequences_ofList.mpr ⟨criterion, by simp [Fact.isEmpty, Fact.points]⟩
  have ahead : Ahead (others ++ [call]) call before := .inr ⟨others, rfl, inOrder⟩
  have whole : others ++ [call] <:+ (Fact.seq (others ++ [call])).points := List.suffix_refl _
  have inRange : first ∈ program.pointIds :=
    Program.mem_pointIds_of_methodOf? (Program.methodOf?_of_mem_body (List.mem_of_head? found))
  -- The backward pass completes the criterion at the first statement, so the forward pass sets out
  -- with it there.
  have completed : .seq (others ++ [call]) ∈ run.waiting :=
    plain.mem_waiting.mpr ⟨member, first, isStart,
      plain.builds_ahead apart executes ⟨rfl, isEnd⟩ trivial member (by simp) whole
        (ahead.sublist after)⟩
  have reached : ReachesWith (run.graph.restricted run.region).toInterGraph
      (TopDown.problem run.graph run.criteria run.config first run.waiting) [] first
      (Fact.left (others ++ [call])) := by
    rw [Fact.left_of_ne_nil (by simp)]
    exact ⟨(first, .seq (others ++ [call])),
      List.mem_map.mpr ⟨_, List.mem_append_left _ completed, rfl⟩, .refl⟩
  have agrees := plain.agrees_along apart member (List.suffix_append others [call]) executes
    ⟨rfl, isEnd⟩ trivial inRange whole ahead reached
  obtain ⟨slice, result, _, _, kept, _⟩ := plain.runAll_of_start found
  refine ⟨slice, result, fun move visited => ?_⟩
  rw [kept]
  exact and_iff_left (agrees move visited)

def helperMoves : List Move := [⟨0, false⟩, ⟨4, false⟩, ⟨5, true⟩, ⟨6, false⟩]

theorem helperProgram_kept :
    ∃ run slice, prepare helperProgram plainConfig 1 [.seq [5, 1]] = .ok run ∧
      run.graph.StartsApart ∧
      Executes run.graph run.criteria plainConfig ⟨[], 0⟩
        (helperMoves ++ ⟨1, true⟩ :: [⟨2, false⟩]) ⟨[], 3⟩ ∧
      run.runAll.1 = .ok slice ∧ ∀ move ∈ helperMoves ++ [⟨1, true⟩], move.point ∈ slice.points := by
  have evaluated : ((prepare helperProgram plainConfig 1 [.seq [5, 1]]).toOption.map fun run =>
      decide (run.graph.StartsApart ∧
        (run.graph.isCall 0 = true ∧ 1 ∈ run.graph.callees 0 ∧ 0 ∈ run.graph.callers 1 ∧
          4 ∈ run.graph.program.starts 1 ∧ 1 ∈ run.graph.succs 0) ∧
        (run.graph.isCall 4 = false ∧ 5 ∈ run.graph.succs 4) ∧
        (run.graph.isCall 5 = true ∧ 6 ∈ run.graph.succs 5 ∧ run.criteria.isPoint 5 = true) ∧
        (run.graph.isCall 6 = false ∧ run.graph.isEnd 6 = true) ∧
        (run.graph.isCall 1 = true ∧ 2 ∈ run.graph.succs 1 ∧ run.criteria.isPoint 1 = true) ∧
        (run.graph.isCall 2 = false ∧ 3 ∈ run.graph.succs 2))) = some true := by cbv
  obtain ⟨run, made, checked⟩ := Option.map_eq_some_iff.mp evaluated
  obtain ⟨apart, ⟨call0, callee, caller, start, next0⟩, ⟨plain4, next4⟩, ⟨call5, next5, point5⟩,
    ⟨plain6, end6⟩, ⟨call1, next1, point1⟩, plain2, next2⟩ := of_decide_eq_true checked
  have prepared := ok_of_toOption made
  have executes : Executes run.graph run.criteria plainConfig ⟨[], 0⟩
      (helperMoves ++ ⟨1, true⟩ :: [⟨2, false⟩]) ⟨[], 3⟩ :=
    .step (.enter call0 callee caller start next0) <| .step (.normal plain4 next4) <|
      .step (.around call5 next5 (.inl point5)) <| .step (.leave plain6 end6) <|
      .step (.around call1 next1 (.inl point1)) <| .step (.normal plain2 next2) .done
  have criterion : .seq ([5] ++ [1]) ∈ [Fact.seq [5, 1]] := List.mem_cons_self
  obtain ⟨slice, result, kept⟩ := slice_complete rfl prepared apart (by decide) (by decide)
    (by decide) executes criterion (by decide)
  refine ⟨run, slice, prepared, apart, executes, result, fun move visited => ?_⟩
  have listed : ∀ move ∈ helperMoves ++ [⟨1, true⟩],
      ∃ method ∈ [0, 1], move.point ∈ helperProgram.body method := by decide
  obtain ⟨method, _, inBody⟩ := listed move visited
  exact (kept move visited).mpr ⟨method, inBody⟩

/-- The entry method does not list the second statement of its body. -/
def unlistedListing : Listing where
  entry := some 0
  classes := [⟨0, "Main", none, [], false, false⟩]
  methods := [⟨0, 0, "main", "", true, false, [0, 1, 3]⟩, ⟨1, 0, "api", "", true, false, []⟩]
  points := [⟨0, 0, 1, .plain, ""⟩, ⟨1, 0, 2, .call ⟨1, .static, none, [], none⟩, ""⟩,
    ⟨2, 0, 3, .plain, ""⟩, ⟨3, 0, 4, .plain, ""⟩]
  edges := [⟨0, 2, false⟩, ⟨2, 1, false⟩, ⟨1, 3, false⟩]
  calls := [⟨1, 1⟩]
  allocSites := []
  pointsTo := []

def unlistedProgram : Program := ⟨unlistedListing, 0, rfl, by decide⟩

/-- A statement that no body lists is in no slice, though the execution passes it on
its way to the call. -/
theorem unlistedProgram_left_out :
    ∃ run slice, prepare unlistedProgram plainConfig 1 [.seq [1]] = .ok run ∧
      run.graph.StartsApart ∧
      (∀ method, ∀ last ∈ unlistedProgram.ends method, run.graph.isCall last = false) ∧
      (unlistedProgram.body unlistedProgram.entry).head? = some 0 ∧
      0 ∈ unlistedProgram.starts unlistedProgram.entry ∧
      3 ∈ unlistedProgram.ends unlistedProgram.entry ∧
      Executes run.graph run.criteria plainConfig ⟨[], 0⟩
        ([⟨0, false⟩, ⟨2, false⟩] ++ ⟨1, true⟩ :: []) ⟨[], 3⟩ ∧
      run.runAll.1 = .ok slice ∧ 2 ∉ slice.points := by
  have evaluated : ((prepare unlistedProgram plainConfig 1 [.seq [1]]).toOption.map fun run =>
      (decide (run.graph.StartsApart ∧
        (∀ method ∈ unlistedProgram.methodIds, ∀ last ∈ unlistedProgram.ends method,
          run.graph.isCall last = false) ∧
        (run.graph.isCall 0 = false ∧ 2 ∈ run.graph.succs 0) ∧
        (run.graph.isCall 2 = false ∧ 1 ∈ run.graph.succs 2) ∧
        (run.graph.isCall 1 = true ∧ 3 ∈ run.graph.succs 1 ∧ run.criteria.isPoint 1 = true)),
      run.runAll.1.toOption.map (·.points))) = some (true, some [0, 1]) := by cbv
  obtain ⟨run, made, outcome⟩ := Option.map_eq_some_iff.mp evaluated
  obtain ⟨checked, sliced⟩ := Prod.mk.inj outcome
  obtain ⟨apart, plainEnds, ⟨plain0, next0⟩, ⟨plain2, next2⟩, call1, next1, point1⟩ :=
    of_decide_eq_true checked
  obtain ⟨slice, finished, points⟩ := Option.map_eq_some_iff.mp sliced
  refine ⟨run, slice, ok_of_toOption made, apart, ?_, by decide, by decide, by decide, ?_,
    ok_of_toOption finished, by simp [points]⟩
  · intro method last isEnd
    have inBody := Program.mem_body_of_mem_ends isEnd
    exact plainEnds method (Program.mem_methodIds_of_mem_body inBody) last isEnd
  · exact .step (.normal plain0 next0) <| .step (.normal plain2 next2) <|
      .step (.around call1 next1 (.inl point1)) .done

end SliceRun
end SeqSlice
