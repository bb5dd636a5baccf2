import SeqSlice.Proofs.Slice.Prepared

/-! The phases that a run goes through, whatever is asked of it and in whatever order.

A pass that is asked for in another phase than its own is refused, and nothing
changes. Only the forward pass can fail in its own phase, for want of a body to set
out from. It has entered its phase by then and does not leave it again. -/

set_option autoImplicit false
namespace SeqSlice

inductive Request where
  | backward
  | forward
  | whole
  deriving DecidableEq, Repr, Inhabited

namespace SliceRun

def asked (run : SliceRun) : Request → SliceRun
  | .backward => run.runBottomUp.2
  | .forward => run.runTopDown.2
  | .whole => run.runAll.2

def after (run : SliceRun) (requests : List Request) : SliceRun := requests.foldl asked run

/-- The forward pass is due and has nowhere to set out from. -/
def Stranded (run : SliceRun) : Prop :=
  run.phase = .bottomUpDone ∧ TopDown.start? run.graph = none

section
variable {run : SliceRun}

theorem runBottomUp_refused (phase : run.phase ≠ .built) :
    run.runBottomUp = (.error (.phase ⟨.built, run.phase⟩), run) := by
  simp [runBottomUp, Phase.ensure, phase]

theorem runTopDown_refused (phase : run.phase ≠ .bottomUpDone) :
    run.runTopDown = (.error (.phase ⟨.bottomUpDone, run.phase⟩), run) := by
  simp [runTopDown, Phase.ensure, phase]

theorem runTopDown_stranded (stranded : run.Stranded) :
    run.runTopDown =
      (.error (.noEntryBody (run.graph.program.methodName run.graph.program.entry)),
        { run with phase := .topDownRunning }) := by
  simp [runTopDown, Phase.ensure, stranded.1, TopDown.solve?, stranded.2]

theorem runTopDown_done (phase : run.phase = .bottomUpDone) {first : PointId}
    (start : TopDown.start? run.graph = some first) :
    ∃ slice, run.runTopDown = (.ok (), { run with slice := some slice, phase := .done }) := by
  simp [runTopDown, Phase.ensure, phase, TopDown.solve?, start]

theorem runAll_eq : run.runAll.2 = run.runBottomUp.2 ∨ run.runAll.2 = run.runBottomUp.2.runTopDown.2 := by
  unfold runAll
  split
  · next same => exact .inl (by rw [same])
  · next same =>
      right
      split
      · next later => rw [same, later]
      · next later => rw [same, later]

end

/-- What requests keep: where the run is, and that it has its slice just when it is
done. -/
structure Settled (program : Program) (run : SliceRun) : Prop where
  phase : run.phase = .built ∨ run.phase = .bottomUpDone ∨ run.phase = .done ∨
    run.phase = .topDownRunning ∧ program.body program.entry = []
  slice : run.slice.isSome = true ↔ run.phase = .done
  program : run.graph.program = program

namespace Settled

variable {program : Program} {run : SliceRun} (settled : run.Settled program)
include settled

theorem start?_eq : TopDown.start? run.graph = (program.body program.entry).head? := by
  rw [TopDown.start?, settled.program]

theorem stranded_iff :
    run.Stranded ↔ run.phase = .bottomUpDone ∧ program.body program.entry = [] := by
  rw [Stranded, settled.start?_eq, List.head?_eq_none_iff]

theorem backward : run.runBottomUp.2.Settled program := by
  by_cases phase : run.phase = .built
  · have after : run.runBottomUp.2.graph = run.graph ∧ run.runBottomUp.2.slice = run.slice ∧
        run.runBottomUp.2.phase = .bottomUpDone := by
      simp [runBottomUp, Phase.ensure, phase]
    obtain ⟨graph, slice, done⟩ := after
    -- A run that is built has no slice yet, and the backward pass makes none.
    refine ⟨.inr (.inl done), ?_, graph ▸ settled.program⟩
    rw [slice, done, settled.slice, phase]
    simp
  · rw [runBottomUp_refused phase]
    exact settled

theorem forward : run.runTopDown.2.Settled program := by
  by_cases phase : run.phase = .bottomUpDone
  · cases start : TopDown.start? run.graph with
    | none =>
        have stranded : run.Stranded := ⟨phase, start⟩
        have bodyless := (settled.stranded_iff.mp stranded).2
        rw [runTopDown_stranded stranded]
        -- The phase is entered before the pass looks for a body to set out from.
        refine ⟨.inr (.inr (.inr ⟨rfl, bodyless⟩)), ?_, settled.program⟩
        rw [settled.slice, phase]
        simp
    | some first =>
        obtain ⟨slice, done⟩ := runTopDown_done phase start
        rw [done]
        exact ⟨.inr (.inr (.inl rfl)), by simp, settled.program⟩
  · rw [runTopDown_refused phase]
    exact settled

theorem asked (request : Request) : (run.asked request).Settled program := by
  cases request with
  | backward => exact settled.backward
  | forward => exact settled.forward
  | whole =>
      -- Both passes leave what one request after the other leaves.
      unfold SliceRun.asked
      rcases @runAll_eq run with first | both
      · rw [first]
        exact settled.backward
      · rw [both]
        exact settled.backward.forward

theorem after (requests : List Request) : (run.after requests).Settled program := by
  induction requests generalizing run with
  | nil => exact settled
  | cons request rest ih => exact ih (settled.asked request)

theorem result_iff : (∃ slice, run.result = .ok slice) ↔ run.phase = .done := by
  constructor
  · rintro ⟨slice, found⟩
    by_contra phase
    simp [result, Phase.ensure, phase] at found
  · intro phase
    obtain ⟨slice, present⟩ := Option.isSome_iff_exists.mp (settled.slice.mpr phase)
    exact ⟨slice, by simp [result, Phase.ensure, phase, present]⟩

/-- Only a stranded run is changed by a failure, and only in its phase. -/
theorem of_failed_forward {error : Error} (failed : run.runTopDown.1 = .error error) :
    run.runTopDown.2 = if run.phase = .bottomUpDone ∧ program.body program.entry = [] then
      { run with phase := .topDownRunning } else run := by
  by_cases stranded : run.Stranded
  · rw [if_pos (settled.stranded_iff.mp stranded), runTopDown_stranded stranded]
  · rw [if_neg fun both => stranded (settled.stranded_iff.mpr both)]
    by_cases phase : run.phase = .bottomUpDone
    · -- A pass that sets out does not fail.
      obtain ⟨first, start⟩ := Option.ne_none_iff_exists'.mp fun none => stranded ⟨phase, none⟩
      obtain ⟨slice, done⟩ := runTopDown_done phase start
      simp [done] at failed
    · rw [runTopDown_refused phase]

end Settled

theorem of_failed_backward {run : SliceRun} {error : Error}
    (failed : run.runBottomUp.1 = .error error) : run.runBottomUp.2 = run := by
  by_cases phase : run.phase = .built
  · simp [runBottomUp, Phase.ensure, phase] at failed
  · rw [runBottomUp_refused phase]

theorem bottomUpFactsAt_iff {run : SliceRun} {point : PointId} :
    (∃ facts, run.bottomUpFactsAt point = .ok facts) ↔ run.phase = .done := by
  by_cases phase : run.phase = .done <;> simp [bottomUpFactsAt, Phase.ensure, phase]

theorem after_of_running {run : SliceRun} (phase : run.phase = .topDownRunning)
    (requests : List Request) : run.after requests = run := by
  have backward : run.runBottomUp = (.error (.phase ⟨.built, run.phase⟩), run) :=
    runBottomUp_refused (by simp [phase])
  have forward : run.runTopDown = (.error (.phase ⟨.bottomUpDone, run.phase⟩), run) :=
    runTopDown_refused (by simp [phase])
  induction requests with
  | nil => rfl
  | cons request rest ih =>
      have same : run.asked request = run := by
        cases request with
        | backward => simp [asked, backward]
        | forward => simp [asked, forward]
        | whole => simp [asked, runAll, backward]
      rw [after, List.foldl_cons, same]
      exact ih

theorem settled_of_prepare {program : Program} {config : Config} {tail : PointId}
    {sequences : List Fact} {run : SliceRun}
    (prepared : prepare program config tail sequences = .ok run) :
    run.phase = .built ∧ run.Settled program := by
  obtain ⟨graph, tags, extension, built, _, rfl⟩ := prepare_eq_ok_iff.mp prepared
  exact ⟨rfl, .inl rfl, by simp [fresh], (graph_of_buildGraph built).1⟩

/-- The run is never found in the phase of a pass, unless the entry method has no body.
Queries are granted when it is done and not before, and a failed pass leaves the run as
it was. The exception is the forward pass without a body to set out from: it changes
the phase to its own, and nothing is granted any more. -/
theorem phase_after {program : Program} {config : Config} {tail : PointId} {sequences : List Fact}
    {run : SliceRun} (prepared : prepare program config tail sequences = .ok run) :
    ((∀ requests, (run.after requests).phase ∈ [Phase.built, .bottomUpDone, .done]) ↔
      program.body program.entry ≠ []) ∧
    ∀ requests later, later = run.after requests →
      ((∃ slice, later.result = .ok slice) ↔ later.phase = .done) ∧
      (∀ point, (∃ facts, later.bottomUpFactsAt point = .ok facts) ↔ later.phase = .done) ∧
      (∀ error, later.runBottomUp.1 = .error error → later.runBottomUp.2 = later) ∧
      (∀ error, later.runTopDown.1 = .error error →
        later.runTopDown.2 = if later.phase = .bottomUpDone ∧ program.body program.entry = [] then
          { later with phase := .topDownRunning } else later) ∧
      (later.phase = .topDownRunning → ∀ more, later.after more = later) := by
  obtain ⟨built, settled⟩ := settled_of_prepare prepared
  refine ⟨⟨fun never bodyless => ?_, fun some requests => ?_⟩, ?_⟩
  · -- Without a body, asking for both passes strands the run.
    have backed : run.backed.Stranded :=
      settled.backward.stranded_iff.mpr ⟨phase_backed built, bodyless⟩
    have stuck : (run.after [.backward, .forward]).phase = .topDownRunning := by
      change run.backed.runTopDown.2.phase = .topDownRunning
      rw [runTopDown_stranded backed]
    simpa [stuck] using never [.backward, .forward]
  · rcases (settled.after requests).phase with built | backed | done | ⟨_, bodyless⟩
    · simp [built]
    · simp [backed]
    · simp [done]
    · exact absurd bodyless some
  · rintro requests _ rfl
    have later := settled.after requests
    exact ⟨later.result_iff, fun _ => bottomUpFactsAt_iff, fun _ => of_failed_backward,
      fun _ => later.of_failed_forward, after_of_running⟩

/-- A refused forward pass, both passes, and the first one once more. -/
theorem helperProgram_phases :
    ∃ run, prepare helperProgram plainConfig 1 [.seq [5, 1]] = .ok run ∧
      run.runTopDown.2 = run ∧
      (run.after [.forward, .backward, .forward, .backward]).phase = .done ∧
      ∃ slice, (run.after [.forward, .backward, .forward, .backward]).result = .ok slice := by
  have evaluated : ((prepare helperProgram plainConfig 1 [.seq [5, 1]]).toOption.map fun run =>
      (run.after [.forward, .backward, .forward, .backward]).phase) = some .done := by cbv
  obtain ⟨run, made, done⟩ := Option.map_eq_some_iff.mp evaluated
  have prepared := ok_of_toOption made
  obtain ⟨_, settles⟩ := phase_after prepared
  obtain ⟨result, _⟩ := settles [.forward, .backward, .forward, .backward] _ rfl
  obtain ⟨_, _, _, unchanged, _⟩ := settles [] run rfl
  have early : run.phase ≠ .bottomUpDone := by simp [(settled_of_prepare prepared).1]
  refine ⟨run, prepared, ?_, done, result.mpr done⟩
  rw [unchanged _ (congrArg Prod.fst (runTopDown_refused early)), if_neg]
  exact fun both => early both.1

end SliceRun

/-- Only a method beside the entry has a body. -/
def bodylessListing : Listing where
  entry := some 0
  classes := [⟨0, "Main", none, [], false, false⟩]
  methods := [⟨0, 0, "main", "", true, false, []⟩, ⟨1, 0, "helper", "", true, false, [0]⟩,
    ⟨2, 0, "api", "", true, false, []⟩]
  points := [⟨0, 1, 1, .call ⟨2, .static, none, [], none⟩, ""⟩]
  edges := []
  calls := [⟨0, 2⟩]
  allocSites := []
  pointsTo := []

def bodylessProgram : Program := ⟨bodylessListing, 0, rfl, by decide⟩

/-- The forward pass fails and has left its phase entered. -/
theorem bodylessProgram_stranded :
    ∃ run, SliceRun.prepare bodylessProgram plainConfig 0 [.seq [0]] = .ok run ∧
      (run.after [.backward]).phase = .bottomUpDone ∧
      (run.after [.backward]).runTopDown.1 = .error (.noEntryBody "main") ∧
      (run.after [.backward]).runTopDown.2.phase = .topDownRunning := by
  have evaluated : ((SliceRun.prepare bodylessProgram plainConfig 0 [.seq [0]]).toOption.map
      fun run => ((run.after [.backward]).phase,
        match (run.after [.backward]).runTopDown.1 with
        | .error error => some error
        | .ok () => none,
        (run.after [.backward]).runTopDown.2.phase)) =
      some (.bottomUpDone, some (.noEntryBody "main"), .topDownRunning) := by cbv
  obtain ⟨run, made, outcome⟩ := Option.map_eq_some_iff.mp evaluated
  simp only [Prod.mk.injEq] at outcome
  obtain ⟨backed, failed, running⟩ := outcome
  refine ⟨run, ok_of_toOption made, backed, ?_, running⟩
  split at failed
  · next error found => rw [found, Option.some.inj failed]
  · cases failed

end SeqSlice
