import SeqSlice.Proofs.Slice.Outcome

/-! What a run is before its passes: a graph, and with extension the tags and the
relation that are found in it. -/

set_option autoImplicit false
namespace SeqSlice.SliceRun

/-- The tags and the extension relation that a run begins with, none without
extension. -/
def supplement (graph : Supergraph) (config : Config) (criteria : Criteria) :
    Except ExtensionError (TagTable × Extension) :=
  if config.extendCriteria then
    (graph.extension criteria (structureTags graph) config).map fun extension =>
      (structureTags graph, extension)
  else .ok (.empty, .empty)

def fresh (config : Config) (tail : PointId) (criteria : Criteria) (graph : Supergraph)
    (tags : TagTable) : SliceRun :=
  { config, tail, criteria, graph, tags, phase := .built, bottomUp := .empty, slice := none }

variable {program : Program} {config : Config} {tail : PointId} {sequences : List Fact}
  {run : SliceRun}

theorem prepare_eq_ok_iff :
    prepare program config tail sequences = .ok run ↔
      ∃ graph tags extension, buildGraph program config (.ofList sequences) = .ok graph ∧
        supplement graph config (.ofList sequences) = .ok (tags, extension) ∧
        run = fresh config tail { Criteria.ofList sequences with extension } graph tags := by
  unfold prepare supplement
  cases made : buildGraph program config (Criteria.ofList sequences) with
  | error _ => simp [made, Except.mapError, bind, Except.bind]
  | ok graph =>
      cases extending : config.extendCriteria with
      | false =>
          have same : { Criteria.ofList sequences with extension := .empty } =
              Criteria.ofList sequences := rfl
          simp [made, Except.mapError, bind, Except.bind, pure, Except.pure, fresh, eq_comm, same]
      | true =>
          cases found : graph.extension (Criteria.ofList sequences) (structureTags graph) config with
          | error _ => simp [made, found, Except.mapError, bind, Except.bind, Except.map]
          | ok extension =>
              simp [made, found, Except.mapError, bind, Except.bind, pure, Except.pure, Except.map,
                fresh, eq_comm]

theorem graph_of_prepare (prepared : prepare program config tail sequences = .ok run) :
    run.phase = .built ∧ run.graph.program = program ∧ run.graph.Linked := by
  obtain ⟨graph, tags, extension, built, _, rfl⟩ := prepare_eq_ok_iff.mp prepared
  exact ⟨rfl, graph_of_buildGraph built⟩

theorem runAll_of_built (phase : run.phase = .built) :
    run.runAll.1 =
      match TopDown.start? run.graph with
      | none => .error (.noEntryBody (run.graph.program.methodName run.graph.program.entry))
      | some first => .ok ⟨run.tail, run.criteria.sequences.map (·.points),
          project run.graph.program run.backed.bottomUp (run.followed first)⟩ := by
  have backed : run.backed.graph = run.graph ∧ run.backed.criteria = run.criteria ∧
      run.backed.config = run.config ∧ run.backed.tail = run.tail := by
    simp [backed, runBottomUp, phase, Phase.ensure]
  obtain ⟨graph, criteria, config, tail⟩ := backed
  have waiting : run.criteria.seeds run.backed.factsAtStart = run.waiting := rfl
  have region : run.backed.tags.pointsWith .bottomUpReachable = run.region := rfl
  cases start : TopDown.start? run.graph with
  | none =>
      simp [runAll, runBottomUp_of_built phase, runTopDown, phase_backed phase, Phase.ensure,
        TopDown.solve?, graph, start]
  | some first =>
      simp [runAll, runBottomUp_of_built phase, runTopDown, phase_backed phase, Phase.ensure,
        TopDown.solve?, graph, criteria, config, tail, start, waiting, region, result, followed]

end SeqSlice.SliceRun
