import SeqSlice.Proofs.Error
import SeqSlice.Proofs.Slice.FactTable
import SeqSlice.Proofs.Slice.Journey
import SeqSlice.Proofs.Solver.Table
import SeqSlice.Proofs.Supergraph.Linked
import SeqSlice.Proofs.Tag.Table
import SeqSlice.Slice.Run

/-! What a run without extension comes to, in terms of its two passes: which
statements the forward pass may step onto, which matches it sets out with, and
which statements are kept in the end. -/

set_option autoImplicit false
namespace SeqSlice

namespace Tabulation

variable {D : Type} [DecidableEq D] {table : Tabulation D} {point : PointId} {fact : D}

theorem mem_factsAt : fact ∈ table.factsAt point ↔ table.holds point fact = true := by
  rw [holds_iff]
  simp only [factsAt, List.mem_eraseDups, List.mem_map, List.mem_filter, beq_iff_eq]
  constructor
  · rintro ⟨edge, ⟨listed, rfl⟩, rfl⟩
    exact ⟨edge.entry, listed⟩
  · rintro ⟨entry, listed⟩
    exact ⟨_, ⟨listed, rfl⟩, rfl⟩

theorem mem_visited_of_holds (found : table.holds point fact = true) : point ∈ table.visited := by
  obtain ⟨entry, listed⟩ := holds_iff.mp found
  exact List.mem_eraseDups.mpr (List.mem_map.mpr ⟨_, listed, rfl⟩)

end Tabulation

theorem Criteria.isPoint_of_mem {criteria : Criteria} {criterion : Fact}
    (member : criterion ∈ criteria.sequences) {call : PointId} (inside : call ∈ criterion.points) :
    criteria.isPoint call = true := by
  simp only [isPoint, points, List.contains_eq_mem, decide_eq_true_eq, List.mem_eraseDups,
    List.mem_flatMap]
  exact ⟨criterion, member, inside⟩

theorem ok_of_toOption {ε α : Type} {result : Except ε α} {value : α}
    (given : result.toOption = some value) : result = .ok value := by
  cases result with
  | error _ => simp [Except.toOption] at given
  | ok found => simpa [Except.toOption] using given

namespace SliceRun

/-- A run as it is prepared for criteria that are taken as they are. -/
structure Plain (run : SliceRun) (program : Program) (config : Config) (sequences : List Fact) :
    Prop where
  program : run.graph.program = program
  linked : run.graph.Linked
  config : run.config = config
  criteria : run.criteria = Criteria.ofList sequences
  tags : run.tags = .empty
  phase : run.phase = .built

/-- Whatever is cut before, the graph is built in one go from a plan. -/
theorem build_of_buildGraph {program : Program} {config : Config} {criteria : Criteria}
    {graph : Supergraph} (built : buildGraph program config criteria = .ok graph) :
    ∃ plan : CyclePlan, plan.StaysIn program ∧
      Supergraph.build program criteria.specified plan config = .ok graph := by
  unfold buildGraph at built
  split at built
  · exact ⟨.empty, CyclePlan.empty_staysIn, built⟩
  · cases loopFree : Supergraph.build program criteria.specified program.loopPlan config with
    | error _ => simp [loopFree, bind, Except.bind] at built
    | ok cut =>
        simp only [loopFree, bind, Except.bind] at built
        -- Blocking recursion does not touch the redirections.
        have stays : (program.loopPlan.blockRecursion cut).StaysIn program :=
          program.loopPlan_staysIn
        exact ⟨_, stays, built⟩

theorem graph_of_buildGraph {program : Program} {config : Config} {criteria : Criteria}
    {graph : Supergraph} (built : buildGraph program config criteria = .ok graph) :
    graph.program = program ∧ graph.Linked := by
  obtain ⟨plan, stays, planned⟩ := build_of_buildGraph built
  exact ⟨Supergraph.program_of_build planned, Supergraph.linked_of_build stays planned⟩

theorem point_of_buildGraph {program : Program} {config : Config} {criteria : Criteria}
    {id : UnknownId} (failed : buildGraph program config criteria = .error id) :
    ∃ point, id = .point point := by
  have point_of_build {plan : CyclePlan} {id : UnknownId}
      (failed : Supergraph.build program criteria.specified plan config = .error id) :
      ∃ point, id = .point point := by
    unfold Supergraph.build at failed
    split at failed
    · next point _ => exact ⟨point, (Except.error.inj failed).symm⟩
    · cases failed
  unfold buildGraph at failed
  split at failed
  · exact point_of_build failed
  · rcases bind_eq_error_iff.mp failed with early | ⟨_, _, late⟩
    · exact point_of_build early
    · exact point_of_build late

theorem isSpecified_of_buildGraph {program : Program} {config : Config} {criteria : Criteria}
    {graph : Supergraph} (built : buildGraph program config criteria = .ok graph) {point : PointId} :
    graph.isSpecified point = true ↔ point ∈ criteria.specified := by
  obtain ⟨plan, _, planned⟩ := build_of_buildGraph built
  rw [Supergraph.isSpecified, Supergraph.eq_assemble_of_build planned, Supergraph.specified_assemble,
    List.contains_eq_mem, decide_eq_true_eq, mem_ascending]

theorem plain_of_prepare {program : Program} {config : Config} {tail : PointId}
    {sequences : List Fact} {run : SliceRun} (asTheyAre : config.extendCriteria = false)
    (prepared : prepare program config tail sequences = .ok run) :
    run.Plain program config sequences := by
  unfold prepare at prepared
  cases made : buildGraph program config (Criteria.ofList sequences) with
  | error _ => simp [made, Except.mapError, bind, Except.bind] at prepared
  | ok graph =>
      simp only [made, Except.mapError, bind, Except.bind, asTheyAre, pure, Except.pure] at prepared
      cases prepared
      obtain ⟨same, linked⟩ := graph_of_buildGraph made
      exact ⟨same, linked, rfl, rfl, rfl, rfl⟩

theorem mem_properFacts {table : Tabulation Fact} {point : PointId} {fact : Fact} :
    fact ∈ properFacts table point ↔ table.holds point fact = true ∧ fact ≠ .zero := by
  rw [properFacts, List.mem_filter, Tabulation.mem_factsAt]
  simp only [Bool.not_eq_true', ne_eq, ← Fact.isZero_iff, Bool.not_eq_true]

variable (run : SliceRun)

def Builds (point : PointId) (fact : Fact) : Prop :=
  (BottomUp.solve run.graph run.criteria).holds point fact = true ∧ fact ≠ .zero

def backed : SliceRun := run.runBottomUp.2

def region : List PointId := run.backed.tags.pointsWith .bottomUpReachable

def waiting : List Fact := run.criteria.seeds run.backed.factsAtStart

def followed (first : PointId) : Tabulation Fact :=
  solve (run.graph.restricted run.region).toInterGraph
    (TopDown.problem run.graph run.criteria run.config first run.waiting)
    run.graph.program.points.length (TopDown.factBound run.waiting)

/-- Both passes have something to say about the statement, and they agree. -/
def Agrees (first point : PointId) : Prop :=
  (∃ fact, run.Builds point fact) ∧
    ∃ fact, (run.followed first).holds point fact = true ∧ fact ≠ .zero ∧
      (fact = .epsilon ∨ ∃ other, run.Builds point other ∧ fact.points = other.points)

variable {run}

theorem runBottomUp_of_built (phase : run.phase = .built) :
    run.runBottomUp = (.ok (), run.backed) := by
  simp [backed, runBottomUp, phase, Phase.ensure]

section
variable (phase : run.phase = .built)
include phase

theorem phase_backed : run.backed.phase = .bottomUpDone := by
  simp [backed, runBottomUp, phase, Phase.ensure]

theorem graph_backed : run.backed.graph = run.graph := by
  simp [backed, runBottomUp, phase, Phase.ensure]

theorem bottomUp_backed : run.backed.bottomUp =
    FactTable.ofFacts (properFacts (BottomUp.solve run.graph run.criteria))
      (BottomUp.solve run.graph run.criteria).visited := by
  simp [backed, runBottomUp, phase, Phase.ensure]

theorem mem_factsAt_backed {point : PointId} {fact : Fact} :
    fact ∈ run.backed.bottomUp.factsAt point ↔ run.Builds point fact := by
  rw [bottomUp_backed phase, FactTable.mem_factsAt_ofFacts, mem_properFacts]
  exact ⟨fun member => member.2, fun builds => ⟨Tabulation.mem_visited_of_holds builds.1, builds⟩⟩

theorem mem_factsAtStart_backed {fact : Fact} :
    fact ∈ run.backed.factsAtStart ↔
      ∃ start ∈ run.graph.program.starts run.graph.program.entry, run.Builds start fact := by
  simp only [factsAtStart, List.mem_eraseDups, List.mem_flatMap, mem_factsAt_backed phase,
    graph_backed phase]

theorem mem_reached_backed {point : PointId} :
    point ∈ run.backed.bottomUp.reached ↔ ∃ fact, run.Builds point fact := by
  rw [bottomUp_backed phase, FactTable.mem_reached_ofFacts]
  constructor
  · rintro ⟨_, some⟩
    obtain ⟨fact, member⟩ := List.exists_mem_of_ne_nil _ some
    exact ⟨fact, mem_properFacts.mp member⟩
  · rintro ⟨fact, builds⟩
    exact ⟨Tabulation.mem_visited_of_holds builds.1, List.ne_nil_of_mem (mem_properFacts.mpr builds)⟩

end

theorem mem_region (phase : run.phase = .built)
    (untagged : ∀ point, (point, Tag.bottomUpReachable) ∉ run.tags.points) {point : PointId} :
    point ∈ run.region ↔ ∃ fact, run.Builds point fact := by
  have tags : run.backed.tags =
      (run.tags.tagPoints (BottomUp.solve run.graph run.criteria).visited
        .mainReachable).tagPoints run.backed.bottomUp.reached .bottomUpReachable := by
    simp [backed, runBottomUp, phase, Phase.ensure]
  rw [region, TagTable.mem_pointsWith, tags, TagTable.mem_tagPoints, TagTable.mem_tagPoints,
    ← mem_reached_backed phase]
  simp [untagged]

section
variable {program : Program} {config : Config} {sequences : List Fact}
variable (plain : run.Plain program config sequences)
include plain

theorem Plain.mem_region {point : PointId} :
    point ∈ run.region ↔ ∃ fact, run.Builds point fact :=
  SliceRun.mem_region plain.phase (by simp [plain.tags, TagTable.empty])

theorem Plain.hasExtension : run.criteria.hasExtension = false := by
  rw [plain.criteria]
  rfl

theorem Plain.criterion_eq_left {criterion : Fact} (member : criterion ∈ run.criteria.sequences) :
    criterion = Fact.left criterion.points ∧ criterion.points ≠ [] := by
  rw [plain.criteria] at member
  have some := (Criteria.mem_sequences_ofList.mp member).2
  cases criterion with
  | epsilon => simp [Fact.isEmpty, Fact.points] at some
  | seq calls =>
      have nonempty : calls ≠ [] := by simpa [Fact.isEmpty, Fact.points] using some
      exact ⟨(Fact.left_of_ne_nil nonempty).symm, nonempty⟩

theorem Plain.mem_waiting {fact : Fact} :
    fact ∈ run.waiting ↔ fact ∈ run.criteria.sequences ∧
      ∃ start ∈ program.starts program.entry, run.Builds start fact := by
  simp only [waiting, Criteria.seeds, plain.hasExtension, Fact.mem_sorted, Bool.false_eq_true,
    if_false, List.mem_filter, mem_factsAtStart_backed plain.phase, Criteria.isCriterion,
    List.contains_eq_mem, decide_eq_true_eq, plain.program]
  exact and_comm

end

theorem keeps_iff (phase : run.phase = .built) {first point : PointId} :
    keeps run.backed.bottomUp (run.followed first) point = true ↔ run.Agrees first point := by
  simp only [keeps, Bool.and_eq_true, Bool.or_eq_true, List.any_eq_true, Bool.not_eq_true',
    List.isEmpty_eq_false_iff, mem_properFacts, mem_factsAt_backed phase, Fact.sameContent,
    beq_iff_eq]
  constructor
  · rintro ⟨⟨_, some⟩, agree⟩
    obtain ⟨fact, member⟩ := List.exists_mem_of_ne_nil _ some
    refine ⟨⟨fact, (mem_factsAt_backed phase).mp member⟩, ?_⟩
    rcases agree with ⟨fact, ⟨holds, proper⟩, complete⟩ | ⟨fact, ⟨holds, proper⟩, other, builds, same⟩
    · cases fact with
      | epsilon => exact ⟨_, holds, proper, .inl rfl⟩
      | seq _ => simp [Fact.isEpsilon] at complete
    · exact ⟨fact, holds, proper, .inr ⟨other, builds, same⟩⟩
  · rintro ⟨⟨built, builds⟩, fact, holds, proper, agree⟩
    refine ⟨⟨List.ne_nil_of_mem (mem_properFacts.mpr ⟨holds, proper⟩),
      List.ne_nil_of_mem ((mem_factsAt_backed phase).mpr builds)⟩, ?_⟩
    rcases agree with rfl | ⟨other, found, same⟩
    · exact .inl ⟨_, ⟨holds, proper⟩, rfl⟩
    · exact .inr ⟨fact, ⟨holds, proper⟩, other, found, same⟩

theorem mem_project {program : Program} {bottomUp : FactTable} {topDown : Tabulation Fact}
    {point : PointId} :
    point ∈ (project program bottomUp topDown).flatMap (·.2) ↔
      (∃ method, point ∈ program.body method) ∧ keeps bottomUp topDown point = true := by
  simp only [project, List.mem_flatMap, List.mem_filter, List.mem_map]
  constructor
  · rintro ⟨_, ⟨⟨method, _, rfl⟩, _⟩, listed⟩
    obtain ⟨inBody, kept⟩ := List.mem_filter.mp listed
    exact ⟨⟨method, inBody⟩, kept⟩
  · rintro ⟨⟨method, inBody⟩, kept⟩
    have listed : point ∈ (program.body method).filter (keeps bottomUp topDown) :=
      List.mem_filter.mpr ⟨inBody, kept⟩
    refine ⟨_, ⟨⟨method, Program.mem_methodsWithBodies inBody, rfl⟩, ?_⟩, listed⟩
    simpa using List.ne_nil_of_mem listed

theorem project_eq_nil {program : Program} {bottomUp : FactTable} {topDown : Tabulation Fact}
    (none : (project program bottomUp topDown).flatMap (·.2) = []) :
    project program bottomUp topDown = [] := by
  rw [List.eq_nil_iff_forall_not_mem]
  intro entry listed
  have some := (List.mem_filter.mp listed).2
  have empty := List.flatMap_eq_nil_iff.mp none entry listed
  simp [empty] at some

section
variable {program : Program} {config : Config} {sequences : List Fact}
variable (plain : run.Plain program config sequences)
include plain

/-- A program that can be set out on has a slice: the statements of bodies on which
the passes agree. -/
theorem Plain.runAll_of_start {first : PointId}
    (found : (program.body program.entry).head? = some first) :
    ∃ slice, run.runAll.1 = .ok slice ∧ run.runAll.2.phase = .done ∧
      run.runAll.2.bottomUp = run.backed.bottomUp ∧
      (∀ point, point ∈ slice.points ↔
        (∃ method, point ∈ program.body method) ∧ run.Agrees first point) ∧
      (slice.points = [] → slice.isEmpty = true) := by
  have start : TopDown.start? run.graph = some first := by
    rw [TopDown.start?, plain.program]
    exact found
  have phase := phase_backed plain.phase
  have graph := graph_backed plain.phase
  have same : run.backed.criteria = run.criteria ∧ run.backed.config = run.config := by
    simp [backed, runBottomUp, plain.phase, Phase.ensure]
  have solved : TopDown.solve? run.backed.graph run.backed.criteria run.backed.config
      (run.backed.criteria.seeds run.backed.factsAtStart)
      (run.backed.tags.pointsWith .bottomUpReachable) = some (run.followed first) := by
    rw [TopDown.solve?, graph, same.1, same.2, start]
    rfl
  refine ⟨⟨run.backed.tail, run.backed.criteria.sequences.map (·.points),
    project run.backed.graph.program run.backed.bottomUp (run.followed first)⟩, ?_, ?_, ?_, ?_, ?_⟩
  · simp [runAll, runBottomUp_of_built plain.phase, runTopDown, phase, Phase.ensure, solved, result]
  · simp [runAll, runBottomUp_of_built plain.phase, runTopDown, phase, Phase.ensure, solved]
  · simp [runAll, runBottomUp_of_built plain.phase, runTopDown, phase, Phase.ensure, solved]
  · intro point
    rw [Slice.points, mem_project, graph, plain.program, keeps_iff plain.phase]
  · intro none
    simp [Slice.isEmpty, project_eq_nil none]

theorem Plain.runAll_of_no_start (found : (program.body program.entry).head? = none) :
    ∃ error, run.runAll.1 = .error error := by
  have phase := phase_backed plain.phase
  have start : TopDown.start? run.backed.graph = none := by
    rw [TopDown.start?, graph_backed plain.phase, plain.program]
    exact found
  refine ⟨.noEntryBody (run.backed.graph.program.methodName run.backed.graph.program.entry), ?_⟩
  simp [runAll, runBottomUp_of_built plain.phase, runTopDown, phase, Phase.ensure, TopDown.solve?,
    start]

end
end SliceRun

/-- The entry method calls a helper and then a method without body, which the helper
has called before. -/
def helperListing : Listing where
  entry := some 0
  classes := [⟨0, "Main", none, [], false, false⟩]
  methods := [⟨0, 0, "main", "", true, false, [0, 1, 2, 3]⟩,
    ⟨1, 0, "helper", "", true, false, [4, 5, 6]⟩, ⟨2, 0, "api", "", true, false, []⟩]
  points := [⟨0, 0, 1, .call ⟨1, .static, none, [], none⟩, ""⟩,
    ⟨1, 0, 2, .call ⟨2, .static, none, [], none⟩, ""⟩, ⟨2, 0, 3, .plain, ""⟩, ⟨3, 0, 4, .plain, ""⟩,
    ⟨4, 1, 5, .plain, ""⟩, ⟨5, 1, 6, .call ⟨2, .static, none, [], none⟩, ""⟩, ⟨6, 1, 7, .plain, ""⟩]
  edges := [⟨0, 1, false⟩, ⟨1, 2, false⟩, ⟨2, 3, false⟩, ⟨4, 5, false⟩, ⟨5, 6, false⟩]
  calls := [⟨0, 1⟩, ⟨1, 2⟩, ⟨5, 2⟩]
  allocSites := []
  pointsTo := []

def helperProgram : Program := ⟨helperListing, 0, rfl, by decide⟩

def plainConfig : Config := { Config.default with extendCriteria := false }

/-- The slice for the two calls without body; nothing behind them is kept. -/
example : ((SliceRun.prepare helperProgram plainConfig 1 [.seq [5, 1]]).toOption.bind fun run =>
    run.runAll.1.toOption.map (·.methods)) = some [(0, [0, 1]), (1, [4, 5, 6])] := by cbv

end SeqSlice
