import SeqSlice.Proofs.Slice.Arrangement
import SeqSlice.Proofs.Slice.EarlyTaking
import SeqSlice.Proofs.Slice.Ending
import SeqSlice.Proofs.Tag.Cycle

/-! Extension with a relation that has no pairs. Nothing can be put before a match, so
the backward pass is the one without extension. Two differences remain in the forward
pass. It sets out with the longest of the matches found and not with the criteria; and
a call that is waited for is taken off where it enters a method, not only past it. -/

set_option autoImplicit false
namespace SeqSlice

def Criteria.Pairless (criteria : Criteria) : Prop := ∀ row ∈ criteria.extension.rows, row.2 = []

namespace Criteria.Pairless

variable {criteria : Criteria} (pairless : criteria.Pairless)
include pairless

theorem before (point : PointId) : criteria.extension.before point = [] := by
  have none : (criteria.extension.rows.filter (·.1 == point)).flatMap (·.2) = [] :=
    List.flatMap_eq_nil_iff.mpr fun row listed => pairless row (List.mem_filter.mp listed).1
  rw [Extension.before, none, List.eraseDups_nil]

theorem extends?_eq (point : PointId) (fact : Fact) :
    BottomUp.extends? criteria point fact = BottomUp.extends? criteria.bare point fact := by
  unfold BottomUp.extends? canExtend
  rw [show criteria.bare.hasExtension = false from rfl]
  cases fact.head? <;> simp [pairless.before]

theorem factBound : BottomUp.factBound criteria = BottomUp.factBound criteria.bare := by
  have none : criteria.extension.rows.flatMap (·.2) = [] := List.flatMap_eq_nil_iff.mpr pairless
  rw [BottomUp.factBound, none, BottomUp.factBound]
  rfl

theorem bottomUp_solve (graph : Supergraph) :
    BottomUp.solve graph criteria = BottomUp.solve graph criteria.bare := by
  have problem : BottomUp.problem graph criteria = BottomUp.problem graph criteria.bare :=
    BottomUp.problem_congr (funext fun point => funext (pairless.extends?_eq point)) rfl rfl rfl
  rw [BottomUp.solve, pairless.factBound, problem, BottomUp.solve]

end Criteria.Pairless

namespace TagTable

theorem pointsWith_congr {first second : TagTable} {tag : Tag}
    (same : ∀ point, point ∈ first.pointsWith tag ↔ point ∈ second.pointsWith tag) :
    first.pointsWith tag = second.pointsWith tag :=
  ascending_congr fun point => by simpa only [pointsWith, mem_ascending] using same point

end TagTable

namespace SliceRun

theorem untagged_structureTags (graph : Supergraph) (point : PointId) :
    (point, Tag.bottomUpReachable) ∉ (structureTags graph).points := by
  rw [structureTags, TagTable.mem_addCycles]
  rintro (structural | ⟨_, cycle⟩)
  · rcases TagTable.of_mem_addMethods structural with before | branch
    · simp [TagTable.empty] at before
    · cases branch
  · cases cycle

def bare (run : SliceRun) : SliceRun :=
  { run with
    config := { run.config with extendCriteria := false }
    criteria := run.criteria.bare
    tags := .empty }

theorem phase_bare {run : SliceRun} (phase : run.phase = .built) : run.bare.phase = .built := phase

section
variable {program : Program} {config : Config} {tail : PointId} {sequences : List Fact}
  {run : SliceRun}

theorem buildGraph_extendCriteria (criteria : Criteria) (flag : Bool) :
    buildGraph program { config with extendCriteria := flag } criteria =
      buildGraph program config criteria := rfl

theorem prepare_bare (prepared : prepare program config tail sequences = .ok run) :
    prepare program { config with extendCriteria := false } tail sequences = .ok run.bare := by
  obtain ⟨graph, tags, extension, built, _, rfl⟩ := prepare_eq_ok_iff.mp prepared
  exact prepare_eq_ok_iff.mpr ⟨graph, .empty, .empty, buildGraph_extendCriteria _ _ ▸ built, rfl, rfl⟩

theorem untagged_of_prepare (prepared : prepare program config tail sequences = .ok run)
    (point : PointId) : (point, Tag.bottomUpReachable) ∉ run.tags.points := by
  obtain ⟨graph, tags, extension, _, supplied, rfl⟩ := prepare_eq_ok_iff.mp prepared
  unfold supplement at supplied
  split at supplied
  · cases found : graph.extension (Criteria.ofList sequences) (structureTags graph) config with
    | error _ => simp [found, Except.map] at supplied
    | ok relation =>
        simp only [found, Except.map, Except.ok.injEq, Prod.mk.injEq] at supplied
        obtain ⟨rfl, -⟩ := supplied
        exact untagged_structureTags graph point
  · simp only [Except.ok.injEq, Prod.mk.injEq] at supplied
    obtain ⟨rfl, -⟩ := supplied
    simp [fresh, TagTable.empty]

end

/-! ## The backward pass of both -/

section
variable {run : SliceRun} (phase : run.phase = .built) (pairless : run.criteria.Pairless)
include pairless

theorem builds_bare {point : PointId} {fact : Fact} :
    run.bare.Builds point fact ↔ run.Builds point fact := by
  rw [Builds, Builds, pairless.bottomUp_solve]
  rfl

include phase

theorem bottomUp_bare : run.bare.backed.bottomUp = run.backed.bottomUp := by
  rw [bottomUp_backed phase, bottomUp_backed (phase_bare phase), pairless.bottomUp_solve]
  rfl

theorem factsAtStart_bare : run.bare.backed.factsAtStart = run.backed.factsAtStart := by
  rw [factsAtStart, bottomUp_bare phase pairless, graph_backed (phase_bare phase),
    factsAtStart, graph_backed phase]
  rfl

theorem region_bare (untagged : ∀ point, (point, Tag.bottomUpReachable) ∉ run.tags.points) :
    run.bare.region = run.region := by
  refine TagTable.pointsWith_congr fun point => ?_
  have plain : point ∈ run.bare.region ↔ _ :=
    mem_region (phase_bare phase) (by simp [bare, TagTable.empty])
  simp only [builds_bare pairless] at plain
  exact plain.trans (mem_region phase untagged).symm

end

/-! ## The matches that the forward pass sets out with -/

/-- No criterion that is built where the program starts ends a longer match there. -/
def Separate (run : SliceRun) : Prop :=
  ∀ fact ∈ run.backed.factsAtStart, fact ∈ run.criteria.sequences →
    ∀ other ∈ run.backed.factsAtStart, fact.isStrictSuffixOf other = false

def pass (run : SliceRun) (criteria : Criteria) (first : PointId) : Tabulation Fact :=
  solve (run.graph.restricted run.region).toInterGraph
    (TopDown.problem run.graph criteria run.config first run.waiting)
    run.graph.program.points.length (TopDown.factBound run.waiting)

section
variable {program : Program} {config : Config} {tail : PointId} {sequences : List Fact}
  {run : SliceRun} (prepared : prepare program config tail sequences = .ok run)
include prepared

theorem plain_bare : run.bare.Plain program { config with extendCriteria := false } sequences :=
  plain_of_prepare rfl (prepare_bare prepared)

variable (pairless : run.criteria.Pairless)
include pairless

theorem criterion_mem_factsAtStart {fact criterion : Fact}
    (found : fact ∈ run.backed.factsAtStart) (member : criterion ∈ run.criteria.sequences)
    (ends : criterion.isStrictSuffixOf fact = true) : criterion ∈ run.backed.factsAtStart := by
  have phase := (graph_of_prepare prepared).1
  have plain := plain_bare prepared
  obtain ⟨start, isStart, builds⟩ := (mem_factsAtStart_backed phase).mp found
  have built := (builds_bare pairless).mpr builds
  obtain ⟨calls, rfl, -⟩ := plain.criterion_of_builds built
  obtain ⟨same, some⟩ := plain.criterion_eq_left member
  rw [Fact.left_of_ne_nil some] at same
  have suffix : criterion.points <:+ calls := by
    simp only [Fact.isStrictSuffixOf, Bool.and_eq_true, List.isSuffixOf_iff_suffix] at ends
    exact ends.2
  have shorter := plain.builds_suffix built some suffix
  rw [← same] at shorter
  exact (mem_factsAtStart_backed phase).mpr ⟨start, isStart, (builds_bare pairless).mp shorter⟩

/-- Where criteria are separate, the longest matches that end with a criterion are the
criteria. -/
theorem waiting_bare (separate : run.Separate) : run.bare.waiting = run.waiting := by
  have phase := (graph_of_prepare prepared).1
  have known : ∀ fact ∈ run.backed.factsAtStart,
      ((run.criteria.sequences.any fun criterion => criterion == fact || criterion.isStrictSuffixOf fact) &&
        !run.backed.factsAtStart.any fact.isStrictSuffixOf) = run.criteria.isCriterion fact := by
    intro fact found
    rw [Bool.eq_iff_iff]
    simp only [Bool.and_eq_true, List.any_eq_true, Bool.or_eq_true, beq_iff_eq, Bool.not_eq_true',
      List.any_eq_false, Criteria.isCriterion, List.contains_eq_mem, decide_eq_true_eq,
      Bool.not_eq_true]
    constructor
    · rintro ⟨⟨criterion, member, rfl | ends⟩, -⟩
      · exact member
      · -- Both are found, so they are not separate.
        have complete := criterion_mem_factsAtStart prepared pairless found member ends
        simp [separate criterion complete member fact found] at ends
    · intro member
      exact ⟨⟨fact, member, .inl rfl⟩, separate fact found member⟩
  -- A relation may have rows without pairs or no rows at all.
  rw [waiting, factsAtStart_bare phase pairless, waiting]
  unfold Criteria.seeds
  rw [show run.bare.criteria.hasExtension = false from rfl, if_neg Bool.false_ne_true]
  split
  · rw [List.filter_filter, List.filter_congr known]
    rfl
  · rfl

theorem followed_bare (separate : run.Separate) (first : PointId) :
    run.bare.followed first = run.pass run.criteria.bare first := by
  rw [followed, region_bare (graph_of_prepare prepared).1 pairless (untagged_of_prepare prepared),
    waiting_bare prepared pairless separate]
  rfl

section
variable (separate : run.Separate)
include separate

theorem seed_of_waiting {seed : Fact} (member : seed ∈ run.waiting) :
    seed ∈ run.criteria.sequences ∧ seed = Fact.left seed.points := by
  have plain := plain_bare prepared
  rw [← waiting_bare prepared pairless separate] at member
  have criterion := (plain.mem_waiting.mp member).1
  exact ⟨criterion, (plain.criterion_eq_left criterion).1⟩

theorem pass_matches {related : Fact → Fact → Prop} {one two : Criteria} {first : PointId}
    (inRange : first ∈ program.pointIds)
    (follows : (TopDown.problem run.graph one run.config first run.waiting).Follows
      (run.graph.restricted run.region).toInterGraph related
      (TopDown.problem run.graph two run.config first run.waiting))
    {point : PointId} {fact : Fact} (found : (run.pass one first).holds point fact = true) :
    ∃ other, related fact other ∧ (run.pass two first).holds point other = true := by
  obtain ⟨_, same, linked⟩ := graph_of_prepare prepared
  have within (criteria : Criteria) :
      (TopDown.problem run.graph criteria run.config first run.waiting).Within
        (run.graph.restricted run.region).toInterGraph run.graph.program.pointIds
        (TopDown.facts run.waiting) :=
    TopDown.within_facts linked (same ▸ inRange) fun seed member =>
      (seed_of_waiting prepared pairless separate member).2
  have few : (TopDown.facts run.waiting).length ≤ TopDown.factBound run.waiting :=
    Nat.le_of_eq TopDown.length_facts
  exact Tabulation.holds_of_follows (linked.forwardWhere_local _) follows (within one) (within two)
    (by simp [Program.pointIds]) few few found

theorem agrees_of_bare {first point : PointId} (inRange : first ∈ program.pointIds)
    (agrees : run.bare.Agrees first point) : run.Agrees first point := by
  have plain := plain_bare prepared
  obtain ⟨⟨built, builds⟩, fact, holds, proper, agree⟩ := agrees
  rw [followed_bare prepared pairless separate] at holds
  obtain ⟨other, ends, found⟩ := pass_matches prepared pairless separate inRange
    (TopDown.follows_bare _ fun seed member =>
      (seed_of_waiting prepared pairless separate member).2) holds
  refine ⟨⟨built, (builds_bare pairless).mp builds⟩, other, found, ?_⟩
  rcases ends with ⟨rfl, -⟩ | ⟨rest, ending, rfl, rfl, short⟩
  · exact absurd rfl proper
  · refine ⟨Fact.left_ne_zero ending, ?_⟩
    by_cases done : ending = []
    · exact .inl (by rw [done, Fact.left])
    · -- Calls are still waited for in both, so the passes agree on them without extension.
      have waits : rest ≠ [] := fun none => done (List.suffix_nil.mp (none ▸ short))
      rw [Fact.left_of_ne_nil waits] at agree
      rcases agree with complete | ⟨image, same, calls⟩
      · cases complete
      · obtain ⟨content, rfl, -⟩ := plain.criterion_of_builds same
        obtain rfl : rest = content := calls
        refine .inr ⟨.seq ending, (builds_bare pairless).mp (plain.builds_suffix same done short), ?_⟩
        rw [Fact.left_of_ne_nil done]

section
variable (group : ∀ criterion ∈ sequences, criterion.tail? = some tail)
include group

omit pairless separate in
theorem tail_of_mem_sequences {criterion : Fact} (member : criterion ∈ run.criteria.sequences) :
    criterion.tail? = some tail := by
  rw [(sequences_of_prepare prepared).1] at member
  exact group criterion (Criteria.mem_sequences_ofList.mp member).1

omit pairless separate in
/-- Of the calls of criteria only the tail may enter a method. -/
theorem eq_tail_of_entered {site : PointId} {callee : MethodId}
    (enters : callee ∈ run.graph.callees site) {criterion : Fact}
    (member : criterion ∈ run.criteria.sequences) (inside : site ∈ criterion.points) :
    site = tail := by
  obtain ⟨graph, tags, extension, built, _, rfl⟩ := prepare_eq_ok_iff.mp prepared
  have looked : graph.isSpecified site ≠ true := by
    intro specified
    simp [fresh, Supergraph.callees, specified] at enters
  rw [ne_eq, isSpecified_of_buildGraph built] at looked
  have isPoint : site ∈ (Criteria.ofList sequences).points :=
    List.mem_eraseDups.mpr (List.mem_flatMap.mpr ⟨criterion, member, inside⟩)
  have isTail : site ∈ (Criteria.ofList sequences).tails := by
    simpa [Criteria.specified, isPoint] using looked
  obtain ⟨other, listed, last⟩ := List.mem_filterMap.mp (List.mem_eraseDups.mp isTail)
  have same := tail_of_mem_sequences prepared group listed
  rw [last] at same
  exact Option.some.inj same

variable (apart : run.graph.callees tail = [] ∨ ∀ fact ∈ run.waiting, tail ∉ fact.points.dropLast)
include apart

/-- Where a method is entered the last call is waited for at most, if the tail enters no
method or is in no match but at its end. -/
theorem last_of_entered {site : PointId} {callee : MethodId}
    (enters : callee ∈ run.graph.callees site) {fact : Fact}
    (known : fact ∈ TopDown.facts run.waiting) (waits : fact.head? = some site) :
    fact = .seq [tail] := by
  cases fact with
  | epsilon => simp [Fact.head?, Fact.points] at waits
  | seq calls =>
      obtain ⟨rest, rfl⟩ := List.head?_eq_some_iff.mp waits
      obtain none | ⟨seed, member, _, short⟩ := TopDown.mem_facts.mp known
      · cases none
      obtain ⟨criterion, _⟩ := seed_of_waiting prepared pairless separate member
      -- A statement that enters a method and is in a criterion is the tail.
      obtain rfl := eq_tail_of_entered prepared group enters criterion
        (short.subset List.mem_cons_self)
      rcases apart with none | apart
      · simp [none] at enters
      · by_cases done : rest = []
        · rw [done]
        · exfalso
          obtain ⟨before, whole⟩ := short
          refine apart seed member ?_
          rw [← whole, List.dropLast_append_of_ne_nil (by simp), List.dropLast_cons_of_ne_nil done]
          simp

theorem bare_agrees {first point : PointId} (inRange : first ∈ program.pointIds)
    (agrees : run.Agrees first point) : run.bare.Agrees first point := by
  have plain := plain_bare prepared
  obtain ⟨⟨built, builds⟩, fact, holds, proper, agree⟩ := agrees
  have builtToo := (builds_bare pairless).mpr builds
  obtain ⟨other, ⟨_, same⟩, found⟩ := pass_matches prepared pairless separate inRange
    (TopDown.bare_follows (fun seed member => (seed_of_waiting prepared pairless separate member).2)
      fun site callee enters fact known waits =>
        last_of_entered prepared pairless separate group apart enters known waits) holds
  rw [← followed_bare prepared pairless separate] at found
  refine ⟨⟨built, builtToo⟩, other, found, ?_⟩
  rcases same with rfl | ⟨rfl, rfl⟩
  · refine ⟨proper, agree.imp_right ?_⟩
    rintro ⟨image, same, calls⟩
    exact ⟨image, (builds_bare pairless).mpr same, calls⟩
  · -- Whatever is built here ends with the tail, and the tail alone is built with it.
    refine ⟨by simp [Fact.zero], .inr ⟨.seq [tail], ?_, rfl⟩⟩
    obtain ⟨calls, rfl, nonempty, criterion, member, before, whole⟩ :=
      plain.criterion_of_builds builtToo
    have last : criterion.tail? = some tail := tail_of_mem_sequences prepared group member
    rw [Fact.tail?, ← whole, List.getLast?_append_of_ne_nil before nonempty] at last
    exact plain.builds_suffix builtToo (by simp) (List.singleton_suffix_iff_getLast?_eq_some.mpr last)

end
end

end

/-- With a relation that has no pairs, and criteria that do not end longer matches where
the program starts, everything is kept that is kept without extension. Nothing else is,
if the tail enters no method or is in no match but at its end. -/
theorem runAll_of_pairless {program : Program} {config : Config} {tail : PointId}
    {sequences : List Fact} {run : SliceRun}
    (prepared : prepare program config tail sequences = .ok run)
    (pairless : run.criteria.Pairless)
    (group : ∀ criterion ∈ sequences, criterion.tail? = some tail) :
    ∃ plain, prepare program { config with extendCriteria := false } tail sequences = .ok plain ∧
      (run.Separate →
        (∀ slice, plain.runAll.1 = .ok slice →
          ∃ other, run.runAll.1 = .ok other ∧ ∀ point ∈ slice.points, point ∈ other.points) ∧
        ((run.graph.callees tail = [] ∨ ∀ fact ∈ run.waiting, tail ∉ fact.points.dropLast) →
          run.runAll.1.map (·.methods) = plain.runAll.1.map (·.methods))) := by
  refine ⟨run.bare, prepare_bare prepared, fun separate => ?_⟩
  -- Both set out from one statement, or neither sets out.
  obtain ⟨phase, sameProgram, -⟩ := graph_of_prepare prepared
  have start : TopDown.start? run.bare.graph = TopDown.start? run.graph := rfl
  rw [runAll_of_built phase, runAll_of_built (phase_bare phase), start]
  cases found : TopDown.start? run.graph with
  | none => exact ⟨fun slice failed => by simp at failed, fun _ => rfl⟩
  | some first =>
      have inRange : first ∈ program.pointIds := by
        rw [TopDown.start?, sameProgram] at found
        exact Program.mem_pointIds_of_methodOf?
          (Program.methodOf?_of_mem_body (List.mem_of_head? found))
      constructor
      · rintro slice ⟨rfl⟩
        refine ⟨_, rfl, fun point listed => ?_⟩
        obtain ⟨inBody, kept⟩ := mem_project.mp listed
        rw [keeps_iff (phase_bare phase)] at kept
        exact mem_project.mpr
          ⟨inBody, (keeps_iff phase).mpr (agrees_of_bare prepared pairless separate inRange kept)⟩
      · intro apart
        have same : keeps run.backed.bottomUp (run.followed first) =
            keeps run.bare.backed.bottomUp (run.bare.followed first) := by
          funext point
          rw [Bool.eq_iff_iff, keeps_iff phase, keeps_iff (phase_bare phase)]
          exact ⟨bare_agrees prepared pairless separate group apart inRange,
            agrees_of_bare prepared pairless separate inRange⟩
        have methods : project run.graph.program run.backed.bottomUp (run.followed first) =
            project run.bare.graph.program run.bare.backed.bottomUp (run.bare.followed first) := by
          rw [project, same, project]
          rfl
        exact congrArg Except.ok methods

end SliceRun

/-- The entry calls the helper, goes by a plain statement or calls the inner method itself,
and calls the helper again. The helper calls the inner method, which makes a call that
enters none. All of them are in a library. -/
def relayListing : Listing where
  entry := some 0
  classes := [⟨0, "Main", none, [], false, true⟩]
  methods := [⟨0, 0, "main", "", true, false, [0, 1, 2, 3, 4]⟩,
    ⟨1, 0, "helper", "", true, false, [5, 6]⟩, ⟨2, 0, "inner", "", true, false, [7, 8, 9]⟩,
    ⟨3, 0, "api", "", true, false, []⟩]
  points := [⟨0, 0, 1, .call ⟨1, .static, none, [], none⟩, ""⟩, ⟨1, 0, 2, .plain, ""⟩,
    ⟨2, 0, 3, .call ⟨2, .static, none, [], none⟩, ""⟩,
    ⟨3, 0, 4, .call ⟨1, .static, none, [], none⟩, ""⟩, ⟨4, 0, 5, .plain, ""⟩,
    ⟨5, 1, 6, .call ⟨2, .static, none, [], none⟩, ""⟩, ⟨6, 1, 7, .plain, ""⟩,
    ⟨7, 2, 8, .plain, ""⟩, ⟨8, 2, 9, .call ⟨3, .static, none, [], none⟩, ""⟩,
    ⟨9, 2, 10, .plain, ""⟩]
  edges := [⟨0, 1, false⟩, ⟨0, 2, false⟩, ⟨1, 3, false⟩, ⟨2, 3, false⟩, ⟨3, 4, false⟩, ⟨5, 6, false⟩,
    ⟨7, 8, false⟩, ⟨8, 9, false⟩]
  calls := [⟨0, 1⟩, ⟨2, 2⟩, ⟨3, 1⟩, ⟨5, 2⟩, ⟨8, 3⟩]
  allocSites := []
  pointsTo := []

def relayProgram : Program := ⟨relayListing, 0, rfl, by decide⟩

def libraryConfig : Config := { Config.default with excludeLibraryExtension := true }

/-- Two ways lead to the second call, one of them by the first call and one by a plain
statement. -/
def detourListing : Listing where
  entry := some 0
  classes := [⟨0, "Main", none, [], false, false⟩]
  methods := [⟨0, 0, "main", "", true, false, [0, 1, 2, 3, 4]⟩, ⟨1, 0, "open", "", true, false, []⟩,
    ⟨2, 0, "close", "", true, false, []⟩]
  points := [⟨0, 0, 1, .plain, ""⟩, ⟨1, 0, 2, .call ⟨1, .static, none, [], none⟩, ""⟩,
    ⟨2, 0, 3, .call ⟨2, .static, none, [], none⟩, ""⟩, ⟨3, 0, 4, .plain, ""⟩, ⟨4, 0, 5, .plain, ""⟩]
  edges := [⟨0, 1, false⟩, ⟨1, 2, false⟩, ⟨0, 3, false⟩, ⟨3, 2, false⟩, ⟨2, 4, false⟩]
  calls := [⟨1, 1⟩, ⟨2, 2⟩]
  allocSites := []
  pointsTo := []

def detourProgram : Program := ⟨detourListing, 0, rfl, by decide⟩

theorem relayProgram_same :
    ∃ run plain, SliceRun.prepare relayProgram libraryConfig 5 [.seq [8, 5]] = .ok run ∧
      SliceRun.prepare relayProgram { libraryConfig with extendCriteria := false } 5 [.seq [8, 5]] =
        .ok plain ∧
      run.criteria.extension.rows = [(8, [])] ∧ run.graph.callees 5 = [2] ∧
      run.runAll.1.map (·.methods) = plain.runAll.1.map (·.methods) := by
  have evaluated : ((SliceRun.prepare relayProgram libraryConfig 5 [.seq [8, 5]]).toOption.map
      fun run => (run.criteria.extension.rows, run.criteria.sequences, run.backed.factsAtStart,
        run.graph.callees 5)) = some ([(8, [])], [.seq [8, 5]], [.seq [5], .seq [8, 5]], [2]) := by
    cbv
  obtain ⟨run, made, outcome⟩ := Option.map_eq_some_iff.mp evaluated
  simp only [Prod.mk.injEq] at outcome
  obtain ⟨rows, sequences, found, callees⟩ := outcome
  have prepared := ok_of_toOption made
  have pairless : run.criteria.Pairless := by simp [Criteria.Pairless, rows]
  have separate : run.Separate := by
    rw [SliceRun.Separate, found, sequences]
    decide
  have apart : ∀ fact ∈ run.waiting, 5 ∉ fact.points.dropLast := by
    intro fact member
    have criterion := (SliceRun.seed_of_waiting prepared pairless separate member).1
    rw [sequences, List.mem_singleton] at criterion
    simp [criterion, Fact.points]
  obtain ⟨plain, bare, same⟩ :=
    SliceRun.runAll_of_pairless prepared pairless (by simp [Fact.tail?, Fact.points])
  exact ⟨run, plain, prepared, bare, rows, callees, (same separate).2 (.inr apart)⟩

def KeepsOthers (program : Program) (config : Config) (tail : PointId) (sequences : List Fact)
    (extended plain : List (MethodId × List PointId)) : Prop :=
  extended ≠ plain ∧
    ∃ run other, SliceRun.prepare program config tail sequences = .ok run ∧
      run.criteria.Pairless ∧
      SliceRun.prepare program { config with extendCriteria := false } tail sequences = .ok other ∧
      run.runAll.1.map (·.methods) = .ok extended ∧ other.runAll.1.map (·.methods) = .ok plain

theorem KeepsOthers.of_outcomes {program : Program} {config : Config} {tail : PointId}
    {sequences : List Fact} {extended plain : List (MethodId × List PointId)}
    (differ : extended ≠ plain)
    (first : ((SliceRun.prepare program config tail sequences).toOption.bind fun run =>
      run.runAll.1.toOption.map fun slice =>
        (run.criteria.extension.rows.all (·.2.isEmpty), slice.methods)) = some (true, extended))
    (second : ((SliceRun.prepare program { config with extendCriteria := false } tail
      sequences).toOption.bind fun run => run.runAll.1.toOption.map (·.methods)) = some plain) :
    KeepsOthers program config tail sequences extended plain := by
  obtain ⟨run, made, outcome⟩ := Option.bind_eq_some_iff.mp first
  obtain ⟨slice, done, same⟩ := Option.map_eq_some_iff.mp outcome
  obtain ⟨other, again, outcome⟩ := Option.bind_eq_some_iff.mp second
  obtain ⟨otherSlice, doneToo, rfl⟩ := Option.map_eq_some_iff.mp outcome
  simp only [Prod.mk.injEq, List.all_eq_true, List.isEmpty_iff] at same
  obtain ⟨pairless, rfl⟩ := same
  refine ⟨differ, run, other, ok_of_toOption made, pairless, ok_of_toOption again, ?_, ?_⟩
  · rw [ok_of_toOption done]
    rfl
  · rw [ok_of_toOption doneToo]
    rfl

/-- Neither condition can be dropped. A criterion that ends a longer match is not set out
with any more, and a tail that enters a method and is in the midst of a criterion is
taken off on entering. -/
theorem pairless_methods_differ :
    KeepsOthers detourProgram .default 2 [.seq [1, 2], .seq [2]] [(0, [0, 1, 2])] [(0, [0, 1, 2, 3])] ∧
    KeepsOthers relayProgram libraryConfig 5 [.seq [5, 8, 5]]
      [(0, [0, 1, 2, 3]), (1, [5, 6]), (2, [7, 8, 9])]
      [(0, [0, 2, 3]), (1, [5, 6]), (2, [7, 8, 9])] :=
  ⟨.of_outcomes (by decide) (by cbv) (by cbv), .of_outcomes (by decide) (by cbv) (by cbv)⟩

end SeqSlice
