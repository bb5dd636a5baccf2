import SeqSlice.Proofs.Error
import SeqSlice.Proofs.Extension.Creation
import SeqSlice.Proofs.Fact.Grouping
import SeqSlice.Proofs.Fact.Order
import SeqSlice.Proofs.Slice.Prepared

/-! Criteria in another arrangement. Everything that a run reads of its criteria is a
question about their calls, or a list that is brought into ascending order first, so
their order is of no consequence, nor is how often one of them is given. But the groups
are sliced one after the other, and the order decides whether one that fails comes before
one that has no end. -/

set_option autoImplicit false
namespace SeqSlice

theorem contains_congr {α : Type} [DecidableEq α] {first second : List α}
    (same : ∀ value, value ∈ first ↔ value ∈ second) (value : α) :
    first.contains value = second.contains value := by
  simp only [List.contains_eq_mem, same]

theorem BottomUp.problem_congr {graph : Supergraph} {first second : Criteria}
    (extending : extends? first = extends? second) (points : first.isPoint = second.isPoint)
    (tails : first.isTail = second.isTail) (heads : first.canAddHead = second.canAddHead) :
    problem graph first = problem graph second := by
  have extended : extended first = extended second := by
    funext point fact
    rw [BottomUp.extended, extending, BottomUp.extended]
  have returnFlow : returnFlow graph first = returnFlow graph second := by
    funext callee call fact
    rw [BottomUp.returnFlow, extended, BottomUp.returnFlow]
  have aroundFlow : aroundFlow first = aroundFlow second := by
    funext call fact
    rw [BottomUp.aroundFlow, extending, points, tails, heads, BottomUp.aroundFlow]
  rw [problem, returnFlow, aroundFlow, problem]

namespace Criteria

structure Alike (first second : Criteria) : Prop where
  sequences : first.sequences.Perm second.sequences
  extension : first.extension = second.extension

theorem alike_ofList {first second : List Fact}
    (same : ∀ criterion, criterion ∈ second ↔ criterion ∈ first) (extension : Extension) :
    Alike { ofList first with extension } { ofList second with extension } :=
  ⟨eraseDups_perm fun criterion => by simp [same], rfl⟩

namespace Alike

variable {first second : Criteria} (alike : first.Alike second)
include alike

theorem mem_iff {fact : Fact} : fact ∈ first.sequences ↔ fact ∈ second.sequences :=
  alike.sequences.mem_iff

theorem points {point : PointId} : point ∈ first.points ↔ point ∈ second.points := by
  simp [Criteria.points, alike.mem_iff]

theorem heads {point : PointId} : point ∈ first.heads ↔ point ∈ second.heads := by
  simp [Criteria.heads, alike.mem_iff]

theorem tails {point : PointId} : point ∈ first.tails ↔ point ∈ second.tails := by
  simp [Criteria.tails, alike.mem_iff]

theorem specified {point : PointId} : point ∈ first.specified ↔ point ∈ second.specified := by
  simp [Criteria.specified, alike.points, alike.tails]

theorem isPoint : first.isPoint = second.isPoint := funext (contains_congr fun _ => alike.points)

theorem isHead : first.isHead = second.isHead := funext (contains_congr fun _ => alike.heads)

theorem isTail : first.isTail = second.isTail := funext (contains_congr fun _ => alike.tails)

theorem isCriterion : first.isCriterion = second.isCriterion :=
  funext (contains_congr fun _ => alike.mem_iff)

theorem hasExtension : first.hasExtension = second.hasExtension := by
  rw [Criteria.hasExtension, alike.extension, Criteria.hasExtension]

theorem canAddHead : first.canAddHead = second.canAddHead := by
  funext point fact
  exact contains_congr (fun rest => by simp [follow, alike.mem_iff]) fact

theorem canExtend : first.canExtend = second.canExtend := by
  funext point fact
  simp only [Criteria.canExtend, alike.isPoint, alike.isHead, alike.extension]

theorem factBound : BottomUp.factBound first = BottomUp.factBound second := by
  have calls : (first.sequences.flatMap (·.points)).length =
      (second.sequences.flatMap (·.points)).length :=
    (alike.sequences.flatMap_right _).length_eq
  simp only [BottomUp.factBound, calls, alike.extension]

theorem seeds (facts : List Fact) : first.seeds facts = second.seeds facts := by
  have met (fact : Fact) :
      (first.sequences.any fun criterion => criterion == fact || criterion.isStrictSuffixOf fact) =
        second.sequences.any fun criterion => criterion == fact || criterion.isStrictSuffixOf fact :=
    Bool.eq_iff_iff.mpr (by simp only [List.any_eq_true, alike.mem_iff])
  simp only [Criteria.seeds, alike.hasExtension, alike.isCriterion, met]

/-! ## The passes -/

theorem bottomUp_problem (graph : Supergraph) :
    BottomUp.problem graph first = BottomUp.problem graph second := by
  refine BottomUp.problem_congr ?_ alike.isPoint alike.isTail alike.canAddHead
  funext point fact
  rw [BottomUp.extends?, alike.hasExtension, alike.canExtend, BottomUp.extends?]

theorem bottomUp_solve (graph : Supergraph) :
    BottomUp.solve graph first = BottomUp.solve graph second := by
  rw [BottomUp.solve, alike.bottomUp_problem, alike.factBound, BottomUp.solve]

theorem topDown_problem (graph : Supergraph) (config : Config) :
    TopDown.problem graph first config = TopDown.problem graph second config := by
  funext start seeds
  have aroundFlow : TopDown.aroundFlow graph first config = TopDown.aroundFlow graph second config := by
    funext call fact
    rw [TopDown.aroundFlow, alike.isPoint, TopDown.aroundFlow]
  have callFlow : TopDown.callFlow first = TopDown.callFlow second := by
    funext call fact
    rw [TopDown.callFlow, alike.hasExtension, TopDown.callFlow]
  rw [TopDown.problem, aroundFlow, callFlow, TopDown.problem]

/-! ## The graph and its relation -/

theorem isUseless (graph : Supergraph) (tags : TagTable) (config : Config) :
    graph.isUseless first tags config = graph.isUseless second tags config := by
  funext reachable answers point
  simp only [Supergraph.isUseless, alike.isPoint]

theorem uselessAmong (graph : Supergraph) (tags : TagTable) (config : Config)
    (reachable : List MethodId) (answers : Interest.Answers) (points : List PointId) :
    graph.uselessAmong first tags config reachable answers points =
      graph.uselessAmong second tags config reachable answers points := by
  induction points generalizing answers with
  | nil => rfl
  | cons point rest ih => simp only [Supergraph.uselessAmong, alike.isUseless, ih]

theorem extensionOf (graph : Supergraph) (tags : TagTable) (config : Config) :
    graph.extension first tags config = graph.extension second tags config := by
  have heads : ascending first.heads = ascending second.heads := ascending_congr fun _ => alike.heads
  simp only [Supergraph.extension, Supergraph.fullExtension, Supergraph.uselessOf, heads,
    alike.uselessAmong]

theorem supplement (graph : Supergraph) (config : Config) :
    SliceRun.supplement graph config first = SliceRun.supplement graph config second := by
  simp only [SliceRun.supplement, alike.extensionOf]

/-- The order decides only which unknown statement is reported. -/
theorem build {program : Program} {plan : CyclePlan} {config : Config} {graph : Supergraph} :
    Supergraph.build program first.specified plan config = .ok graph ↔
      Supergraph.build program second.specified plan config = .ok graph := by
  have assembled : Supergraph.assemble program first.specified plan config =
      Supergraph.assemble program second.specified plan config := by
    simp only [Supergraph.assemble, ascending_congr fun _ => alike.specified]
  -- That every statement is known is a question about members.
  have found {specified : List PointId} : Supergraph.build program specified plan config = .ok graph ↔
      (∀ point ∈ plan.namedPoints ++ specified, program.listing.hasPoint point = true) ∧
        Supergraph.assemble program specified plan config = graph := by
    unfold Supergraph.build
    split
    · next point unknown =>
        obtain ⟨absent, listed⟩ := And.intro (List.find?_some unknown) (List.mem_of_find?_eq_some unknown)
        simp only [reduceCtorEq, false_iff, not_and]
        intro known
        simp [known point listed] at absent
    · next none =>
        simpa using fun _ => List.find?_eq_none.mp none
  simp only [found, assembled, List.mem_append, alike.specified]

theorem buildGraph {program : Program} {config : Config} {graph : Supergraph} :
    SliceRun.buildGraph program config first = .ok graph ↔
      SliceRun.buildGraph program config second = .ok graph := by
  unfold SliceRun.buildGraph
  by_cases keeping : config.retainCycle = true
  · simp only [if_pos keeping]
    exact alike.build
  · simp only [if_neg keeping, bind_eq_ok_iff]
    exact exists_congr fun loopFree => and_congr alike.build alike.build

end Alike

end Criteria

theorem Fact.eq_of_points_eq {first second : Fact} (calls : first.isEmpty = false)
    (same : first.points = second.points) : first = second := by
  cases first <;> cases second <;> simp_all [isEmpty, points]

theorem Fact.isEmpty_of_tail? {fact : Fact} {tail : PointId} (last : fact.tail? = some tail) :
    fact.isEmpty = false := by
  have some : fact.points ≠ [] := by
    intro none
    simp [tail?, none] at last
  simpa [isEmpty] using some

/-- The computation comes to an end, with a result or with an error. -/
def Error.Settles {α : Type} (result : Except Error α) : Prop :=
  ∀ cls, result ≠ .error (.unknown (.endless cls))

def Error.Fails {α : Type} (result : Except Error α) : Prop :=
  Settles result ∧ ∃ error, result = .error error

theorem Error.settles_ok {α : Type} {value : α} : Settles (.ok value) := by simp [Settles]

theorem Error.fails_noConstructor {α : Type} {site : SiteId} {point : PointId} :
    Fails (.error (.noConstructor site point) : Except Error α) := by
  simp [Fails, Settles]

theorem Error.Settles.fails_iff {α : Type} {result : Except Error α} (ends : Settles result) :
    Fails result ↔ ¬ ∃ value, result = .ok value := by
  cases result with
  | ok value => simp [Fails]
  | error error => simpa [Fails] using ends

/-- The same slice, with its criteria in another order. -/
structure Slice.Alike (first second : Slice) : Prop where
  methods : first.methods = second.methods
  criteria : first.criteria.Perm second.criteria

namespace SliceRun

def rearranged (run : SliceRun) (criteria : Criteria) : SliceRun := { run with criteria }

section
variable {run : SliceRun} {criteria : Criteria} (phase : run.phase = .built)
  (alike : run.criteria.Alike criteria)
include phase alike

theorem backed_rearranged : (run.rearranged criteria).backed = run.backed.rearranged criteria := by
  simp [backed, rearranged, runBottomUp, phase, Phase.ensure, alike.bottomUp_solve]

theorem followed_rearranged (first : PointId) :
    (run.rearranged criteria).followed first = run.followed first := by
  have backed := backed_rearranged phase alike
  have region : (run.rearranged criteria).region = run.region := by
    rw [SliceRun.region, backed, SliceRun.region]
    rfl
  have waiting : (run.rearranged criteria).waiting = run.waiting := by
    rw [SliceRun.waiting, backed, SliceRun.waiting, alike.seeds]
    rfl
  have problem : TopDown.problem run.graph criteria run.config =
      TopDown.problem run.graph run.criteria run.config := (alike.topDown_problem _ _).symm
  rw [followed, followed, region, waiting]
  simp only [rearranged, problem]

theorem runAll_rearranged {slice : Slice} (sliced : run.runAll.1 = .ok slice) :
    ∃ other, (run.rearranged criteria).runAll.1 = .ok other ∧ slice.Alike other := by
  rw [runAll_of_built phase] at sliced
  have phaseToo : (run.rearranged criteria).phase = .built := phase
  rw [runAll_of_built phaseToo, backed_rearranged phase alike]
  have graph : (run.rearranged criteria).graph = run.graph := rfl
  rw [graph]
  cases start : TopDown.start? run.graph with
  | none => simp [start] at sliced
  | some first =>
      simp only [start, Except.ok.injEq] at sliced
      subst sliced
      refine ⟨_, rfl, ?_, alike.sequences.map _⟩
      rw [followed_rearranged phase alike]
      rfl

end

variable {program : Program} {config : Config} {tail : PointId} {first second : List Fact}

theorem prepare_rearranged (same : ∀ criterion, criterion ∈ second ↔ criterion ∈ first)
    {run : SliceRun} (prepared : prepare program config tail first = .ok run) :
    ∃ criteria, run.criteria.Alike criteria ∧
      prepare program config tail second = .ok (run.rearranged criteria) := by
  obtain ⟨graph, tags, extension, built, supplied, rfl⟩ := prepare_eq_ok_iff.mp prepared
  have bare : (Criteria.ofList first).Alike (.ofList second) := Criteria.alike_ofList same .empty
  exact ⟨_, Criteria.alike_ofList same extension,
    prepare_eq_ok_iff.mpr ⟨graph, tags, extension, bare.buildGraph.mp built,
      (bare.supplement graph config).symm.trans supplied, rfl⟩⟩

theorem circles_of_prepare {cls : ClassId}
    (endless : prepare program config tail first = .error (.unknown (.endless cls))) :
    config.extendCriteria = true ∧ program.Circles cls := by
  rcases bind_eq_error_iff.mp endless with early | ⟨graph, built, late⟩
  · obtain ⟨cause, unknown, same⟩ := mapError_eq_error_iff.mp early
    obtain ⟨point, rfl⟩ := point_of_buildGraph unknown
    cases same
  · have built : buildGraph program config (.ofList first) = .ok graph :=
      mapError_eq_ok_iff.mp built
    split at late
    · next extending =>
        rcases bind_eq_error_iff.mp late with failed | ⟨_, _, done⟩
        · obtain ⟨cause, failed, same⟩ := mapError_eq_error_iff.mp failed
          cases cause with
          | noConstructor => cases same
          | unknown id =>
              obtain rfl := Error.unknown.inj same
              have circles := Supergraph.concludes_extension cls failed
              exact ⟨extending, (graph_of_buildGraph built).1 ▸ circles⟩
        · cases done
    · cases late

theorem sequences_of_prepare {run : SliceRun}
    (prepared : prepare program config tail first = .ok run) :
    run.criteria.sequences = (Criteria.ofList first).sequences ∧ run.tail = tail := by
  obtain ⟨graph, tags, extension, _, _, rfl⟩ := prepare_eq_ok_iff.mp prepared
  exact ⟨rfl, rfl⟩

end SliceRun

def sliceGroup (program : Program) (config : Config) (row : PointId × List Fact) :
    Except Error Slice := do
  let run ← SliceRun.prepare program config row.1 row.2
  run.runAll.1

section
variable {program : Program} {config : Config}

theorem sliceAll_eq (criteria : List Fact) :
    sliceAll program config criteria = (Criteria.groups criteria).mapM (sliceGroup program config) :=
  rfl

theorem sliceGroup_rearranged {tail : PointId} {first second : List Fact}
    (same : ∀ criterion, criterion ∈ second ↔ criterion ∈ first) {slice : Slice}
    (sliced : sliceGroup program config (tail, first) = .ok slice) :
    ∃ other, sliceGroup program config (tail, second) = .ok other ∧ slice.Alike other := by
  obtain ⟨run, prepared, done⟩ := bind_eq_ok_iff.mp sliced
  obtain ⟨criteria, alike, again⟩ := SliceRun.prepare_rearranged same prepared
  obtain ⟨other, found, agrees⟩ :=
    SliceRun.runAll_rearranged (SliceRun.graph_of_prepare prepared).1 alike done
  exact ⟨other, bind_eq_ok_iff.mpr ⟨_, again, found⟩, agrees⟩

theorem of_sliceGroup {tail : PointId} {group : List Fact} {slice : Slice}
    (sliced : sliceGroup program config (tail, group) = .ok slice) :
    slice.tail = tail ∧ slice.criteria.Nodup ∧
      ∀ calls, calls ∈ slice.criteria ↔
        ∃ criterion ∈ group, criterion.isEmpty = false ∧ criterion.points = calls := by
  obtain ⟨run, prepared, done⟩ := bind_eq_ok_iff.mp sliced
  rw [SliceRun.runAll_of_built (SliceRun.graph_of_prepare prepared).1] at done
  obtain ⟨sequences, rfl⟩ := SliceRun.sequences_of_prepare prepared
  split at done
  · cases done
  · cases done
    rw [sequences]
    refine ⟨rfl, ?_, fun calls => ?_⟩
    · -- Criteria differ in their calls, since none of them is empty.
      have unique : (Criteria.ofList group).sequences.Nodup := nodup_eraseDups _
      refine unique.map_on fun criterion member other _ same => ?_
      exact Fact.eq_of_points_eq (Criteria.mem_sequences_ofList.mp member).2 same
    · simp [Criteria.mem_sequences_ofList, and_assoc]

/-- There is one slice for each tail, in order of first appearance. -/
theorem tails_of_sliceAll {criteria : List Fact} {slices : List Slice}
    (sliced : sliceAll program config criteria = .ok slices) :
    slices.map (·.tail) = (criteria.filterMap (·.tail?)).eraseDups := by
  rw [← Criteria.map_fst_groups, eq_comm, ← List.forall₂_eq_eq_eq, List.forall₂_map_left_iff,
    List.forall₂_map_right_iff]
  refine (mapM_eq_ok_iff.mp (sliceAll_eq criteria ▸ sliced)).imp fun row slice made => ?_
  exact (of_sliceGroup made).1.symm

theorem sliceGroup_of_mem {criteria : List Fact} {slices : List Slice}
    (sliced : sliceAll program config criteria = .ok slices) {slice : Slice}
    (member : slice ∈ slices) :
    sliceGroup program config (slice.tail, Criteria.members criteria slice.tail) = .ok slice := by
  obtain ⟨⟨tail, group⟩, listed, made⟩ :=
    exists_of_mapM_eq_ok (sliceAll_eq criteria ▸ sliced) member
  obtain ⟨-, rfl⟩ := Criteria.mem_groups.mp listed
  obtain ⟨rfl, -⟩ := of_sliceGroup made
  exact made

theorem sliceGroup_eq_error {row : PointId × List Fact} {graph : Supergraph} {error : ExtensionError}
    (built : SliceRun.buildGraph program config (.ofList row.2) = .ok graph)
    (extending : config.extendCriteria = true)
    (failed : graph.extension (.ofList row.2) (SliceRun.structureTags graph) config = .error error) :
    sliceGroup program config row = .error (.ofExtension error) := by
  refine bind_eq_error_iff.mpr (.inl ?_)
  rw [SliceRun.prepare, built]
  refine bind_eq_error_iff.mpr (.inr ⟨graph, rfl, ?_⟩)
  rw [if_pos extending]
  refine bind_eq_error_iff.mpr (.inl ?_)
  rw [failed]
  rfl

theorem sliceAll_eq_error {criteria : List Fact} {row : PointId × List Fact}
    {rest : List (PointId × List Fact)} {error : Error} (groups : Criteria.groups criteria = row :: rest)
    (failed : sliceGroup program config row = .error error) :
    sliceAll program config criteria = .error error := by
  rw [sliceAll_eq, groups, List.mapM_cons, failed]
  rfl

/-- What has no end is the search for an extension relation, where superclasses go round. -/
theorem circles_of_sliceGroup {row : PointId × List Fact} {cls : ClassId}
    (endless : sliceGroup program config row = .error (.unknown (.endless cls))) :
    config.extendCriteria = true ∧ program.Circles cls := by
  rcases bind_eq_error_iff.mp endless with early | ⟨run, prepared, late⟩
  · exact SliceRun.circles_of_prepare early
  · rw [SliceRun.runAll_of_built (SliceRun.graph_of_prepare prepared).1] at late
    split at late <;> cases late

/-- Neither the order of criteria nor their repetition has an effect on a slice, nor on
whether there are slices at all. If both arrangements come to an end, then both fail or
none does, and only superclasses that go round keep one from its end. -/
theorem sliceAll_rearranged {first second : List Fact}
    (same : ∀ criterion, criterion ∈ second ↔ criterion ∈ first) :
    ((∃ slices, sliceAll program config first = .ok slices) ↔
      ∃ others, sliceAll program config second = .ok others) ∧
    (Error.Settles (sliceAll program config first) →
      Error.Settles (sliceAll program config second) →
      (Error.Fails (sliceAll program config first) ↔
        Error.Fails (sliceAll program config second))) ∧
    (∀ criteria cls, sliceAll program config criteria = .error (.unknown (.endless cls)) →
      config.extendCriteria = true ∧ program.Circles cls) ∧
    ∀ slices others, sliceAll program config first = .ok slices →
      sliceAll program config second = .ok others →
      slices.map (·.tail) = (first.filterMap (·.tail?)).eraseDups ∧
      others.map (·.tail) = (second.filterMap (·.tail?)).eraseDups ∧
      (others.map (·.tail)).Perm (slices.map (·.tail)) ∧
      ∀ slice ∈ slices, ∀ other ∈ others, slice.tail = other.tail →
        slice.methods = other.methods ∧ slice.criteria.Perm other.criteria ∧
        slice.criteria.Nodup ∧
        ∀ calls, calls ∈ slice.criteria ↔
          ∃ criterion ∈ first, criterion.tail? = some slice.tail ∧ criterion.points = calls := by
  have members (tail : PointId) (criterion : Fact) :
      criterion ∈ Criteria.members second tail ↔ criterion ∈ Criteria.members first tail := by
    simp only [Criteria.mem_members, same]
  have succeeds : (∃ slices, sliceAll program config first = .ok slices) ↔
      ∃ others, sliceAll program config second = .ok others := by
    -- A tail has a slice in one arrangement just when it has one in the other.
    have sliced (tail : PointId) :
        (∃ slice, sliceGroup program config (tail, Criteria.members first tail) = .ok slice) ↔
          ∃ slice, sliceGroup program config (tail, Criteria.members second tail) = .ok slice := by
      constructor
      · rintro ⟨slice, made⟩
        obtain ⟨other, found, -⟩ := sliceGroup_rearranged (members tail) made
        exact ⟨other, found⟩
      · rintro ⟨slice, made⟩
        obtain ⟨other, found, -⟩ := sliceGroup_rearranged (fun _ => (members tail _).symm) made
        exact ⟨other, found⟩
    simp only [sliceAll_eq, exists_mapM_eq_ok_iff, Prod.forall, Criteria.mem_groups, and_imp,
      forall_eq_apply_imp_iff, sliced, same]
  refine ⟨succeeds, fun ends endsToo => ?_, fun criteria cls endless => ?_, ?_⟩
  · rw [ends.fails_iff, endsToo.fails_iff, succeeds]
  · obtain ⟨row, -, here⟩ := exists_of_mapM_eq_error (sliceAll_eq criteria ▸ endless)
    exact circles_of_sliceGroup here
  · intro slices others made found
    have tails := tails_of_sliceAll made
    have otherTails := tails_of_sliceAll found
    refine ⟨tails, otherTails, ?_, fun slice member other listed equal => ?_⟩
    · rw [tails, otherTails]
      exact eraseDups_perm fun tail => by simp [same]
    · have group := sliceGroup_of_mem made member
      obtain ⟨twin, again, methods, criteria⟩ := sliceGroup_rearranged (members slice.tail) group
      -- The slice that the arrangement brings about is the one in the list.
      have twin_eq : twin = other := by
        have direct := sliceGroup_of_mem found listed
        rw [← equal, again] at direct
        exact Except.ok.inj direct
      subst twin_eq
      obtain ⟨-, unique, content⟩ := of_sliceGroup group
      refine ⟨methods, criteria, unique, fun calls => ?_⟩
      rw [content]
      simp only [Criteria.mem_members, and_assoc]
      exact exists_congr fun criterion => and_congr_right fun _ => and_congr_right fun last =>
        ⟨And.right, fun points => ⟨Fact.isEmpty_of_tail? last, points⟩⟩

end

/-- A criterion moved to the front and given twice: both tails have the same slices. -/
theorem helperProgram_rearranged :
    (∀ criterion : Fact, criterion ∈ [Fact.seq [5], .seq [5, 1], .seq [5]] ↔
      criterion ∈ [Fact.seq [5, 1], .seq [5]]) ∧
    ∃ slices others,
      sliceAll helperProgram plainConfig [.seq [5, 1], .seq [5]] = .ok slices ∧
      sliceAll helperProgram plainConfig [.seq [5], .seq [5, 1], .seq [5]] = .ok others ∧
      (Error.Fails (sliceAll helperProgram plainConfig [.seq [5, 1], .seq [5]]) ↔
        Error.Fails (sliceAll helperProgram plainConfig [.seq [5], .seq [5, 1], .seq [5]])) ∧
      slices.map (·.tail) = [1, 5] ∧ others.map (·.tail) = [5, 1] ∧
      ∀ slice ∈ slices, ∀ other ∈ others, slice.tail = other.tail → slice.methods = other.methods := by
  have same (criterion : Fact) : criterion ∈ [Fact.seq [5], .seq [5, 1], .seq [5]] ↔
      criterion ∈ [Fact.seq [5, 1], .seq [5]] := by
    simp
    grind
  obtain ⟨succeeds, fail, -, agree⟩ := @sliceAll_rearranged helperProgram plainConfig _ _ same
  have some : (sliceAll helperProgram plainConfig [.seq [5, 1], .seq [5]]).toOption.isSome = true := by
    cbv
  obtain ⟨slices, found⟩ := Option.isSome_iff_exists.mp some
  have made := ok_of_toOption found
  obtain ⟨others, again⟩ := succeeds.mp ⟨slices, made⟩
  obtain ⟨tails, otherTails, -, each⟩ := agree slices others made again
  exact ⟨same, slices, others, made, again,
    fail (made ▸ Error.settles_ok) (again ▸ Error.settles_ok), tails, otherTails,
    fun slice member other listed equal => (each slice member other listed equal).1⟩

/-! ## A run that does not end -/

def carouselTags : TagTable := SliceRun.structureTags carouselGraph

theorem carousel_unsliced {point : PointId} {error : ExtensionError}
    (specified : (Criteria.ofList [.seq [point]]).specified = [])
    (heads : ascending (Criteria.ofList [.seq [point]]).heads = [point])
    (failed : carouselGraph.leadingCalls carouselTags .default point = .error error) :
    sliceGroup carouselProgram .default (point, [.seq [point]]) = .error (.ofExtension error) := by
  have built : SliceRun.buildGraph carouselProgram .default (.ofList [.seq [point]]) =
      .ok carouselGraph := by
    have known : CyclePlan.empty.namedPoints = [] := by cbv
    rw [SliceRun.buildGraph, specified, if_pos (by rfl), Supergraph.build, known]
    rfl
  exact sliceGroup_eq_error built rfl (Supergraph.extension_eq_error heads failed)

theorem carousel_leads {point caller : PointId} {found : Point} {method : Method} {site : CallSite}
    {var : String} {error : ExtensionError} (stored : carouselProgram.point? point = some found)
    (owner : carouselProgram.method? found.method = some method) (bound : method.isStatic = false)
    (callers : carouselGraph.callers method.id = [caller])
    (called : carouselProgram.callSite? caller = some site) (inst : site.invoke.isInstance = true)
    (receiver : carouselProgram.receiverLocal? Reflection.default site = some var)
    (failed : carouselProgram.creationCalls carouselTags Reflection.default caller site method.id var =
      .error error) :
    carouselGraph.leadingCalls carouselTags .default point = .error error := by
  have program : carouselGraph.program = carouselProgram := Supergraph.program_assemble
  refine Supergraph.leadingCalls_eq_error (program ▸ stored) (program ▸ owner) bound callers ?_
  rw [Supergraph.creatorsAt, program, called]
  simp only [inst, Bool.not_true, Bool.false_eq_true, if_false]
  rw [show Config.default.reflection = Reflection.default from rfl, receiver]
  exact failed

theorem carousel_stop_fails : carouselGraph.leadingCalls carouselTags .default 6 =
    .error (.noConstructor 1 3) := by
  have held : carouselProgram.pointsTo 0 "y" = [1] := by cbv
  have stranded : carouselProgram.creationCall carouselTags Reflection.default ⟨1, 3, 1⟩ =
      .error (.noConstructor 1 3) := by cbv
  have callers : carouselGraph.callers 2 = [4] := by cbv
  have receiver : carouselProgram.receiverLocal? Reflection.default
      ⟨2, .virtual, some "y", [], none⟩ = some "y" := by decide
  refine carousel_leads rfl rfl rfl callers rfl rfl receiver
    (bind_eq_error_iff.mpr (.inr ⟨_, rfl, ?_⟩))
  rw [held]
  exact bind_eq_error_iff.mpr (.inr ⟨⟨1, 3, 1⟩, rfl, bind_eq_error_iff.mpr (.inl stranded)⟩)

theorem carousel_run_endless : carouselGraph.leadingCalls carouselTags .default 5 =
    .error (.unknown (.endless 2)) := by
  have held : carouselProgram.pointsTo 0 "x" = [0] := by cbv
  have made : carouselProgram.creationCall carouselTags Reflection.default ⟨0, 0, 2⟩ =
      .ok (some (1, 2)) := by cbv
  have callers : carouselGraph.callers 1 = [2] := by cbv
  have receiver : carouselProgram.receiverLocal? Reflection.default
      ⟨1, .virtual, some "x", [], none⟩ = some "x" := by decide
  refine carousel_leads rfl rfl rfl callers rfl rfl receiver
    (bind_eq_error_iff.mpr (.inr ⟨_, rfl, ?_⟩))
  rw [held]
  exact Program.creationsOf_eq_error rfl made rfl carousel_unreached

/-- It matters which of two criteria is first, if one fails and the other has no end. -/
theorem carouselProgram_order_matters :
    (∀ criterion : Fact, criterion ∈ [Fact.seq [5], .seq [6]] ↔
      criterion ∈ [Fact.seq [6], .seq [5]]) ∧
    sliceAll carouselProgram .default [.seq [6], .seq [5]] = .error (.noConstructor 1 3) ∧
    sliceAll carouselProgram .default [.seq [5], .seq [6]] = .error (.unknown (.endless 2)) ∧
    ¬ (Error.Fails (sliceAll carouselProgram .default [.seq [6], .seq [5]]) ↔
      Error.Fails (sliceAll carouselProgram .default [.seq [5], .seq [6]])) := by
  have groups : Criteria.groups [.seq [6], .seq [5]] = [(6, [.seq [6]]), (5, [.seq [5]])] := by cbv
  have fails : sliceAll carouselProgram .default [.seq [6], .seq [5]] =
      .error (.noConstructor 1 3) :=
    sliceAll_eq_error groups (carousel_unsliced (by cbv) (by cbv) carousel_stop_fails)
  have moved : Criteria.groups [.seq [5], .seq [6]] = [(5, [.seq [5]]), (6, [.seq [6]])] := by cbv
  have endless : sliceAll carouselProgram .default [.seq [5], .seq [6]] =
      .error (.unknown (.endless 2)) :=
    sliceAll_eq_error moved (carousel_unsliced (by cbv) (by cbv) carousel_run_endless)
  refine ⟨fun criterion => by simp [or_comm], fails, endless, fun same => ?_⟩
  have failed : Error.Fails (sliceAll carouselProgram .default [.seq [6], .seq [5]]) :=
    fails ▸ Error.fails_noConstructor
  exact (same.mp failed).1 2 endless

end SeqSlice
