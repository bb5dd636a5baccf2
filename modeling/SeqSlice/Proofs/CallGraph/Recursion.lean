import Mathlib
import SeqSlice.CallGraph.Basic
import SeqSlice.Proofs.Graph.Component

/-! Cutting recursion: calls are blocked round by round until no method calls
itself, directly or not. A round cuts calls into the first recursive method that
a walk from the entry meets. The walk came there over methods that are not
recursive, so the method stays in reach, and with it all that is behind it. -/

set_option autoImplicit false
namespace SeqSlice

theorem BlockedCalls.contains_ofPairs {pairs : List (PointId × MethodId)} {call : PointId}
    {callee : MethodId} :
    (ofPairs pairs).contains call callee = true ↔ (call, callee) ∈ pairs := by
  simp only [contains, ofPairs, List.any_map, List.any_eq_true, Function.comp_apply,
    Bool.and_eq_true, beq_iff_eq, List.contains_eq_mem, List.mem_singleton, decide_eq_true_eq]
  constructor
  · rintro ⟨_, listed, rfl, rfl⟩
    exact listed
  · exact fun listed => ⟨_, listed, rfl, rfl⟩

namespace CallSource

section
variable (source : CallSource)

def Makes (caller : MethodId) (call : PointId) (callee : MethodId) : Prop :=
  caller ∈ source.methods ∧ call ∈ source.callsWithin caller ∧ callee ∈ source.callees call

/-- Methods are listed once each, and no call leads out of the list. -/
structure Finite : Prop where
  unique : source.methods.Nodup
  entry : source.entry ∈ source.methods
  callee : ∀ caller call callee, source.Makes caller call callee → callee ∈ source.methods

/-- A call belongs to the method that makes it and is a caller of what it enters. -/
structure Mirrored : Prop where
  methodOf : ∀ caller call callee, source.Makes caller call callee → source.methodOf call = caller
  callers : ∀ caller call callee, source.Makes caller call callee → call ∈ source.callers callee

/-- All calls of the method are made by one method, and it is not the entry. -/
def OneCaller (callee : MethodId) : Prop :=
  callee ≠ source.entry ∧ ∃ only, ∀ caller call, source.Makes caller call callee → caller = only

/-- What cutting relies on. A method with one caller need not know its calls: a
walk from the entry meets the caller before it. -/
structure Cuttable : Prop extends source.Finite where
  methodOf : ∀ caller call callee, source.Makes caller call callee → source.methodOf call = caller
  callers : ∀ caller call callee, source.Makes caller call callee →
    call ∈ source.callers callee ∨ source.OneCaller callee

def after (cut : List (PointId × MethodId)) : Digraph := source.graph (.ofPairs cut)

end

variable {source : CallSource}

theorem Mirrored.cuttable (mirrored : source.Mirrored) (finite : source.Finite) :
    source.Cuttable where
  toFinite := finite
  methodOf := mirrored.methodOf
  callers caller call callee makes := .inl (mirrored.callers caller call callee makes)

theorem mem_calledFrom {blocked : BlockedCalls} {caller callee : MethodId} :
    callee ∈ source.calledFrom blocked caller ↔
      ∃ call ∈ source.callsWithin caller, callee ∈ source.callees call ∧
        blocked.contains call callee = false := by
  simp [calledFrom]

/-! ## The graph of a source -/

namespace Finite

variable (finite : source.Finite)
include finite

theorem closed (blocked : BlockedCalls) :
    ∀ method ∈ source.methods, ∀ callee ∈ source.calledFrom blocked method,
      callee ∈ source.methods := by
  intro method listed callee called
  obtain ⟨call, within, enters, _⟩ := mem_calledFrom.mp called
  exact finite.callee method call callee ⟨listed, within, enters⟩

theorem rooted (blocked : BlockedCalls) : (source.graph blocked).Rooted source.entry :=
  Digraph.explore_rooted finite.entry (finite.closed blocked)

theorem nodup_nodes (blocked : BlockedCalls) : (source.graph blocked).nodes.Nodup :=
  Graph.nodup_visit finite.unique

theorem mem_nodes {blocked : BlockedCalls} {method : MethodId} :
    method ∈ (source.graph blocked).nodes ↔
      Reached (source.graph blocked).Edge source.entry method :=
  Digraph.mem_nodes_explore finite.entry (finite.closed blocked)

theorem mem_reachable {blocked : BlockedCalls} {method : MethodId} :
    method ∈ (source.graph blocked).reachable source.entry ↔
      method ∈ (source.graph blocked).nodes :=
  (finite.rooted blocked).mem_reachable.trans finite.mem_nodes.symm

end Finite

theorem edge_after {cut : List (PointId × MethodId)} {caller callee : MethodId} :
    (source.after cut).Edge caller callee ↔
      caller ∈ (source.after cut).nodes ∧
        ∃ call, source.Makes caller call callee ∧ (call, callee) ∉ cut := by
  refine Digraph.mem_edges_explore.trans (and_congr_right fun visited => ?_)
  have listed := (Graph.mem_visit.mp visited).mem_domain
  rw [mem_calledFrom]
  refine exists_congr fun call => ?_
  rw [← Bool.not_eq_true, BlockedCalls.contains_ofPairs, Makes, and_iff_right listed, and_assoc]

theorem calledFrom_mono {cut more : List (PointId × MethodId)} (fewer : ∀ pair ∈ cut, pair ∈ more)
    (caller callee : MethodId) (called : callee ∈ source.calledFrom (.ofPairs more) caller) :
    callee ∈ source.calledFrom (.ofPairs cut) caller := by
  obtain ⟨call, within, enters, kept⟩ := mem_calledFrom.mp called
  refine mem_calledFrom.mpr ⟨call, within, enters, ?_⟩
  rw [← Bool.not_eq_true, BlockedCalls.contains_ofPairs] at kept ⊢
  exact fun removed => kept (fewer _ removed)

/-! ## One round -/

def firstAfter? (source : CallSource) (cut : List (PointId × MethodId)) : Option MethodId :=
  source.firstRecursive? (source.after cut) (source.after cut).cyclicComponents

/-- A walk from the entry meets the method, which is on a cycle, and before it only
methods that are not. -/
structure First (source : CallSource) (cut : List (PointId × MethodId)) (method : MethodId) :
    Prop where
  cycle : (source.after cut).OnCycle method method
  met : ∃ before, Graph.Reach (source.after cut).succs (before ++ [method]) [source.entry] method ∧
    ∀ earlier ∈ before, ¬ (source.after cut).OnCycle earlier earlier

section
variable {cut : List (PointId × MethodId)} {method : MethodId}

theorem First.called_on_cycle (first : source.First cut method) :
    ∃ caller, (source.after cut).OnCycle method caller ∧ (source.after cut).Edge caller method := by
  obtain ⟨caller, forth, along⟩ := Relation.TransGen.tail'_iff.mp first.cycle.1
  exact ⟨caller, ⟨first.cycle.1.trans_left forth, .single along⟩, along⟩

theorem First.called_off_cycle (first : source.First cut method) (other : method ≠ source.entry) :
    ∃ caller, ¬ (source.after cut).OnCycle caller caller ∧
      (source.after cut).Edge caller method := by
  obtain ⟨before, reach, none⟩ := first.met
  rcases reach.source_or_follows with start | ⟨caller, different, earlier, called⟩
  · exact absurd (List.mem_singleton.mp start) other
  · refine ⟨caller, none caller ?_, (source.after cut).mem_succs.mp called⟩
    simpa [different] using earlier.mem_domain

/-- A method with one caller comes after this caller, and is on its cycles only. -/
theorem First.not_oneCaller (first : source.First cut method) : ¬ source.OneCaller method := by
  rintro ⟨other, only, same⟩
  obtain ⟨inner, cycle, fromInner⟩ := first.called_on_cycle
  obtain ⟨outer, noCycle, fromOuter⟩ := first.called_off_cycle other
  obtain ⟨_, _, makesInner, _⟩ := edge_after.mp fromInner
  obtain ⟨_, _, makesOuter, _⟩ := edge_after.mp fromOuter
  -- The call from the cycle and the one from outside are made by one method.
  have one : inner = outer := (same _ _ makesInner).trans (same _ _ makesOuter).symm
  exact noCycle (one ▸ cycle.symm.left)

theorem nextCut_of_none (found : source.firstAfter? cut = none) : source.nextCut cut = [] := by
  rw [firstAfter?, after] at found
  simp only [nextCut, found]

namespace Finite

variable (finite : source.Finite)
include finite

theorem rooted_after (cut : List (PointId × MethodId)) :
    (source.after cut).Rooted source.entry := finite.rooted _

theorem nodup_after (cut : List (PointId × MethodId)) : (source.after cut).nodes.Nodup :=
  finite.nodup_nodes _

theorem any_cyclic_iff :
    ((source.after cut).cyclicComponents.any (·.contains method)) = true ↔
      (source.after cut).OnCycle method method := by
  simp only [List.any_eq_true, List.contains_eq_mem, decide_eq_true_eq]
  constructor
  · rintro ⟨component, cyclic, member⟩
    exact ((finite.rooted_after cut).mem_cyclic_iff (finite.nodup_after cut) cyclic member).mp member
  · exact (finite.rooted_after cut).exists_cyclic (finite.nodup_after cut)

theorem first_of_firstAfter? (found : source.firstAfter? cut = some method) :
    source.First cut method := by
  obtain ⟨cycle, before, later, order, none⟩ := List.find?_eq_some_iff_append.mp found
  refine ⟨finite.any_cyclic_iff.mp cycle, before, Graph.reach_of_visit_eq order, ?_⟩
  intro earlier member again
  have absent := none earlier member
  rw [finite.any_cyclic_iff.mpr again] at absent
  cases absent

theorem firstAfter?_eq_none :
    source.firstAfter? cut = none ↔ (source.after cut).cyclicComponents = [] := by
  rw [(finite.rooted_after cut).cyclicComponents_eq_nil (finite.nodup_after cut), firstAfter?,
    firstRecursive?, List.find?_eq_none]
  constructor
  · intro none method cycle
    -- Everything on a cycle is visited.
    have reached := finite.mem_nodes.mp ((finite.rooted_after cut).mem_of_onCycle cycle)
    have reach := (Digraph.reach_iff_reached (finite.rooted_after cut)).mpr reached
    exact none method (Graph.mem_visit.mpr reach) (finite.any_cyclic_iff.mpr cycle)
  · exact fun none method _ cyclic => none method (finite.any_cyclic_iff.mp cyclic)

theorem mem_nextCut_iff (found : source.firstAfter? cut = some method) {call : PointId}
    {callee : MethodId} :
    (call, callee) ∈ source.nextCut cut ↔
      callee = method ∧ call ∈ source.callers method ∧
        (source.after cut).OnCycle method (source.methodOf call) ∧
        method ∈ source.callees call ∧ (call, method) ∉ cut := by
  have first := finite.first_of_firstAfter? found
  have member : method ∈ source.methods :=
    (Graph.mem_visit.mp ((finite.rooted_after cut).mem_of_onCycle first.cycle)).mem_domain
  obtain ⟨component, chosen⟩ := Option.isSome_iff_exists.mp
    (List.find?_isSome.mpr (List.any_eq_true.mp (finite.any_cyclic_iff.mpr first.cycle)))
  have inside : method ∈ component := by simpa using List.find?_some chosen
  have mem_component {other : MethodId} :
      other ∈ component ↔ (source.after cut).OnCycle method other :=
    (finite.rooted_after cut).mem_cyclic_iff (finite.nodup_after cut)
      (List.mem_of_find?_eq_some chosen) inside
  rw [firstAfter?, after] at found
  rw [after] at chosen
  simp only [nextCut, found, chosen, Option.getD_some]
  simp only [List.mem_filter, listedCalls, List.mem_flatMap, List.mem_map, Prod.mk.injEq,
    Bool.and_eq_true, beq_iff_eq, List.contains_eq_mem, decide_eq_true_eq, Bool.not_eq_true',
    decide_eq_false_iff_not, mem_component]
  constructor
  · rintro ⟨⟨_, _, _, calls, rfl, rfl⟩, ⟨⟨rfl, cycle⟩, enters⟩, kept⟩
    exact ⟨rfl, calls, cycle, enters, kept⟩
  · rintro ⟨rfl, calls, cycle, enters, kept⟩
    exact ⟨⟨callee, member, call, calls, rfl, rfl⟩, ⟨⟨rfl, cycle⟩, enters⟩, kept⟩

end Finite

namespace Cuttable

variable (cuttable : source.Cuttable)
include cuttable

theorem nextCut_eq_nil :
    source.nextCut cut = [] ↔ (source.after cut).cyclicComponents = [] := by
  have finite := cuttable.toFinite
  cases found : source.firstAfter? cut with
  | none => exact iff_of_true (nextCut_of_none found) (finite.firstAfter?_eq_none.mp found)
  | some method =>
      have first := finite.first_of_firstAfter? found
      -- The edge that closes a cycle at the method is a call to cut.
      obtain ⟨caller, cycle, along⟩ := first.called_on_cycle
      obtain ⟨_, call, makes, kept⟩ := edge_after.mp along
      have calls : call ∈ source.callers method :=
        (cuttable.callers _ _ _ makes).resolve_right first.not_oneCaller
      have isCut : (call, method) ∈ source.nextCut cut := by
        refine (finite.mem_nextCut_iff found).mpr ⟨rfl, calls, ?_, makes.2.2, kept⟩
        exact (cuttable.methodOf _ _ _ makes).symm ▸ cycle
      refine iff_of_false (List.ne_nil_of_mem isCut) fun none => ?_
      rw [finite.firstAfter?_eq_none.mpr none] at found
      cases found

theorem edge_of_kept (found : source.firstAfter? cut = some method) {caller callee : MethodId}
    (along : (source.after cut).Edge caller callee)
    (apart : callee ≠ method ∨ ¬ (source.after cut).OnCycle caller caller)
    (visited : caller ∈ (source.after (cut ++ source.nextCut cut)).nodes) :
    (source.after (cut ++ source.nextCut cut)).Edge caller callee := by
  obtain ⟨_, call, makes, kept⟩ := edge_after.mp along
  refine edge_after.mpr ⟨visited, call, makes, fun removed => ?_⟩
  have isCut := (List.mem_append.mp removed).resolve_left kept
  obtain ⟨same, _, cycle, _⟩ := (cuttable.toFinite.mem_nextCut_iff found).mp isCut
  rw [cuttable.methodOf _ _ _ makes] at cycle
  exact apart.elim (· same) (· cycle.symm.left)

theorem nodes_on_way (found : source.firstAfter? cut = some method) {before : List MethodId}
    (none : ∀ earlier ∈ before, ¬ (source.after cut).OnCycle earlier earlier) {value : MethodId}
    (reach : Graph.Reach (source.after cut).succs (before ++ [method]) [source.entry] value) :
    value ∈ (source.after (cut ++ source.nextCut cut)).nodes := by
  have rooted := cuttable.toFinite.rooted_after (cut ++ source.nextCut cut)
  induction reach with
  | source _ start => exact List.mem_singleton.mp start ▸ rooted.root
  | @step value parent earlier _ called ih =>
      have along := (source.after cut).mem_succs.mp called
      rcases List.mem_append.mp earlier.mem_domain with inside | last
      · exact rooted.target _ _ (cuttable.edge_of_kept found along (.inr (none _ inside)) ih)
      · -- The method itself is the parent: its own calls are cut if they enter it again.
        by_cases same : value = parent
        · exact same ▸ ih
        · have other : value ≠ method := List.mem_singleton.mp last ▸ same
          exact rooted.target _ _ (cuttable.edge_of_kept found along (.inl other) ih)

theorem nodes_round {other : MethodId} (visited : other ∈ (source.after cut).nodes) :
    other ∈ (source.after (cut ++ source.nextCut cut)).nodes := by
  have finite := cuttable.toFinite
  cases found : source.firstAfter? cut with
  | none => rwa [nextCut_of_none found, List.append_nil]
  | some method =>
      have rooted := finite.rooted_after (cut ++ source.nextCut cut)
      obtain ⟨before, reach, none⟩ := (finite.first_of_firstAfter? found).met
      -- Along a walk from the entry in the old graph; only calls into the method are lost.
      have reached := finite.mem_nodes.mp visited
      clear visited
      induction reached with
      | refl => exact rooted.root
      | @tail caller callee _ along ih =>
          by_cases same : callee = method
          · exact same ▸ cuttable.nodes_on_way found none reach
          · exact rooted.target _ _ (cuttable.edge_of_kept found along (.inl same) ih)

end Cuttable
end

/-! ## All rounds -/

theorem cutFrom_of_nil {cut : List (PointId × MethodId)} (found : source.nextCut cut = []) :
    source.cutFrom cut = cut := by
  rw [cutFrom]
  split
  · rfl
  · next again => simp [found] at again

theorem cutFrom_of_cons {cut rest : List (PointId × MethodId)} {pair : PointId × MethodId}
    (found : source.nextCut cut = pair :: rest) :
    source.cutFrom cut = source.cutFrom (cut ++ pair :: rest) := by
  rw [cutFrom]
  split
  · next none => simp [found] at none
  · next again => rw [← again, found]

theorem cutFrom_keeps {holds : List (PointId × MethodId) → Prop}
    (round : ∀ cut, holds cut → holds (cut ++ source.nextCut cut))
    {cut : List (PointId × MethodId)} (start : holds cut) :
    holds (source.cutFrom cut) ∧ source.nextCut (source.cutFrom cut) = [] := by
  fun_induction cutFrom source cut with
  | case1 cut found => exact ⟨start, found⟩
  | case2 cut first rest found ih => exact ih (found ▸ round cut start)

/-- The cut calls were recursive at the start, and they are not needed to reach any
method. -/
structure Lossless (source : CallSource) (cut : List (PointId × MethodId)) : Prop where
  reached : ∀ method ∈ (source.after []).nodes, method ∈ (source.after cut).nodes
  cycle : ∀ pair ∈ cut, (source.after []).OnCycle pair.2 (source.methodOf pair.1)
  several : ∀ pair ∈ cut, ¬ source.OneCaller pair.2

namespace Cuttable

variable (cuttable : source.Cuttable)
include cuttable

theorem lossless_round (cut : List (PointId × MethodId)) (lossless : source.Lossless cut) :
    source.Lossless (cut ++ source.nextCut cut) := by
  have finite := cuttable.toFinite
  have first {call : PointId} {callee : MethodId} (isCut : (call, callee) ∈ source.nextCut cut) :
      source.First cut callee ∧ (source.after cut).OnCycle callee (source.methodOf call) := by
    cases found : source.firstAfter? cut with
    | none => simp [nextCut_of_none found] at isCut
    | some method =>
        obtain ⟨rfl, _, cycle, _⟩ := (finite.mem_nextCut_iff found).mp isCut
        exact ⟨finite.first_of_firstAfter? found, cycle⟩
  refine ⟨fun method visited => cuttable.nodes_round (lossless.reached method visited), ?_, ?_⟩
  · intro pair member
    rcases List.mem_append.mp member with old | new
    · exact lossless.cycle pair old
    · exact (first new).2.mono (Digraph.edge_explore_mono (calledFrom_mono (by simp)))
  · intro pair member
    rcases List.mem_append.mp member with old | new
    · exact lossless.several pair old
    · exact (first new).1.not_oneCaller

theorem lossless_cutFrom :
    source.Lossless (source.cutFrom []) ∧ source.nextCut (source.cutFrom []) = [] :=
  cutFrom_keeps cuttable.lossless_round ⟨fun _ => id, by simp, by simp⟩

theorem acyclic_recursionBlocks :
    (source.graph source.recursionBlocks).cyclicComponents = [] :=
  cuttable.nextCut_eq_nil.mp cuttable.lossless_cutFrom.2

theorem mem_nodes_recursionBlocks {method : MethodId} :
    method ∈ (source.graph source.recursionBlocks).nodes ↔
      method ∈ (source.graph .empty).nodes := by
  have fewer : ∀ pair ∈ ([] : List (PointId × MethodId)), pair ∈ source.cutFrom [] := by simp
  exact ⟨Digraph.nodes_explore_mono (calledFrom_mono fewer), cuttable.lossless_cutFrom.1.reached method⟩

end Cuttable

/-- However far recursion has been cut, a round finds something to cut as long as any
is left. In the end none is left, the entry reaches the same methods as before, and
each blocked call lies in one recursive component of the graph as it was. -/
theorem recursion_cut (finite : source.Finite) (mirrored : source.Mirrored) :
    (∀ cut, (source.graph (.ofPairs cut)).cyclicComponents ≠ [] → source.nextCut cut ≠ []) ∧
      (source.graph source.recursionBlocks).cyclicComponents = [] ∧
      (∀ method, method ∈ (source.graph source.recursionBlocks).reachable source.entry ↔
        method ∈ (source.graph .empty).reachable source.entry) ∧
      ∀ call callee, source.recursionBlocks.contains call callee = true →
        ∃ component ∈ (source.graph .empty).cyclicComponents,
          source.methodOf call ∈ component ∧ callee ∈ component := by
  have cuttable := mirrored.cuttable finite
  refine ⟨fun cut => mt cuttable.nextCut_eq_nil.mp, cuttable.acyclic_recursionBlocks, ?_, ?_⟩
  · intro method
    rw [finite.mem_reachable, finite.mem_reachable]
    exact cuttable.mem_nodes_recursionBlocks
  · intro call callee blocked
    have cycle := cuttable.lossless_cutFrom.1.cycle _ (BlockedCalls.contains_ofPairs.mp blocked)
    have rooted := finite.rooted .empty
    have unique := finite.nodup_nodes .empty
    obtain ⟨component, cyclic, member⟩ := rooted.exists_cyclic unique cycle.left
    exact ⟨component, cyclic, (rooted.mem_cyclic_iff unique cyclic member).mpr cycle, member⟩

/-- Methods 0 and 3 call each other, and so do 1 and 2. Method 2 also calls itself. -/
def recursiveSource : CallSource where
  entry := 0
  methods := [0, 1, 2, 3]
  methodOf call := call / 10
  callsWithin
    | 0 => [0, 1]
    | 1 => [10]
    | 2 => [20, 21]
    | 3 => [30]
    | _ => []
  callees
    | 0 => [1]
    | 1 => [3]
    | 10 => [2]
    | 20 => [1]
    | 21 => [2]
    | 30 => [0]
    | _ => []
  callers
    | 0 => [30]
    | 1 => [0, 20]
    | 2 => [10, 21]
    | 3 => [1]
    | _ => []

theorem recursiveSource_finite : recursiveSource.Finite where
  unique := by decide
  entry := by decide
  callee := by
    have each : ∀ caller ∈ recursiveSource.methods, ∀ call ∈ recursiveSource.callsWithin caller,
        ∀ callee ∈ recursiveSource.callees call, callee ∈ recursiveSource.methods := by decide
    exact fun caller call callee ⟨listed, within, enters⟩ => each caller listed call within callee enters

theorem recursiveSource_mirrored : recursiveSource.Mirrored := by
  have each : ∀ caller ∈ recursiveSource.methods, ∀ call ∈ recursiveSource.callsWithin caller,
      recursiveSource.methodOf call = caller ∧
        ∀ callee ∈ recursiveSource.callees call, call ∈ recursiveSource.callers callee := by decide
  exact ⟨fun caller call _ ⟨listed, within, _⟩ => (each caller listed call within).1,
    fun caller call callee ⟨listed, within, enters⟩ => (each caller listed call within).2 callee enters⟩

/-- Three rounds: back to the entry, back to method 1, and the call of method 2 by
itself. -/
theorem recursiveSource_cut :
    recursiveSource.Finite ∧ recursiveSource.Mirrored ∧
      (recursiveSource.graph .empty).cyclicComponents = [[0, 3], [1, 2]] ∧
      recursiveSource.recursionBlocks = .ofPairs [(30, 0), (20, 1), (21, 2)] ∧
      (recursiveSource.graph recursiveSource.recursionBlocks).cyclicComponents = [] := by
  have rounds : recursiveSource.cutFrom [] = [(30, 0), (20, 1), (21, 2)] :=
    calc recursiveSource.cutFrom []
      _ = recursiveSource.cutFrom [(30, 0)] := cutFrom_of_cons (by cbv)
      _ = recursiveSource.cutFrom [(30, 0), (20, 1)] := cutFrom_of_cons (by cbv)
      _ = recursiveSource.cutFrom [(30, 0), (20, 1), (21, 2)] := cutFrom_of_cons (by cbv)
      _ = [(30, 0), (20, 1), (21, 2)] := cutFrom_of_nil (by cbv)
  exact ⟨recursiveSource_finite, recursiveSource_mirrored, by cbv, by rw [recursionBlocks, rounds],
    (recursion_cut recursiveSource_finite recursiveSource_mirrored).2.1⟩

end CallSource
end SeqSlice
