import SeqSlice.Proofs.CallGraph.Recursion
import SeqSlice.Proofs.Supergraph.Calls
import SeqSlice.Proofs.Supergraph.Linked
import SeqSlice.Slice.Run

/-! A graph from which cycles are cut has no recursion. The calls to block are found
in the graph without loops, and the graph is then assembled anew: this adds the same
calls of initializers again, and none of them is among the blocked ones. -/

set_option autoImplicit false
namespace SeqSlice
namespace Supergraph

variable {graph : Supergraph}

theorem makes_iff {caller callee : MethodId} {call : PointId} :
    graph.callSource.Makes caller call callee ↔
      caller ∈ graph.program.methodIds ∧
        (call ∈ graph.program.body caller ∧ graph.isCall call = true) ∧
        callee ∈ graph.callees call := by
  simp only [CallSource.Makes, callSource, callsWithin, List.mem_filter]

theorem mem_methodIds_of_mem_callees (known : ∀ call initializer,
    (call, initializer) ∈ graph.initializerCalls → initializer ∈ graph.program.methodIds)
    {call : PointId} {callee : MethodId} (enters : callee ∈ graph.callees call) :
    callee ∈ graph.program.methodIds := by
  rcases (mem_callees.mp enters).2.2 with ⟨_, body, _⟩ | added
  · exact Program.mem_methodIds_of_hasBody body
  · exact known call callee added

theorem finite_callSource (known : ∀ call initializer,
    (call, initializer) ∈ graph.initializerCalls → initializer ∈ graph.program.methodIds) :
    graph.callSource.Finite where
  unique := List.nodup_range
  entry := graph.program.entry_mem_methodIds
  callee _ _ _ makes := mem_methodIds_of_mem_callees known (makes_iff.mp makes).2.2

/-! ## The graph in which recursion is found -/

/-- Calls are added for initializers of the list only, which are methods of the
program but not its entry. -/
structure Prepared (graph : Supergraph) (initializers : List MethodId) : Prop where
  once : graph.RestoresOnce initializers
  known : ∀ initializer ∈ initializers, initializer ∈ graph.program.methodIds
  apart : ∀ initializer ∈ initializers, initializer ≠ graph.program.entry

namespace Prepared

variable {initializers : List MethodId} (prepared : graph.Prepared initializers)
include prepared

theorem oneCaller {call : PointId} {initializer : MethodId}
    (added : (call, initializer) ∈ graph.initializerCalls) :
    graph.callSource.OneCaller initializer := by
  obtain ⟨listed, restored⟩ := prepared.once call initializer added
  refine ⟨prepared.apart initializer listed, graph.methodOf call, fun caller other makes => ?_⟩
  obtain ⟨_, ⟨within, isCall⟩, enters⟩ := makes_iff.mp makes
  have same : other = call := by
    rcases (mem_callees.mp enters).2.2 with ⟨calls, _, _, kept⟩ | again
    · rw [Program.mem_callees_iff_mem_callers] at calls
      cases kept.symm.trans (restored.uncalled other calls isCall)
    · exact restored.only other again
  rw [← same, methodOf_of_mem_body within]

theorem cuttable : graph.callSource.Cuttable where
  toFinite := finite_callSource fun call callee added =>
    prepared.known callee (prepared.once call callee added).1
  methodOf caller call callee makes := methodOf_of_mem_body (makes_iff.mp makes).2.1.1
  callers caller call callee makes := by
    obtain ⟨_, _, enters⟩ := makes_iff.mp makes
    obtain ⟨_, included, ⟨calls, _, visible, kept⟩ | added⟩ := mem_callees.mp enters
    · rw [Program.mem_callees_iff_mem_callers] at calls
      exact .inl (mem_callers.mpr ⟨included, visible, .inl ⟨calls, kept⟩⟩)
    · exact .inr (prepared.oneCaller added)

theorem not_blocked_of_added {call : PointId} {initializer : MethodId}
    (added : (call, initializer) ∈ graph.initializerCalls) :
    graph.callSource.recursionBlocks.contains call initializer = false := by
  refine Bool.eq_false_of_not_eq_true fun blocked => ?_
  have cut := BlockedCalls.contains_ofPairs.mp blocked
  exact prepared.cuttable.lossless_cutFrom.1.several _ cut (prepared.oneCaller added)

end Prepared

/-! ## Assembling it with blocked calls -/

/-- Blocking calls does not change whether a call is added for the method: none of its
callers is blocked, or one that is a call is left. -/
def Unaffected (program : Program) (blocked : BlockedCalls) (method : MethodId) : Prop :=
  (∀ caller ∈ program.callers method, blocked.contains caller method = false) ∨
    ∃ caller ∈ program.callers method, program.isCall caller = true ∧
      blocked.contains caller method = false

section
variable {blocked : BlockedCalls} (nothing : graph.blocked = .empty)
include nothing

theorem callFor?_withBlocked {initializer : MethodId}
    (unaffected : Unaffected graph.program blocked initializer) :
    { graph with blocked := blocked }.callFor? initializer = graph.callFor? initializer := by
  have before (caller : PointId) : graph.blocked.contains caller initializer = false := by
    rw [nothing]
    rfl
  have of_same (same : { graph with blocked := blocked }.callers initializer =
      graph.callers initializer) :
      { graph with blocked := blocked }.callFor? initializer = graph.callFor? initializer := by
    rw [callFor?, same]
    rfl
  rcases unaffected with untouched | ⟨caller, listed, isCall, kept⟩
  · apply of_same
    have filtered : (graph.program.callers initializer).filter
        (fun caller => !blocked.contains caller initializer) =
        (graph.program.callers initializer).filter
          (fun caller => !graph.blocked.contains caller initializer) := by
      apply List.filter_congr
      intro caller member
      rw [untouched caller member, before]
    rw [callers, callers]
    simp only [filtered]
    rfl
  · -- Unless no callers are given at all, the call is one of them, before and after.
    by_cases shut : (graph.isExcluded initializer || graph.isHidden initializer) = true
    · apply of_same
      rw [callers, callers, if_pos shut]
      exact if_pos shut
    · obtain ⟨included, visible⟩ := Bool.or_eq_false_iff.mp (Bool.eq_false_of_not_eq_true shut)
      have early : caller ∈ graph.callers initializer :=
        mem_callers.mpr ⟨included, visible, .inl ⟨listed, before caller⟩⟩
      have late : caller ∈ { graph with blocked := blocked }.callers initializer :=
        mem_callers.mpr ⟨included, visible, .inl ⟨listed, kept⟩⟩
      rw [callFor?_of_call early isCall]
      exact callFor?_of_call late isCall

theorem restoreInitializer_withBlocked {initializer : MethodId}
    (unaffected : Unaffected graph.program blocked initializer) :
    { graph with blocked := blocked }.restoreInitializer initializer =
      { graph.restoreInitializer initializer with blocked := blocked } := by
  rw [restoreInitializer_eq, restoreInitializer_eq, callFor?_withBlocked nothing unaffected]

end

theorem foldl_withBlocked {blocked : BlockedCalls} (initializers : List MethodId)
    (graph : Supergraph) (nothing : graph.blocked = .empty)
    (unaffected : ∀ initializer ∈ initializers, Unaffected graph.program blocked initializer) :
    initializers.foldl restoreInitializer { graph with blocked := blocked } =
      { initializers.foldl restoreInitializer graph with blocked := blocked } := by
  induction initializers generalizing graph with
  | nil => rfl
  | cons initializer rest ih =>
      have here := unaffected initializer List.mem_cons_self
      rw [List.foldl_cons, List.foldl_cons, restoreInitializer_withBlocked nothing here]
      apply ih
      · rw [restoreInitializer_eq, nothing]
      · rw [restoreInitializer_eq]
        exact fun other member => unaffected other (List.mem_cons_of_mem _ member)

theorem assemble_withBlocked {program : Program} {specified : List PointId} {plan : CyclePlan}
    {config : Config} {blocked : BlockedCalls} (nothing : plan.blocked = .empty)
    (unaffected : ∀ initializer ∈ initializersAt program specified config,
      Unaffected program blocked initializer) :
    assemble program specified { plan with blocked := blocked } config =
      { assemble program specified plan config with blocked := blocked } := by
  have folded := foldl_withBlocked _ (base program specified plan config) nothing unaffected
  rw [assemble_eq, assemble_eq]
  exact congrArg (fun graph : Supergraph =>
    { graph with blockedMethods := methodsOfPackages program config.blockPackagePrefixes }) folded

namespace Prepared

variable {initializers : List MethodId} (prepared : graph.Prepared initializers)
include prepared

/-- An initializer that is recursive is still entered by a call when recursion is cut. -/
theorem unaffected {initializer : MethodId} (listed : initializer ∈ initializers) :
    Unaffected graph.program graph.callSource.recursionBlocks initializer := by
  have cuttable := prepared.cuttable
  have lossless := cuttable.lossless_cutFrom.1
  by_cases untouched : ∀ caller ∈ graph.program.callers initializer,
      graph.callSource.recursionBlocks.contains caller initializer = false
  · exact .inl untouched
  · rw [not_forall] at untouched
    obtain ⟨caller, touched⟩ := untouched
    rw [Classical.not_imp, Bool.not_eq_false] at touched
    have cut := BlockedCalls.contains_ofPairs.mp touched.2
    -- A method that calls were cut from stays in reach, so a call of it is left.
    have recursive := (cuttable.rooted_after []).mem_of_onCycle (lossless.cycle _ cut)
    have reached := cuttable.mem_nodes.mp (lossless.reached initializer recursive)
    rcases Relation.ReflTransGen.cases_tail reached with same | ⟨outer, _, along⟩
    · exact absurd same (prepared.apart initializer listed)
    · obtain ⟨_, call, makes, kept⟩ := CallSource.edge_after.mp along
      obtain ⟨_, ⟨_, isCall⟩, enters⟩ := makes_iff.mp makes
      rcases (mem_callees.mp enters).2.2 with ⟨calls, _⟩ | added
      · rw [Program.mem_callees_iff_mem_callers] at calls
        refine .inr ⟨call, calls, isCall, Bool.eq_false_of_not_eq_true fun blocked => ?_⟩
        exact kept (BlockedCalls.contains_ofPairs.mp blocked)
      · -- An added call is the only one of its method, and such methods keep theirs.
        exact absurd (prepared.oneCaller added) (lossless.several _ cut)

variable (nothing : graph.blocked = .empty)
include nothing

theorem mem_callees_withBlocked {call : PointId} {callee : MethodId} :
    callee ∈ { graph with blocked := graph.callSource.recursionBlocks }.callees call ↔
      callee ∈ graph.callees call ∧
        graph.callSource.recursionBlocks.contains call callee = false := by
  have before : graph.blocked.contains call callee = false := by
    rw [nothing]
    rfl
  rw [mem_callees, mem_callees]
  constructor
  · rintro ⟨looked, included, ⟨calls, body, visible, kept⟩ | added⟩
    · exact ⟨⟨looked, included, .inl ⟨calls, body, visible, before⟩⟩, kept⟩
    · exact ⟨⟨looked, included, .inr added⟩, prepared.not_blocked_of_added added⟩
  · rintro ⟨⟨looked, included, ⟨calls, body, visible, _⟩ | added⟩, kept⟩
    · exact ⟨looked, included, .inl ⟨calls, body, visible, kept⟩⟩
    · exact ⟨looked, included, .inr added⟩

theorem finite_withBlocked :
    { graph with blocked := graph.callSource.recursionBlocks }.callSource.Finite where
  unique := List.nodup_range
  entry := graph.program.entry_mem_methodIds
  callee caller call callee makes := by
    obtain ⟨listed, within, enters⟩ := makes_iff.mp makes
    have enters := ((prepared.mem_callees_withBlocked nothing).mp enters).1
    exact prepared.cuttable.callee caller call callee (makes_iff.mpr ⟨listed, within, enters⟩)

theorem mem_calledFrom_withBlocked {caller callee : MethodId} :
    callee ∈ { graph with blocked := graph.callSource.recursionBlocks }.callSource.calledFrom
        .empty caller ↔
      callee ∈ graph.callSource.calledFrom graph.callSource.recursionBlocks caller := by
  rw [CallSource.mem_calledFrom, CallSource.mem_calledFrom]
  refine exists_congr fun call => and_congr_right fun _ => ?_
  exact (and_iff_left rfl).trans (prepared.mem_callees_withBlocked nothing)

theorem acyclic_withBlocked :
    { graph with blocked := graph.callSource.recursionBlocks }.callGraph.cyclicComponents = [] := by
  have finite := prepared.finite_withBlocked nothing
  have source := prepared.cuttable
  refine ((finite.rooted _).cyclicComponents_eq_nil (finite.nodup_nodes _)).mpr ?_
  intro node cycle
  have acyclic := ((source.rooted _).cyclicComponents_eq_nil (source.nodup_nodes _)).mp
    source.acyclic_recursionBlocks
  refine acyclic node (cycle.mono (Digraph.edge_explore_mono fun caller callee => ?_))
  exact (prepared.mem_calledFrom_withBlocked nothing).mp

theorem mem_reachable_withBlocked {method : MethodId} :
    method ∈ { graph with blocked := graph.callSource.recursionBlocks }.callGraph.reachable
        graph.program.entry ↔
      method ∈ graph.callGraph.reachable graph.program.entry := by
  have finite := prepared.finite_withBlocked nothing
  have source := prepared.cuttable
  refine finite.mem_reachable.trans (Iff.trans ?_ source.mem_reachable.symm)
  refine Iff.trans ?_ source.mem_nodes_recursionBlocks
  constructor
  · exact Digraph.nodes_explore_mono fun _ _ => (prepared.mem_calledFrom_withBlocked nothing).mp
  · exact Digraph.nodes_explore_mono fun _ _ => (prepared.mem_calledFrom_withBlocked nothing).mpr

end Prepared

/-! ## The graph of a run -/

section
variable {program : Program} {specified : List PointId} {plan : CyclePlan} {config : Config}

theorem assemble_prepared
    (named : program.methodName program.entry ≠ config.staticInitializerName) :
    (assemble program specified plan config).Prepared (initializersAt program specified config) := by
  refine ⟨assemble_restoresOnce program specified plan config, ?_, ?_⟩
  · intro initializer listed
    rw [program_assemble]
    exact (of_mem_initializersAt listed).1
  · rintro initializer listed rfl
    rw [program_assemble] at listed
    exact named (of_mem_initializersAt listed).2

theorem initializerCalls_known (built : build program specified plan config = .ok graph)
    (call : PointId) (initializer : MethodId)
    (added : (call, initializer) ∈ graph.initializerCalls) :
    initializer ∈ graph.program.methodIds := by
  obtain rfl := eq_assemble_of_build built
  rw [program_assemble]
  exact (of_mem_initializersAt (assemble_restoresOnce _ _ _ _ call initializer added).1).1

theorem finite_of_build (built : build program specified plan config = .ok graph) :
    graph.callSource.Finite := finite_callSource (initializerCalls_known built)

theorem assemble_blockRecursion (nothing : plan.blocked = .empty)
    (named : program.methodName program.entry ≠ config.staticInitializerName) :
    assemble program specified (plan.blockRecursion (assemble program specified plan config)) config =
      { assemble program specified plan config with
        blocked := (assemble program specified plan config).callSource.recursionBlocks } := by
  apply assemble_withBlocked nothing
  intro initializer listed
  have prepared : (assemble program specified plan config).Prepared _ := assemble_prepared named
  have unaffected := prepared.unaffected listed
  rwa [program_assemble] at unaffected

end

end Supergraph

namespace SliceRun

theorem buildGraph_of_known {program : Program} {config : Config} {criteria : Criteria}
    (cut : config.retainCycle = false)
    (known : ∀ point ∈ program.loopPlan.namedPoints ++ criteria.specified,
      point ∈ program.pointIds) :
    buildGraph program config criteria = .ok (Supergraph.assemble program criteria.specified
      (program.loopPlan.blockRecursion
        (Supergraph.assemble program criteria.specified program.loopPlan config)) config) := by
  simp only [buildGraph, cut, Bool.false_eq_true, if_false, Supergraph.build_of_known config known]
  exact Supergraph.build_of_known config known

/-- With the calls blocked that close a recursion, no recursion is left, and every
method that was reached before still is. -/
theorem recursion_free (program : Program) (config : Config) (criteria : Criteria)
    (cut : config.retainCycle = false)
    (named : program.methodName program.entry ≠ config.staticInitializerName)
    (known : ∀ point ∈ criteria.specified, point ∈ program.pointIds) :
    ∃ loopFree graph,
      Supergraph.build program criteria.specified program.loopPlan config = .ok loopFree ∧
        buildGraph program config criteria = .ok graph ∧
        graph.callGraph.cyclicComponents = [] ∧
        ∀ method, method ∈ graph.callGraph.reachable program.entry ↔
          method ∈ loopFree.callGraph.reachable program.entry := by
  have points : ∀ point ∈ program.loopPlan.namedPoints ++ criteria.specified,
      point ∈ program.pointIds := by
    intro point member
    rcases List.mem_append.mp member with planned | specified
    · exact program.loopPlan_known point planned
    · exact known point specified
  have nothing : program.loopPlan.blocked = .empty := rfl
  let loopFree := Supergraph.assemble program criteria.specified program.loopPlan config
  have prepared : loopFree.Prepared _ := Supergraph.assemble_prepared named
  have unblocked : loopFree.blocked = .empty := Supergraph.blocked_assemble.trans nothing
  have entry : loopFree.program.entry = program.entry :=
    congrArg Program.entry Supergraph.program_assemble
  refine ⟨loopFree, _, Supergraph.build_of_known config points, buildGraph_of_known cut points, ?_⟩
  rw [Supergraph.assemble_blockRecursion nothing named, ← entry]
  exact ⟨prepared.acyclic_withBlocked unblocked,
    fun method => prepared.mem_reachable_withBlocked unblocked⟩

/-- The initializer is triggered by a plain statement of the entry method, calls it
back, and is entered through an added call only. Method 2 calls itself. -/
def callbackListing : Listing where
  entry := some 0
  classes := [⟨0, "app.Main", none, [], false, false⟩, ⟨1, "lib.Api", none, [], false, false⟩]
  methods := [⟨0, 0, "main", "", true, false, [0, 1, 2, 3]⟩,
    ⟨1, 0, "<clinit>", "", true, false, [4]⟩, ⟨2, 0, "work", "", true, false, [5]⟩,
    ⟨3, 1, "run", "", true, false, []⟩]
  points := [⟨0, 0, 1, .plain, ""⟩, ⟨1, 0, 2, .call ⟨2, .static, none, [], none⟩, ""⟩,
    ⟨2, 0, 3, .call ⟨3, .static, none, [], none⟩, ""⟩,
    ⟨3, 0, 4, .call ⟨3, .static, none, [], none⟩, ""⟩,
    ⟨4, 1, 5, .call ⟨0, .static, none, [], none⟩, ""⟩,
    ⟨5, 2, 6, .call ⟨2, .static, none, [], none⟩, ""⟩]
  edges := [⟨0, 1, false⟩, ⟨1, 2, false⟩, ⟨2, 3, false⟩]
  calls := [⟨0, 1⟩, ⟨1, 2⟩, ⟨2, 3⟩, ⟨3, 3⟩, ⟨4, 0⟩, ⟨5, 2⟩]
  allocSites := []
  pointsTo := []

def callbackProgram : Program := ⟨callbackListing, 0, rfl, by decide⟩

def cuttingConfig : Config := { Config.default with retainCycle := false }

theorem callbackProgram_recursion_free :
    ∃ loopFree graph,
      Supergraph.build callbackProgram [2] callbackProgram.loopPlan cuttingConfig = .ok loopFree ∧
        loopFree.initializerCalls = [(1, 1)] ∧
        loopFree.callGraph.cyclicComponents = [[0, 1], [2]] ∧
        buildGraph callbackProgram cuttingConfig (.ofList [.seq [2, 3]]) = .ok graph ∧
        graph.callGraph.cyclicComponents = [] ∧
        ∀ method ∈ [0, 2, 1], method ∈ graph.callGraph.reachable 0 := by
  have specified : (Criteria.ofList [.seq [2, 3]]).specified = [2] := by cbv
  have named : callbackProgram.methodName callbackProgram.entry ≠
      cuttingConfig.staticInitializerName := by decide
  have known : ∀ point ∈ (Criteria.ofList [.seq [2, 3]]).specified,
      point ∈ callbackProgram.pointIds := by
    rw [specified]
    decide
  obtain ⟨loopFree, graph, built, final, acyclic, reached⟩ :=
    recursion_free callbackProgram cuttingConfig (.ofList [.seq [2, 3]]) rfl named known
  rw [specified] at built
  have before : ((Supergraph.build callbackProgram [2] callbackProgram.loopPlan
      cuttingConfig).toOption.map fun graph => (graph.initializerCalls,
        graph.callGraph.cyclicComponents, graph.callGraph.reachable 0)) =
      some ([(1, 1)], [[0, 1], [2]], [0, 2, 1]) := by cbv
  rw [built] at before
  obtain ⟨added, before⟩ := Prod.mk.inj (Option.some.inj before)
  obtain ⟨recursive, methods⟩ := Prod.mk.inj before
  refine ⟨loopFree, graph, built, added, recursive, final, acyclic, fun method member => ?_⟩
  rw [← methods] at member
  exact (reached method).mpr member

end SliceRun
end SeqSlice
