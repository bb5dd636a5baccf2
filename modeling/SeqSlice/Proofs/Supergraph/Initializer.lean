import SeqSlice.Proofs.Supergraph.Calls
import SeqSlice.Proofs.Supergraph.Linked

/-! The call that a static initializer gets when only statements that are no calls lead
to it: the first call that is met behind one of them. If there is a call behind one of
them at all, one is added, and it is a caller of the initializer. It enters the
initializer as well, unless it is one of the specified statements. -/

set_option autoImplicit false
namespace SeqSlice
namespace Supergraph

def Walk (graph : Supergraph) : PointId → PointId → Prop :=
  Relation.ReflTransGen fun source target => target ∈ graph.succs source

def PlainWalk (graph : Supergraph) : PointId → PointId → Prop :=
  Relation.ReflTransGen fun source target =>
    graph.isCall source = false ∧ target ∈ graph.succs source

variable {graph : Supergraph} {start call caller : PointId} {initializer : MethodId}

/-! ## The search for a call -/

theorem plainWalk_of_firstCallFrom? (found : graph.firstCallFrom? start = some call) :
    graph.PlainWalk start call := by
  obtain ⟨_, before, after, order, plain⟩ := List.find?_eq_some_iff_append.mp found
  -- All that was visited before is plain, so a walk through it is, up to the call itself.
  have walks {point : PointId} (reach : Graph.Reach graph.succs (before ++ [call]) [start] point) :
      graph.PlainWalk start point ∨ graph.PlainWalk start call := by
    induction reach with
    | source _ origin => exact .inl (List.mem_singleton.mp origin ▸ .refl)
    | @step point parent reach _ child ih =>
        rcases ih with walk | done
        · rcases List.mem_append.mp reach.mem_domain with earlier | last
          · exact .inl (walk.tail ⟨by simpa using plain parent earlier, child⟩)
          · exact .inr (List.mem_singleton.mp last ▸ walk)
        · exact .inr done
  exact (walks (Graph.reach_of_visit_eq order)).elim id id

theorem exists_firstCallFrom?
    (closed : ∀ source target, target ∈ graph.succs source → target ∈ graph.program.pointIds)
    (known : start ∈ graph.program.pointIds) (walk : graph.Walk start call)
    (isCall : graph.isCall call = true) : ∃ first, graph.firstCallFrom? start = some first := by
  have reach : Graph.Reach graph.succs graph.program.pointIds [start] call := by
    clear isCall
    induction walk with
    | refl => exact .source known List.mem_cons_self
    | tail _ follows ih => exact .step ih (closed _ _ follows) follows
  exact Option.isSome_iff_exists.mp (List.find?_isSome.mpr ⟨call, Graph.mem_visit.mpr reach, isCall⟩)

/-! ## Calls that are added -/

def Walked (graph : Supergraph) : Prop :=
  ∀ call initializer, (call, initializer) ∈ graph.initializerCalls →
    ∃ caller ∈ graph.program.callers initializer, graph.PlainWalk caller call

theorem Walked.restore {initializers : List MethodId} (once : graph.RestoresOnce initializers)
    (walked : graph.Walked) (initializer : MethodId) :
    (graph.restoreInitializer initializer).Walked := by
  rw [restoreInitializer_eq]
  cases found : graph.callFor? initializer with
  | none => exact walked
  | some new =>
      intro call target member
      rcases mem_pushNew.mp member with old | last
      · exact walked call target old
      · cases last
        obtain ⟨_, _, plain⟩ := callFor?_eq_some found
        unfold callFor? at found
        split at found
        · cases found
        · obtain ⟨caller, isCaller, met⟩ := List.exists_of_findSome?_eq_some found
          refine ⟨caller, ?_, plainWalk_of_firstCallFrom? met⟩
          -- No call has been added for it, since that would be a call among the callers.
          rcases (mem_callers.mp isCaller).2.2 with ⟨listed, _⟩ | added
          · exact listed
          · have isCall := (once caller initializer added).2.isCall
            cases isCall.symm.trans (plain caller isCaller)

theorem initializerCalls_restore {pair : PointId × MethodId}
    (added : pair ∈ graph.initializerCalls) (initializer : MethodId) :
    pair ∈ (graph.restoreInitializer initializer).initializerCalls := by
  rw [restoreInitializer_eq]
  cases graph.callFor? initializer with
  | none => exact added
  | some call => exact mem_pushNew.mpr (.inl added)

theorem initializerCalls_foldl {pair : PointId × MethodId} (initializers : List MethodId)
    (added : pair ∈ graph.initializerCalls) :
    pair ∈ (initializers.foldl restoreInitializer graph).initializerCalls :=
  List.foldlRecOn (motive := fun graph : Supergraph => pair ∈ graph.initializerCalls) _ _ added
    fun _ kept initializer _ => initializerCalls_restore kept initializer

/-- A call is behind one of the callers of the initializer, and in the program none of
these is a call. -/
structure Behind (graph : Supergraph) (initializer : MethodId) (caller call : PointId) : Prop where
  closed : ∀ source target, target ∈ graph.succs source → target ∈ graph.program.pointIds
  included : graph.isExcluded initializer = false
  visible : graph.isHidden initializer = false
  plain : ∀ caller ∈ graph.program.callers initializer, graph.isCall caller = false
  listed : caller ∈ graph.program.callers initializer
  kept : graph.blocked.contains caller initializer = false
  walk : graph.Walk caller call
  isCall : graph.isCall call = true

namespace Behind

variable (behind : graph.Behind initializer caller call)
include behind

theorem withCalls (calls : List (PointId × MethodId)) :
    { graph with initializerCalls := calls }.Behind initializer caller call :=
  ⟨behind.closed, behind.included, behind.visible, behind.plain, behind.listed, behind.kept,
    behind.walk, behind.isCall⟩

theorem exists_added : ∃ added, (added, initializer) ∈
    (graph.restoreInitializer initializer).initializerCalls := by
  have isCaller : caller ∈ graph.callers initializer :=
    mem_callers.mpr ⟨behind.included, behind.visible, .inl ⟨behind.listed, behind.kept⟩⟩
  by_cases called : (graph.callers initializer).any graph.isCall = true
  · -- A call among the callers is one that was added before.
    obtain ⟨added, member, isCall⟩ := List.any_eq_true.mp called
    rcases (mem_callers.mp member).2.2 with ⟨listed, _⟩ | present
    · cases isCall.symm.trans (behind.plain added listed)
    · exact ⟨added, initializerCalls_restore present initializer⟩
  · obtain ⟨first, met⟩ := exists_firstCallFrom? behind.closed
      (Program.call_listed (Program.mem_callers.mp behind.listed)).1 behind.walk behind.isCall
    have found : (graph.callFor? initializer).isSome = true := by
      rw [callFor?, if_neg called]
      exact List.findSome?_isSome_iff.mpr ⟨caller, isCaller, by simp [met]⟩
    obtain ⟨added, found⟩ := Option.isSome_iff_exists.mp found
    refine ⟨added, ?_⟩
    rw [restoreInitializer_eq, found]
    exact mem_pushNew.mpr (.inr rfl)

theorem exists_added_of_mem {initializers : List MethodId} (listed : initializer ∈ initializers) :
    ∃ added, (added, initializer) ∈
      (initializers.foldl restoreInitializer graph).initializerCalls := by
  -- What was added for the initializers in front changes no step and no filter.
  obtain ⟨front, rest, rfl⟩ := List.append_of_mem listed
  obtain ⟨calls, same⟩ := foldl_restoreInitializer_eq front graph
  obtain ⟨added, member⟩ := (behind.withCalls calls).exists_added
  refine ⟨added, ?_⟩
  rw [List.foldl_append, List.foldl_cons, same]
  exact initializerCalls_foldl rest member

end Behind

/-! ## The graph that is built -/

section
variable {program : Program} {specified : List PointId} {plan : CyclePlan} {config : Config}

theorem walked_assemble : (assemble program specified plan config).Walked := by
  have walked : ((initializersAt program specified config).foldl restoreInitializer
      (base program specified plan config)).RestoresOnce (initializersAt program specified config) ∧
      ((initializersAt program specified config).foldl restoreInitializer
        (base program specified plan config)).Walked := by
    refine List.foldlRecOn (motive := fun graph : Supergraph => graph.RestoresOnce _ ∧ graph.Walked) _ _ ?_ ?_
    · constructor
      · intro call initializer added
        cases added
      · intro call initializer added
        cases added
    · exact fun graph ⟨once, walked⟩ initializer listed =>
        ⟨once.restore listed, walked.restore once initializer⟩
  exact walked.2

/-- If there is a call behind a caller of the initializer of a specified statement and
none of its callers is a call, then the initializer gets a call. A walk from one of its
callers meets no call before it. The call is the only one among its callers, and it
enters the initializer unless it is specified itself. -/
theorem initializer_restored (built : build program specified plan config = .ok graph)
    (unblocked : ∀ call callee, plan.blocked.contains call callee = false) {point : PointId}
    (here : point ∈ specified) (declared : initializerAt? program config point = some initializer)
    (included : graph.isExcluded initializer = false) (visible : graph.isHidden initializer = false)
    (plain : ∀ caller ∈ program.callers initializer, program.isCall caller = false)
    (listed : caller ∈ program.callers initializer) (walk : graph.Walk caller call)
    (isCall : program.isCall call = true) :
    ∃ first ∈ program.callers initializer, ∃ added, program.isCall added = true ∧
      graph.PlainWalk first added ∧ added ∈ graph.callers initializer ∧
      (∀ other ∈ graph.callers initializer, program.isCall other = true → other = added) ∧
      (initializer ∈ graph.callees added ↔ added ∉ specified) := by
  have links := links_of_build built
  have own := program_of_build built
  -- The walk is one of the graph before any call is added, since calls do not change its steps.
  have behind : (base program specified plan config).Behind initializer caller call := by
    obtain ⟨calls, same⟩ := exists_assemble_eq program specified plan config
    rw [eq_assemble_of_build built, same] at included visible walk
    refine ⟨fun source target follows => ?_, included, ?_, plain, listed, unblocked _ _, walk, isCall⟩
    · exact (succs_known built (by rwa [succs, links])).2
    · exact Bool.or_eq_false_iff.mpr ⟨(Bool.or_eq_false_iff.mp visible).1, rfl⟩
  have inList : initializer ∈ initializersAt program specified config :=
    List.mem_filterMap.mpr ⟨point, mem_ascending.mpr here, declared⟩
  obtain ⟨added, member⟩ : ∃ added, (added, initializer) ∈ graph.initializerCalls := by
    rw [eq_assemble_of_build built]
    exact behind.exists_added_of_mem inList
  obtain ⟨first, isFirst, walked⟩ : ∃ first ∈ program.callers initializer,
      graph.PlainWalk first added := by
    have walked : graph.Walked := eq_assemble_of_build built ▸ walked_assemble
    exact own ▸ walked added initializer member
  have restored : graph.Restored added initializer := by
    rw [eq_assemble_of_build built] at member ⊢
    exact (assemble_restoresOnce program specified plan config added initializer member).2
  refine ⟨first, isFirst, added, own ▸ restored.isCall, walked,
    mem_callers.mpr ⟨included, visible, .inr member⟩, fun other isCaller calls => ?_, ?_⟩
  · rcases (mem_callers.mp isCaller).2.2 with ⟨known, _⟩ | again
    · rw [own] at known
      cases calls.symm.trans (plain other known)
    · exact restored.only other again
  · rw [restored.mem_callees_iff member, isSpecified, specified_of_build built]
    simp [mem_ascending]

end
end Supergraph

/-- The first call behind the statement is not specified, so it enters the initializer. -/
theorem triggerProgram_restored :
    ∃ graph, Supergraph.build triggerProgram [2] .empty .default = .ok graph ∧
      Supergraph.initializerAt? triggerProgram .default 2 = some 1 ∧
      ∃ added ∈ graph.callers 1, 1 ∈ graph.callees added := by
  have known : ∀ point ∈ [2], point ∈ triggerProgram.pointIds := by decide
  have built := Supergraph.build_empty .default known
  have callers : (Supergraph.assemble triggerProgram [2] .empty .default).callers 1 = [0, 1] := by cbv
  have succs : (Supergraph.assemble triggerProgram [2] .empty .default).succs 0 = [1] := by cbv
  have walk : (Supergraph.assemble triggerProgram [2] .empty .default).Walk 0 1 :=
    .single (by simp [succs])
  have declared : Supergraph.initializerAt? triggerProgram .default 2 = some 1 := by cbv
  obtain ⟨_, _, added, _, _, isCaller, _, enters⟩ := Supergraph.initializer_restored built
    (fun _ _ => rfl) List.mem_cons_self declared (by cbv) (by cbv) (by decide)
    (by decide : 0 ∈ triggerProgram.callers 1) walk (by decide)
  have other : added ∉ [2] := by
    rw [callers] at isCaller
    rcases List.mem_cons.mp isCaller with rfl | last
    · decide
    · rw [List.mem_singleton.mp last]
      decide
  exact ⟨_, built, declared, added, isCaller, enters.mpr other⟩

/-- The only call behind the statement that triggers the initializer is specified. -/
def lateListing : Listing where
  entry := some 0
  classes := [⟨0, "Main", none, [], false, false⟩]
  methods := [⟨0, 0, "main", "", true, false, [0, 1]⟩, ⟨1, 0, "<clinit>", "", true, false, [2]⟩,
    ⟨2, 0, "api", "", true, false, []⟩]
  points := [⟨0, 0, 1, .plain, ""⟩, ⟨1, 0, 2, .call ⟨2, .static, none, [], none⟩, ""⟩,
    ⟨2, 1, 3, .plain, ""⟩]
  edges := [⟨0, 1, false⟩]
  calls := [⟨0, 1⟩, ⟨1, 2⟩]
  allocSites := []
  pointsTo := []

def lateProgram : Program := ⟨lateListing, 0, rfl, by decide⟩

theorem specifiedCall_not_entering :
    ∃ graph, Supergraph.build lateProgram [1] .empty .default = .ok graph ∧
      (∀ call callee, CyclePlan.empty.blocked.contains call callee = false) ∧
      Supergraph.initializerAt? lateProgram .default 1 = some 1 ∧
      lateProgram.hasBody 1 = true ∧ graph.isExcluded 1 = false ∧ graph.isHidden 1 = false ∧
      lateProgram.callers 1 = [0] ∧ lateProgram.isCall 0 = false ∧
      graph.Walk 0 1 ∧ lateProgram.isCall 1 = true ∧
      ∀ call, lateProgram.isCall call = true → call ∈ graph.callers 1 → 1 ∉ graph.callees call := by
  have known : ∀ point ∈ [1], point ∈ lateProgram.pointIds := by decide
  have callers : (Supergraph.assemble lateProgram [1] .empty .default).callers 1 = [0, 1] := by cbv
  have callees : (Supergraph.assemble lateProgram [1] .empty .default).callees 1 = [] := by cbv
  have succs : (Supergraph.assemble lateProgram [1] .empty .default).succs 0 = [1] := by cbv
  refine ⟨_, Supergraph.build_empty .default known, fun _ _ => rfl, by cbv, by decide, by cbv,
    by cbv, by decide, by decide, .single (by simp [succs]), by decide, fun call isCall isCaller => ?_⟩
  rw [callers] at isCaller
  rcases List.mem_cons.mp isCaller with rfl | last
  · cases isCall
  · rw [List.mem_singleton.mp last, callees]
    simp

end SeqSlice
