import Mathlib
import SeqSlice.Proofs.Supergraph.Assembled

/-! Call edges of a supergraph, read from the call and from the method that is
entered. Both readings agree, except for calls that were added for a static
initializer: these bypass what shuts a method out on one side. -/

set_option autoImplicit false
namespace SeqSlice

theorem mem_foldl_pushNew {α : Type} [DecidableEq α] {values added : List α} {value : α} :
    value ∈ added.foldl pushNew values ↔ value ∈ values ∨ value ∈ added := by
  induction added generalizing values with
  | nil => simp
  | cons first rest ih => rw [List.foldl_cons, ih, mem_pushNew, List.mem_cons, or_assoc]

namespace Supergraph

variable {graph : Supergraph}

theorem mem_callees {point : PointId} {method : MethodId} :
    method ∈ graph.callees point ↔
      graph.isSpecified point = false ∧ graph.isExcluded method = false ∧
        ((method ∈ graph.program.callees point ∧ graph.program.hasBody method = true ∧
            graph.isHidden method = false ∧ graph.blocked.contains point method = false) ∨
          (point, method) ∈ graph.initializerCalls) := by
  unfold callees
  cases graph.isSpecified point with
  | true => simp
  | false =>
      simp only [Bool.false_eq_true, if_false, List.mem_filter, mem_foldl_pushNew, List.mem_map,
        Bool.and_eq_true, Bool.not_eq_true', beq_iff_eq, Prod.exists, true_and]
      grind

theorem mem_callers {point : PointId} {method : MethodId} :
    point ∈ graph.callers method ↔
      graph.isExcluded method = false ∧ graph.isHidden method = false ∧
        ((point ∈ graph.program.callers method ∧ graph.blocked.contains point method = false) ∨
          (point, method) ∈ graph.initializerCalls) := by
  unfold callers
  cases graph.isExcluded method with
  | true => simp
  | false =>
      cases graph.isHidden method with
      | true => simp
      | false => simp [mem_foldl_pushNew]

/-! ## Calls that are added for an initializer -/

/-- A call is added only if the initializer has callers and none of them is a call. -/
theorem callFor?_eq_some {initializer : MethodId} {call : PointId}
    (found : graph.callFor? initializer = some call) :
    graph.isCall call = true ∧ graph.callers initializer ≠ [] ∧
      ∀ caller ∈ graph.callers initializer, graph.isCall caller = false := by
  unfold callFor? at found
  split at found
  · cases found
  · next none =>
      obtain ⟨caller, member, walk⟩ := List.exists_of_findSome?_eq_some found
      exact ⟨List.find?_some walk, List.ne_nil_of_mem member, by simpa using none⟩

theorem callFor?_of_call {initializer : MethodId} {caller : PointId}
    (member : caller ∈ graph.callers initializer) (isCall : graph.isCall caller = true) :
    graph.callFor? initializer = none :=
  if_pos (List.any_eq_true.mpr ⟨caller, member, isCall⟩)

structure Restored (graph : Supergraph) (call : PointId) (initializer : MethodId) : Prop where
  isCall : graph.isCall call = true
  included : graph.isExcluded initializer = false
  transparent : graph.opaqueMethods.contains initializer = false
  uncalled : ∀ caller ∈ graph.program.callers initializer, graph.isCall caller = true →
    graph.blocked.contains caller initializer = true
  only : ∀ other, (other, initializer) ∈ graph.initializerCalls → other = call

namespace Restored

variable {call : PointId} {initializer : MethodId} (restored : graph.Restored call initializer)
include restored

theorem isHidden_eq :
    graph.isHidden initializer = graph.blockedMethods.contains initializer := by
  rw [isHidden, restored.transparent, Bool.false_or]

theorem mem_callees_iff (added : (call, initializer) ∈ graph.initializerCalls) :
    initializer ∈ graph.callees call ↔ graph.isSpecified call = false := by
  rw [mem_callees]
  exact ⟨And.left, fun looked => ⟨looked, restored.included, .inr added⟩⟩

theorem mem_callers_iff (added : (call, initializer) ∈ graph.initializerCalls) :
    call ∈ graph.callers initializer ↔ graph.blockedMethods.contains initializer = false := by
  rw [mem_callers, restored.isHidden_eq]
  exact ⟨fun known => known.2.1, fun visible => ⟨restored.included, visible, .inr added⟩⟩

end Restored

def RestoresOnce (graph : Supergraph) (initializers : List MethodId) : Prop :=
  ∀ call initializer, (call, initializer) ∈ graph.initializerCalls →
    initializer ∈ initializers ∧ graph.Restored call initializer

theorem RestoresOnce.restore {initializers : List MethodId} {initializer : MethodId}
    (once : graph.RestoresOnce initializers) (listed : initializer ∈ initializers) :
    (graph.restoreInitializer initializer).RestoresOnce initializers := by
  rw [restoreInitializer_eq]
  cases found : graph.callFor? initializer with
  | none => exact once
  | some new =>
      obtain ⟨isCall, called, noCalls⟩ := callFor?_eq_some found
      obtain ⟨first, isCaller⟩ := List.exists_mem_of_ne_nil _ called
      obtain ⟨included, visible, _⟩ := mem_callers.mp isCaller
      -- An added call would be among the callers, and none of these is a call.
      have fresh (other : PointId) : (other, initializer) ∉ graph.initializerCalls := by
        intro old
        have absent := noCalls other (mem_callers.mpr ⟨included, visible, .inr old⟩)
        exact Bool.false_ne_true (absent.symm.trans (once other initializer old).2.isCall)
      intro call target member
      rcases mem_pushNew.mp member with old | last
      · obtain ⟨known, restored⟩ := once call target old
        refine ⟨known, restored.isCall, restored.included, restored.transparent, restored.uncalled, ?_⟩
        intro other again
        rcases mem_pushNew.mp again with earlier | now
        · exact restored.only other earlier
        · cases now
          exact absurd old (fresh call)
      · cases last
        refine ⟨listed, isCall, included, (Bool.or_eq_false_iff.mp visible).1, ?_, ?_⟩
        · intro caller member calls
          by_contra kept
          have absent := noCalls caller
            (mem_callers.mpr ⟨included, visible, .inl ⟨member, Bool.eq_false_of_not_eq_true kept⟩⟩)
          exact Bool.false_ne_true (absent.symm.trans calls)
        · intro other again
          rcases mem_pushNew.mp again with earlier | now
          · exact absurd earlier (fresh other)
          · exact (Prod.mk.inj now).1

/-! ## Both readings -/

/-- The call edge between a statement and a method reads the same from both sides,
and a method that is shut out is not entered. -/
structure CallsAgree (graph : Supergraph) (point : PointId) (method : MethodId) : Prop where
  mirrored : method ∈ graph.callees point ↔
    graph.isSpecified point = false ∧ graph.program.hasBody method = true ∧
      point ∈ graph.callers method
  shut : graph.isHidden method = true ∨ graph.isExcluded method = true ∨
    graph.blocked.contains point method = true → method ∉ graph.callees point

theorem callsAgree_of_not_added {point : PointId} {method : MethodId}
    (notAdded : (point, method) ∉ graph.initializerCalls) : graph.CallsAgree point method where
  mirrored := by
    rw [mem_callees, mem_callers, Program.mem_callees_iff_mem_callers]
    simp only [notAdded, or_false]
    constructor
    · rintro ⟨looked, included, listed, body, visible, kept⟩
      exact ⟨looked, body, included, visible, listed, kept⟩
    · rintro ⟨looked, body, included, visible, listed, kept⟩
      exact ⟨looked, included, listed, body, visible, kept⟩
  shut := by
    rw [mem_callees]
    simp only [notAdded, or_false]
    rintro (hidden | excluded | blocked) ⟨_, included, _, _, visible, kept⟩
    · simp [hidden] at visible
    · simp [excluded] at included
    · simp [blocked] at kept

/-- An added call enters the initializer whatever else shuts it out, unless the
statement is not looked into at all. -/
theorem RestoresOnce.callsAgree_iff {initializers : List MethodId}
    (once : graph.RestoresOnce initializers) {point : PointId} {method : MethodId} :
    graph.CallsAgree point method ↔
      ((point, method) ∈ graph.initializerCalls → graph.isSpecified point = true ∨
        (graph.program.hasBody method = true ∧ graph.blockedMethods.contains method = false ∧
          graph.blocked.contains point method = false)) := by
  by_cases added : (point, method) ∈ graph.initializerCalls
  · -- Forward the statement decides alone, backward the package of the method.
    have restored := (once point method added).2
    have enters := restored.mem_callees_iff added
    have leads := restored.mem_callers_iff added
    constructor
    · intro agrees _
      cases looked : graph.isSpecified point with
      | true => exact .inl rfl
      | false =>
          have inside := enters.mpr looked
          obtain ⟨_, body, known⟩ := agrees.mirrored.mp inside
          refine .inr ⟨body, leads.mp known, Bool.eq_false_of_not_eq_true fun blocked => ?_⟩
          exact agrees.shut (.inr (.inr blocked)) inside
    · intro condition
      rcases condition added with specified | ⟨body, visible, kept⟩
      · have outside : method ∉ graph.callees point := by simp [enters, specified]
        exact ⟨iff_of_false outside (by simp [specified]), fun _ => outside⟩
      · refine ⟨?_, ?_⟩
        · rw [enters, leads]
          exact ⟨fun looked => ⟨looked, body, visible⟩, And.left⟩
        · rintro (hidden | excluded | blocked)
          · cases hidden.symm.trans (restored.isHidden_eq.trans visible)
          · cases excluded.symm.trans restored.included
          · cases blocked.symm.trans kept
  · exact iff_of_true (callsAgree_of_not_added added) fun present => absurd present added

/-! ## Assembled graphs -/

section
variable (program : Program) (specified : List PointId) (plan : CyclePlan) (config : Config)

theorem assemble_restoresOnce :
    (assemble program specified plan config).RestoresOnce
      (initializersAt program specified config) := by
  have once : ((initializersAt program specified config).foldl restoreInitializer
      (base program specified plan config)).RestoresOnce (initializersAt program specified config) := by
    refine List.foldlRecOn (motive := (RestoresOnce · _)) _ _ ?_ ?_
    · intro call initializer added
      cases added
    · exact fun graph kept initializer listed => kept.restore listed
  intro call initializer added
  obtain ⟨listed, restored⟩ := once call initializer added
  exact ⟨listed, restored.isCall, restored.included, restored.transparent, restored.uncalled,
    restored.only⟩

/-- Calls read the same in both directions, and what is shut out is not entered,
exactly up to added calls that enter an initializer without body, of a blocked
package, or blocked there by the plan. -/
theorem calls_agree_iff (point : PointId) (method : MethodId) :
    (assemble program specified plan config).CallsAgree point method ↔
      ((point, method) ∈ (assemble program specified plan config).initializerCalls →
        point ∈ specified ∨ (program.hasBody method = true ∧
          method ∉ methodsOfPackages program config.blockPackagePrefixes ∧
          plan.blocked.contains point method = false)) := by
  rw [(assemble_restoresOnce program specified plan config).callsAgree_iff]
  obtain ⟨calls, same⟩ := exists_assemble_eq program specified plan config
  rw [same]
  simp [base, isSpecified, mem_ascending]

end

theorem callers_known {program : Program} {specified : List PointId} {plan : CyclePlan}
    {config : Config} {graph : Supergraph}
    (built : build program specified plan config = .ok graph) {method : MethodId} {caller : PointId}
    (member : caller ∈ graph.callers method) : caller ∈ program.pointIds := by
  have same := program_of_build built
  rcases (mem_callers.mp member).2.2 with ⟨listed, _⟩ | added
  · exact same ▸ (Program.call_listed (Program.mem_callers.mp listed)).1
  · have once := assemble_restoresOnce program specified plan config
    rw [← eq_assemble_of_build built] at once
    exact same ▸ Program.mem_pointIds_of_isCall (once caller method added).2.isCall

end Supergraph

/-- The initializer of the main class is triggered by a plain statement, and two calls
of the library follow. -/
def triggerListing : Listing where
  entry := some 0
  classes := [⟨0, "app.Main", none, [], false, false⟩, ⟨1, "lib.Api", none, [], false, false⟩]
  methods := [⟨0, 0, "main", "", true, false, [0, 1, 2]⟩, ⟨1, 0, "<clinit>", "", true, false, [3]⟩,
    ⟨2, 1, "run", "", true, false, [4]⟩]
  points := [⟨0, 0, 1, .plain, ""⟩, ⟨1, 0, 2, .call ⟨2, .static, none, [], none⟩, ""⟩,
    ⟨2, 0, 3, .call ⟨2, .static, none, [], none⟩, ""⟩, ⟨3, 1, 4, .plain, ""⟩, ⟨4, 2, 5, .plain, ""⟩]
  edges := [⟨0, 1, false⟩, ⟨1, 2, false⟩]
  calls := [⟨0, 1⟩, ⟨1, 2⟩, ⟨2, 2⟩]
  allocSites := []
  pointsTo := []

def triggerProgram : Program := ⟨triggerListing, 0, rfl, by decide⟩

def packageConfig : Config := { Config.default with blockPackagePrefixes := ["app"] }

/-- The first call enters the initializer, although its package is blocked and the
initializer has no callers. -/
theorem blockedPackage_entered :
    ∃ graph, Supergraph.build triggerProgram [2] .empty packageConfig = .ok graph ∧
      1 ∈ Supergraph.methodsOfPackages triggerProgram packageConfig.blockPackagePrefixes ∧
      1 ∈ graph.callees 1 ∧ graph.callers 1 = [] ∧ ¬ graph.CallsAgree 1 1 := by
  have known : ∀ point ∈ CyclePlan.empty.namedPoints ++ [2], point ∈ triggerProgram.pointIds := by
    have named : CyclePlan.empty.namedPoints = [] := by cbv
    rw [named]
    decide
  have packages : Supergraph.methodsOfPackages triggerProgram packageConfig.blockPackagePrefixes =
      [0, 1] := by cbv
  have callees : (Supergraph.assemble triggerProgram [2] .empty packageConfig).callees 1 = [2, 1] := by
    cbv
  have callers : (Supergraph.assemble triggerProgram [2] .empty packageConfig).callers 1 = [] := by
    cbv
  refine ⟨_, Supergraph.build_of_known packageConfig known, by simp [packages], by simp [callees],
    callers, fun agrees => ?_⟩
  have known := (agrees.mirrored.mp (by simp [callees])).2.2
  simp [callers] at known

end SeqSlice
