import SeqSlice.Proofs.Flow.LoopCut
import SeqSlice.Proofs.Solver.Path
import SeqSlice.Proofs.Supergraph.Assembled
import SeqSlice.Supergraph.View

/-! Steps of a supergraph: they can be read in both directions and stay in one
method, also after loops have been cut. So both views of a supergraph are local. -/

set_option autoImplicit false
namespace SeqSlice

def Program.Together (program : Program) (first second : PointId) : Prop :=
  first ∈ program.pointIds ∧ second ∈ program.pointIds ∧
    program.methodOf? second = program.methodOf? first

theorem Program.together_of_methodOf? {program : Program} {first second : PointId}
    {method : MethodId} (one : program.methodOf? first = some method)
    (other : program.methodOf? second = some method) : program.Together first second :=
  ⟨mem_pointIds_of_methodOf? one, mem_pointIds_of_methodOf? other, other.trans one.symm⟩

structure Links.Sound (program : Program) (links : Links) : Prop where
  mirrored : ∀ source target, target ∈ links.succs source ↔ source ∈ links.preds target
  together : ∀ source target, target ∈ links.succs source → program.Together source target

namespace Links

variable {program : Program} {links : Links}

structure Mirrored (links : Links) : Prop where
  agree : ∀ source target, target ∈ links.succs source ↔ source ∈ links.preds target
  nodup_succs : ∀ point, (links.succs point).Nodup
  nodup_preds : ∀ point, (links.preds point).Nodup

theorem mirrored_ofProgram (program : Program) : (ofProgram program).Mirrored where
  agree _ _ := Program.mem_succs_iff_mem_preds
  nodup_succs := Program.nodup_succs
  nodup_preds := Program.nodup_preds

theorem mem_succs_remove {source target point next : PointId} :
    next ∈ (links.remove source target).succs point ↔
      next ∈ links.succs point ∧ ¬ (point = source ∧ next = target) := by
  unfold remove
  by_cases here : point = source <;> simp [here]

theorem mem_preds_remove {source target point next : PointId} :
    point ∈ (links.remove source target).preds next ↔
      point ∈ links.preds next ∧ ¬ (point = source ∧ next = target) := by
  unfold remove
  by_cases here : next = target <;> simp [here]

theorem mem_succs_add {source target point next : PointId} :
    next ∈ (links.add source target).succs point ↔
      next ∈ links.succs point ∨ (point = source ∧ next = target) := by
  unfold add
  by_cases here : point = source <;> simp [here, mem_pushNew]

theorem mem_preds_add {source target point next : PointId} :
    point ∈ (links.add source target).preds next ↔
      point ∈ links.preds next ∨ (point = source ∧ next = target) := by
  unfold add
  by_cases here : next = target <;> simp [here, mem_pushNew]

theorem Mirrored.remove (mirrored : links.Mirrored) (source target : PointId) :
    (links.remove source target).Mirrored where
  agree point next := by rw [mem_succs_remove, mem_preds_remove, mirrored.agree]
  nodup_succs point := by
    unfold Links.remove
    by_cases here : point = source
    · simpa [here] using (mirrored.nodup_succs source).filter _
    · simpa [here] using mirrored.nodup_succs point
  nodup_preds point := by
    unfold Links.remove
    by_cases here : point = target
    · simpa [here] using (mirrored.nodup_preds target).filter _
    · simpa [here] using mirrored.nodup_preds point

theorem Mirrored.add (mirrored : links.Mirrored) (source target : PointId) :
    (links.add source target).Mirrored where
  agree point next := by rw [mem_succs_add, mem_preds_add, mirrored.agree]
  nodup_succs point := by
    unfold Links.add
    by_cases here : point = source
    · simpa [here] using nodup_pushNew (mirrored.nodup_succs source) target
    · simpa [here] using mirrored.nodup_succs point
  nodup_preds point := by
    unfold Links.add
    by_cases here : point = target
    · simpa [here] using nodup_pushNew (mirrored.nodup_preds target) source
    · simpa [here] using mirrored.nodup_preds point

end Links

namespace CyclePlan

variable {program : Program}

/-- A plan takes edges out and puts exits in, one after the other. What both keep is
true of the steps under the plan. -/
theorem links_keep {plan : CyclePlan} {motive : Links → Prop} (start : motive (.ofProgram program))
    (remove : ∀ links source target, motive links → motive (links.remove source target))
    (add : ∀ links, ∀ entry ∈ plan.redirections, ∀ exit ∈ entry.2, motive links →
      motive (links.add entry.1.source exit)) : motive (plan.links program) := by
  refine List.foldlRecOn _ _ start fun links kept entry listed => ?_
  refine List.foldlRecOn _ _ (remove links _ _ kept) fun links kept exit member => ?_
  exact add links entry (List.mem_mergeSort.mp listed) exit (mem_ascending.mp member) kept

theorem mirrored (plan : CyclePlan) (program : Program) : (plan.links program).Mirrored :=
  links_keep (Links.mirrored_ofProgram program) (fun _ source target kept => kept.remove source target)
    fun _ entry _ exit _ kept => kept.add entry.1.source exit

theorem links_known {plan : CyclePlan} (known : ∀ point ∈ plan.namedPoints, point ∈ program.pointIds)
    {source target : PointId} (follows : target ∈ (plan.links program).succs source) :
    source ∈ program.pointIds ∧ target ∈ program.pointIds := by
  revert source target
  refine links_keep (motive := fun links => ∀ {source target : PointId},
    target ∈ links.succs source → source ∈ program.pointIds ∧ target ∈ program.pointIds) ?_ ?_ ?_
  · exact fun follows => ⟨(Program.succs_listed follows).1, (Program.succs_listed follows).2.1⟩
  · exact fun links source target kept _ _ follows => kept (Links.mem_succs_remove.mp follows).1
  · intro links entry listed exit inExits kept source target follows
    rcases Links.mem_succs_add.mp follows with old | ⟨rfl, rfl⟩
    · exact kept old
    · have named {point : PointId} (member : point ∈ entry.1.source :: entry.1.header :: entry.2) :
          point ∈ program.pointIds :=
        known point (List.mem_flatMap.mpr ⟨entry, List.mem_mergeSort.mpr listed, member⟩)
      exact ⟨named List.mem_cons_self,
        named (List.mem_cons_of_mem _ (List.mem_cons_of_mem _ inExits))⟩

def StaysIn (plan : CyclePlan) (program : Program) : Prop :=
  ∀ entry ∈ plan.redirections, ∀ exit ∈ entry.2, program.Together entry.1.source exit

theorem StaysIn.sound {plan : CyclePlan} (stays : plan.StaysIn program) :
    (plan.links program).Sound program where
  mirrored := (plan.mirrored program).agree
  together := by
    refine links_keep (motive := fun links => ∀ source target, target ∈ links.succs source →
      program.Together source target) (fun _ _ => Program.succs_listed) ?_ ?_
    · intro links source target kept point next member
      exact kept point next (Links.mem_succs_remove.mp member).1
    · intro links entry listed exit inExits kept point next member
      rcases Links.mem_succs_add.mp member with old | ⟨rfl, rfl⟩
      · exact kept point next old
      · exact stays entry listed next inExits

theorem empty_staysIn : empty.StaysIn program := by simp [StaysIn, empty]

end CyclePlan

theorem Program.together_of_redirected {program : Program} {method : MethodId} {edge : BackEdge}
    {exits : List PointId} {exit : PointId}
    (listed : (edge, exits) ∈ (program.methodLoops method).redirections) (member : exit ∈ exits) :
    program.Together edge.source exit := by
  cases found : program.flowHead? method with
  | none => simp [methodLoops_of_no_head found, MethodLoops.empty] at listed
  | some head =>
      have analysed := flowGraph_analysed found
      rw [methodLoops_of_head found] at listed
      obtain ⟨inLoop, outer, outerMember, subset, _, gate, _, passes⟩ :=
        leaves_of_redirected analysed listed member
      -- Both are nodes of the flow graph, and this has statements of the method only.
      have isLoop := loopAt_isLoop analysed outerMember
      have reached := (isLoop.dominated _ (subset _ inLoop)).1
      have sourceNode : edge.source ∈ (program.flowGraph method).nodes := by
        rcases Relation.ReflTransGen.cases_tail reached with same | ⟨_, _, along⟩
        · exact same ▸ analysed.rooted.root
        · exact analysed.rooted.target _ _ along
      have exitNode := analysed.rooted.target _ _ passes.1
      exact together_of_methodOf? (methodOf?_of_mem_flowNodes sourceNode)
        (methodOf?_of_mem_flowNodes exitNode)

theorem Program.redirected_known {program : Program} {method : MethodId} {edge : BackEdge}
    {exits : List PointId} (listed : (edge, exits) ∈ (program.methodLoops method).redirections) :
    edge.source ∈ program.pointIds ∧ edge.header ∈ program.pointIds := by
  cases found : program.flowHead? method with
  | none => simp [methodLoops_of_no_head found, MethodLoops.empty] at listed
  | some head =>
      have analysed := flowGraph_analysed found
      rw [methodLoops_of_head found, redirections_loopsOf] at listed
      obtain ⟨known, back, same⟩ := List.mem_map.mp listed
      obtain ⟨rfl, _⟩ := Prod.mk.inj same
      have along := ((FlowGraph.mem_backEdges analysed).mp back).1
      have source := methodOf?_of_mem_flowNodes (analysed.source _ _ along)
      have header := methodOf?_of_mem_flowNodes (analysed.rooted.target _ _ along)
      exact ⟨mem_pointIds_of_methodOf? source, mem_pointIds_of_methodOf? header⟩

theorem Program.mem_loopPlan {program : Program} {entry : BackEdge × List PointId}
    (listed : entry ∈ program.loopPlan.redirections) :
    ∃ method, entry ∈ (program.methodLoops method).redirections := by
  obtain ⟨⟨method, loops⟩, found, inLoops⟩ := List.mem_flatMap.mp listed
  obtain ⟨known, _, same⟩ := List.mem_map.mp (List.mem_filter.mp found).1
  obtain ⟨rfl, rfl⟩ := Prod.mk.inj same
  exact ⟨known, inLoops⟩

theorem Program.loopPlan_staysIn (program : Program) : program.loopPlan.StaysIn program := by
  rintro ⟨edge, exits⟩ listed exit member
  obtain ⟨method, inLoops⟩ := mem_loopPlan listed
  exact together_of_redirected inLoops member

theorem Program.loopPlan_known (program : Program) :
    ∀ point ∈ program.loopPlan.namedPoints, point ∈ program.pointIds := by
  intro point named
  obtain ⟨entry, sorted, member⟩ := List.mem_flatMap.mp named
  have listed := List.mem_mergeSort.mp sorted
  obtain ⟨method, inLoops⟩ := mem_loopPlan listed
  obtain ⟨source, header⟩ := redirected_known inLoops
  rcases List.mem_cons.mp member with rfl | member
  · exact source
  · rcases List.mem_cons.mp member with rfl | exit
    · exact header
    · exact (program.loopPlan_staysIn entry listed point exit).2.1

namespace Supergraph

section
variable {program : Program} {specified : List PointId} {plan : CyclePlan} {config : Config}

/-- A plan may redirect edges that are not there, lead an edge to its own ends, and
name a statement as often as it likes: the steps read the same in both directions,
and no step is listed twice. -/
theorem steps_mirrored (config : Config)
    (known : ∀ point ∈ plan.namedPoints ++ specified, point ∈ program.pointIds) :
    ∃ graph, build program specified plan config = .ok graph ∧
      ∀ source target, (target ∈ graph.succs source ↔ source ∈ graph.preds target) ∧
        (graph.succs source).Nodup ∧ (graph.preds target).Nodup := by
  have built := build_of_known config known
  have mirrored := plan.mirrored program
  rw [← links_of_build built] at mirrored
  refine ⟨_, built, fun source target => ?_⟩
  exact ⟨mirrored.agree source target, mirrored.nodup_succs source, mirrored.nodup_preds target⟩

end

/-- One row leads an edge back to both of its ends, one an edge that is not there. -/
def tangledPlan : CyclePlan :=
  ⟨[(⟨3, 2⟩, [4, 3, 2]), (⟨3, 0⟩, [2, 1]), (⟨2, 1⟩, [3, 1]), (⟨1, 1⟩, [])], .empty⟩

theorem tangledPlan_mirrored :
    (∀ point ∈ tangledPlan.namedPoints ++ [4], point ∈ nestedProgram.pointIds) ∧
      ∃ graph, build nestedProgram [4] tangledPlan .default = .ok graph ∧
        graph.succs 3 = [1, 2, 3, 4] ∧ graph.preds 1 = [0, 2, 3] ∧
        ∀ source target, target ∈ graph.succs source ↔ source ∈ graph.preds target := by
  have named : tangledPlan.namedPoints = [1, 1, 2, 1, 3, 1, 3, 0, 2, 1, 3, 2, 4, 3, 2] := by cbv
  have known : ∀ point ∈ tangledPlan.namedPoints ++ [4], point ∈ nestedProgram.pointIds := by
    rw [named]
    decide
  obtain ⟨graph, built, each⟩ := steps_mirrored .default known
  have links := links_of_build built
  have forth : graph.succs 3 = [1, 2, 3, 4] := by
    rw [succs, links]
    cbv
  have back : graph.preds 1 = [0, 2, 3] := by
    rw [preds, links]
    cbv
  exact ⟨known, graph, built, forth, back, fun source target => (each source target).1⟩

def Linked (graph : Supergraph) : Prop := graph.links.Sound graph.program

theorem linked_of_build {program : Program} {specified : List PointId} {plan : CyclePlan}
    {config : Config} {graph : Supergraph} (stays : plan.StaysIn program)
    (built : build program specified plan config = .ok graph) : graph.Linked := by
  rw [Linked, program_of_build built, links_of_build built]
  exact stays.sound

theorem succs_known {program : Program} {specified : List PointId} {plan : CyclePlan}
    {config : Config} {graph : Supergraph}
    (built : build program specified plan config = .ok graph) {source target : PointId}
    (follows : target ∈ graph.succs source) :
    source ∈ program.pointIds ∧ target ∈ program.pointIds := by
  rw [succs, links_of_build built] at follows
  exact CyclePlan.links_known
    (fun point named => known_of_build built point (List.mem_append_left _ named)) follows

theorem preds_known {program : Program} {specified : List PointId} {plan : CyclePlan}
    {config : Config} {graph : Supergraph}
    (built : build program specified plan config = .ok graph) {point before : PointId}
    (member : before ∈ graph.preds point) : before ∈ program.pointIds := by
  have mirrored := plan.mirrored program
  rw [← links_of_build built] at mirrored
  exact (succs_known built ((mirrored.agree before point).mpr member)).1

variable {graph : Supergraph}

theorem methodOf_known (point : PointId) :
    graph.methodOf point ∈ graph.program.methodIds := by
  unfold methodOf
  cases found : graph.program.methodOf? point with
  | none => exact graph.program.entry_mem_methodIds
  | some method => exact Program.mem_methodIds_of_methodOf? found

theorem methodOf_of_mem_body {method : MethodId} {point : PointId}
    (member : point ∈ graph.program.body method) : graph.methodOf point = method := by
  rw [methodOf, Program.methodOf?_of_mem_body member, Option.getD_some]

namespace Linked

variable (linked : graph.Linked)
include linked

theorem mem_succs_iff {source target : PointId} :
    target ∈ graph.succs source ↔ source ∈ graph.preds target := linked.mirrored source target

theorem methodOf_eq {source target : PointId} (follows : target ∈ graph.succs source) :
    graph.methodOf target = graph.methodOf source := by
  rw [methodOf, methodOf, (linked.together _ _ follows).2.2]

theorem forwardWhere_local (allowed : PointId → Bool) :
    (graph.forwardWhere allowed).toInterGraph.Local where
  succs _ _ member := linked.methodOf_eq (List.mem_filter.mp member).1
  returnSites _ _ member := linked.methodOf_eq (List.mem_filter.mp member).1
  starts _ _ member := methodOf_of_mem_body (Program.mem_body_of_mem_starts member)

theorem backward_local : graph.backward.toInterGraph.Local where
  succs _ _ member := (linked.methodOf_eq (linked.mem_succs_iff.mpr member)).symm
  returnSites _ _ member := (linked.methodOf_eq (linked.mem_succs_iff.mpr member)).symm
  starts _ _ member := methodOf_of_mem_body (Program.mem_body_of_mem_ends member)

end Linked
end Supergraph
end SeqSlice
