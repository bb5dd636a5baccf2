import SeqSlice.Proofs.Graph.Dominance

/-! Components with a cycle, by walks: two nodes share one if and only if each is
reached from the other by at least one edge. So a graph has none exactly if it has
no cycle. -/

set_option autoImplicit false
namespace SeqSlice

theorem one_lt_length_iff {values : List Nat} (unique : values.Nodup) {value : Nat}
    (member : value ∈ values) : 1 < values.length ↔ ∃ other ∈ values, other ≠ value := by
  have shorter := List.length_erase_of_mem member
  constructor
  · intro several
    have left : 0 < (values.erase value).length := by omega
    obtain ⟨other, inside⟩ := List.exists_mem_of_length_pos left
    obtain ⟨different, inside⟩ := unique.mem_erase_iff.mp inside
    exact ⟨other, inside, different⟩
  · rintro ⟨other, inside, different⟩
    have left := List.length_pos_of_mem (unique.mem_erase_iff.mpr ⟨different, inside⟩)
    omega

namespace Digraph

variable {graph : Digraph} {root : Nat}

def OnCycle (graph : Digraph) (first second : Nat) : Prop :=
  Relation.TransGen graph.Edge first second ∧ Relation.TransGen graph.Edge second first

theorem OnCycle.symm {first second : Nat} (cycle : graph.OnCycle first second) :
    graph.OnCycle second first := ⟨cycle.2, cycle.1⟩

theorem OnCycle.left {first second : Nat} (cycle : graph.OnCycle first second) :
    graph.OnCycle first first := ⟨cycle.1.trans cycle.2, cycle.1.trans cycle.2⟩

theorem OnCycle.mono {larger : Digraph}
    (edges : ∀ source target, graph.Edge source target → larger.Edge source target)
    {first second : Nat} (cycle : graph.OnCycle first second) : larger.OnCycle first second :=
  ⟨Relation.TransGen.mono edges _ _ cycle.1, Relation.TransGen.mono edges _ _ cycle.2⟩

theorem Rooted.of_mem (rooted : graph.Rooted root) {node : Nat} (member : node ∈ graph.nodes) :
    graph.Rooted node := ⟨member, rooted.target⟩

theorem Rooted.mem_of_onCycle (rooted : graph.Rooted root) {first second : Nat}
    (cycle : graph.OnCycle first second) : first ∈ graph.nodes := by
  obtain ⟨_, _, along⟩ := Relation.TransGen.tail'_iff.mp cycle.2
  exact rooted.target _ _ along

theorem Rooted.mem_reachable (rooted : graph.Rooted root) {node : Nat} :
    node ∈ graph.reachable root ↔ Reached graph.Edge root node :=
  Graph.mem_visit.trans (reach_iff_reached rooted)

theorem Rooted.mem_component (rooted : graph.Rooted root) {node : Nat} :
    node ∈ graph.component root ↔
      Reached graph.Edge root node ∧ Reached graph.Edge node root := by
  simp only [component, List.mem_filter, List.contains_eq_mem, decide_eq_true_eq,
    rooted.mem_reachable]
  refine and_congr_right fun reached => ?_
  have member := (Graph.mem_visit.mp (rooted.mem_reachable.mpr reached)).mem_domain
  exact (rooted.of_mem member).mem_reachable

def classOf (graph : Digraph) (node : Nat) : List Nat :=
  graph.nodes.filter (graph.component node).contains

theorem Rooted.mem_classOf (rooted : graph.Rooted root) {node : Nat} :
    node ∈ graph.classOf root ↔ Reached graph.Edge root node ∧ Reached graph.Edge node root := by
  rw [classOf, List.mem_filter, List.contains_eq_mem, decide_eq_true_eq, rooted.mem_component]
  refine and_iff_right_of_imp fun both => ?_
  exact (Graph.mem_visit.mp (rooted.mem_reachable.mpr both.1)).mem_domain

theorem mem_cyclicComponents {component : List Nat} :
    component ∈ graph.cyclicComponents ↔
      (∃ node ∈ graph.nodes, graph.classOf node = component) ∧
        (1 < component.length ∨ ∃ node ∈ component, graph.Edge node node) := by
  simp [cyclicComponents, classOf, hasEdge, Edge]

theorem Rooted.classOf_cyclic (rooted : graph.Rooted root) (unique : graph.nodes.Nodup) :
    graph.classOf root ∈ graph.cyclicComponents ↔ graph.OnCycle root root := by
  have inside : root ∈ graph.classOf root := rooted.mem_classOf.mpr ⟨.refl, .refl⟩
  have distinct : (graph.classOf root).Nodup := unique.filter _
  rw [mem_cyclicComponents, and_iff_right ⟨root, rooted.root, rfl⟩, OnCycle, and_self,
    one_lt_length_iff distinct inside]
  constructor
  · rintro (⟨other, member, different⟩ | ⟨other, member, loop⟩)
    · obtain ⟨forth, back⟩ := rooted.mem_classOf.mp member
      rcases Relation.reflTransGen_iff_eq_or_transGen.mp forth with same | walk
      · exact absurd same different
      · exact walk.trans_left back
    · obtain ⟨forth, back⟩ := rooted.mem_classOf.mp member
      exact (Relation.TransGen.tail' forth loop).trans_left back
  · intro walk
    -- The first step of the closed walk is a loop or leads to another node of the class.
    obtain ⟨next, along, rest⟩ := Relation.TransGen.head'_iff.mp walk
    by_cases same : next = root
    · exact .inr ⟨root, inside, same ▸ along⟩
    · exact .inl ⟨next, rooted.mem_classOf.mpr ⟨.single along, rest⟩, same⟩

/-- A component holds what is on a cycle with one of its nodes. -/
theorem Rooted.mem_cyclic_iff (rooted : graph.Rooted root) (unique : graph.nodes.Nodup)
    {component : List Nat} (cyclic : component ∈ graph.cyclicComponents) {first second : Nat}
    (member : first ∈ component) : second ∈ component ↔ graph.OnCycle first second := by
  obtain ⟨⟨node, known, rfl⟩, _⟩ := mem_cyclicComponents.mp cyclic
  have here := rooted.of_mem known
  obtain ⟨around, _⟩ := (here.classOf_cyclic unique).mp cyclic
  obtain ⟨toFirst, fromFirst⟩ := here.mem_classOf.mp member
  rw [here.mem_classOf]
  constructor
  · rintro ⟨toSecond, fromSecond⟩
    exact ⟨(Relation.TransGen.trans_right fromFirst around).trans_left toSecond,
      (Relation.TransGen.trans_right fromSecond around).trans_left toFirst⟩
  · rintro ⟨forth, back⟩
    exact ⟨toFirst.trans forth.to_reflTransGen, back.to_reflTransGen.trans fromFirst⟩

theorem Rooted.exists_cyclic (rooted : graph.Rooted root) (unique : graph.nodes.Nodup) {node : Nat}
    (cycle : graph.OnCycle node node) : ∃ component ∈ graph.cyclicComponents, node ∈ component := by
  have here := rooted.of_mem (rooted.mem_of_onCycle cycle)
  exact ⟨graph.classOf node, (here.classOf_cyclic unique).mpr cycle,
    here.mem_classOf.mpr ⟨.refl, .refl⟩⟩

theorem Rooted.cyclicComponents_eq_nil (rooted : graph.Rooted root) (unique : graph.nodes.Nodup) :
    graph.cyclicComponents = [] ↔ ∀ node, ¬ graph.OnCycle node node := by
  rw [List.eq_nil_iff_forall_not_mem]
  constructor
  · intro none node cycle
    obtain ⟨component, cyclic, _⟩ := rooted.exists_cyclic unique cycle
    exact none component cyclic
  · intro none component cyclic
    obtain ⟨⟨node, known, rfl⟩, _⟩ := mem_cyclicComponents.mp cyclic
    exact none node (((rooted.of_mem known).classOf_cyclic unique).mp cyclic)

/-! ## Explored graphs -/

section
variable {next more : Nat → List Nat} {domain roots : List Nat}
  (follows : ∀ node target, target ∈ next node → target ∈ more node)
include follows

theorem nodes_explore_mono {node : Nat} (visited : node ∈ (explore next domain roots).nodes) :
    node ∈ (explore more domain roots).nodes := by
  have reach := Graph.mem_visit.mp visited
  refine Graph.mem_visit.mpr ?_
  clear visited
  induction reach with
  | source inside start => exact .source inside start
  | step _ inside child ih => exact .step ih inside (follows _ _ child)

theorem edge_explore_mono (source target : Nat)
    (along : (explore next domain roots).Edge source target) :
    (explore more domain roots).Edge source target := by
  obtain ⟨visited, child⟩ := mem_edges_explore.mp along
  exact mem_edges_explore.mpr ⟨nodes_explore_mono follows visited, follows _ _ child⟩

end

section
variable {next : Nat → List Nat} {domain : List Nat} (inside : root ∈ domain)
  (closed : ∀ node ∈ domain, ∀ target ∈ next node, target ∈ domain)
include inside closed

theorem explore_rooted : (explore next domain [root]).Rooted root where
  root := Graph.mem_visit.mpr (.source inside List.mem_cons_self)
  target _ _ along := by
    obtain ⟨visited, follows⟩ := mem_edges_explore.mp along
    have reach := Graph.mem_visit.mp visited
    exact Graph.mem_visit.mpr (.step reach (closed _ reach.mem_domain _ follows) follows)

theorem mem_nodes_explore {node : Nat} :
    node ∈ (explore next domain [root]).nodes ↔
      Reached (explore next domain [root]).Edge root node := by
  constructor
  · intro member
    have reach := Graph.mem_visit.mp member
    induction reach with
    | source _ start => exact List.mem_singleton.mp start ▸ .refl
    | @step _ parent before _ follows ih =>
        have visited : parent ∈ (explore next domain [root]).nodes := Graph.mem_visit.mpr before
        exact (ih visited).tail (mem_edges_explore.mpr ⟨visited, follows⟩)
  · intro reached
    have rooted := explore_rooted inside closed
    exact (Graph.mem_visit.mp (rooted.mem_reachable.mpr reached)).mem_domain

end
end Digraph
end SeqSlice
