import SeqSlice.Proofs.Graph.Dominance

/-! Immediate dominators: of the nodes that dominate a node, the lowest other than the
node itself. Going up in a table of them passes exactly the nodes that dominate a node,
lower ones first. The chains of the search are what is passed, and so their second
members are such a table. -/

set_option autoImplicit false
namespace SeqSlice

section
variable {α : Type} (edge : α → α → Prop) (root : α)

/-- The nodes that dominate a node, each before those that dominate it. -/
structure DominatorChain (node : α) (chain : List α) : Prop where
  mem_iff : ∀ upper, upper ∈ chain ↔ Dominates edge root upper node
  ascends : chain.Pairwise fun lower upper => Dominates edge root upper lower
  unique : chain.Nodup

/-- A table with the immediate dominator of each node that is reached, apart from the root. -/
structure Immediate (above : α → Option α) : Prop where
  top : above root = none
  next : ∀ node, Reached edge root node → node ≠ root →
    ∃ upper, above node = some upper ∧ upper ≠ node ∧ Dominates edge root upper node ∧
      ∀ other, Dominates edge root other node → other ≠ node → Dominates edge root other upper

inductive Climbs (above : α → Option α) : α → List α → Prop where
  | top {node : α} : above node = none → Climbs above node [node]
  | up {node upper : α} {rest : List α} : above node = some upper → Climbs above upper rest →
      Climbs above node (node :: rest)

/-- The chains are what is passed when going up, in whatever table of immediate
dominators, and their second members are such a table. -/
structure Climbed (chains : α → List α) : Prop where
  immediate : Immediate edge root fun node => (chains node)[1]?
  climbs : ∀ above, Immediate edge root above → ∀ node, Reached edge root node →
    Climbs above node (chains node)

variable {edge root} {above : α → Option α} {node first : α} {chain rest : List α}

theorem Immediate.dominates_next (table : Immediate edge root above)
    (reached : Reached edge root node) (different : node ≠ root) :
    ∃ upper, above node = some upper ∧ Reached edge root upper ∧
      ∀ other, Dominates edge root other upper ↔ Dominates edge root other node ∧ other ≠ node := by
  obtain ⟨upper, found, proper, dominates, lowest⟩ := table.next node reached different
  refine ⟨upper, found, dominates.reached_upper, fun other =>
    ⟨fun higher => ⟨higher.trans dominates, ?_⟩, ?_⟩⟩
  · rintro rfl
    exact proper (dominates.antisymm higher)
  · rintro ⟨higher, apart⟩
    exact lowest other higher apart

theorem Climbs.unique {passed others : List α} (one : Climbs above node passed)
    (other : Climbs above node others) : passed = others := by
  induction one generalizing others with
  | top ends =>
      cases other with
      | top _ => rfl
      | up found _ => cases ends.symm.trans found
  | up found _ ih =>
      cases other with
      | top ends => cases ends.symm.trans found
      | up foundToo rest =>
          obtain rfl := Option.some.inj (found.symm.trans foundToo)
          rw [ih rest]

theorem Climbs.mem_iff {passed : List α} (climbs : Climbs above node passed) {other : α} :
    other ∈ passed ↔
      Relation.ReflTransGen (fun lower upper => above lower = some upper) node other := by
  induction climbs with
  | top ends =>
      rw [Relation.ReflTransGen.cases_head_iff]
      simp [ends, eq_comm]
  | up found _ ih =>
      rw [Relation.ReflTransGen.cases_head_iff]
      simp only [List.mem_cons, ih, found, Option.some.injEq, exists_eq_left', eq_comm]

namespace DominatorChain

theorem eq_cons (ordered : DominatorChain edge root node chain) (reached : Reached edge root node) :
    ∃ rest, chain = node :: rest := by
  have member := (ordered.mem_iff node).mpr (.refl reached)
  cases chain with
  | nil => cases member
  | cons first rest =>
      rcases List.mem_cons.mp member with rfl | later
      · exact ⟨rest, rfl⟩
      · -- The node would dominate the first one, which dominates it.
        have above := (List.pairwise_cons.mp ordered.ascends).1 node later
        have below := (ordered.mem_iff first).mp List.mem_cons_self
        exact ⟨rest, congrArg (· :: rest) (below.antisymm above)⟩

theorem mem_rest (ordered : DominatorChain edge root node (node :: rest)) (upper : α) :
    upper ∈ rest ↔ Dominates edge root upper node ∧ upper ≠ node := by
  have absent := (List.nodup_cons.mp ordered.unique).1
  rw [← ordered.mem_iff, List.mem_cons]
  constructor
  · exact fun member => ⟨.inr member, ne_of_mem_of_not_mem member absent⟩
  · exact fun ⟨either, different⟩ => either.resolve_left different

theorem rest_eq_nil (ordered : DominatorChain edge root root (root :: rest)) : rest = [] := by
  refine List.eq_nil_iff_forall_not_mem.mpr fun upper member => ?_
  obtain ⟨dominates, different⟩ := (ordered.mem_rest upper).mp member
  exact different (dominates.antisymm (root_dominates dominates.reached_upper))

theorem climbs_of_immediate (table : Immediate edge root above) (ordered : DominatorChain edge root node chain)
    (reached : Reached edge root node) : Climbs above node chain := by
  induction chain generalizing node with
  | nil => cases (ordered.mem_iff node).mpr (.refl reached)
  | cons first rest ih =>
      obtain ⟨others, same⟩ := ordered.eq_cons reached
      obtain rfl := (List.cons.inj same).1
      by_cases atRoot : first = root
      · subst atRoot
        rw [ordered.rest_eq_nil]
        exact .top table.top
      · obtain ⟨upper, found, known, lower⟩ := table.dominates_next reached atRoot
        have higher : DominatorChain edge root upper rest := by
          refine ⟨fun other => ?_, (List.pairwise_cons.mp ordered.ascends).2,
            (List.nodup_cons.mp ordered.unique).2⟩
          rw [ordered.mem_rest, lower]
        exact .up found (ih higher known)

theorem immediate_second {chains : α → List α}
    (ordered : ∀ node, Reached edge root node → DominatorChain edge root node (chains node)) :
    Immediate edge root fun node => (chains node)[1]? where
  top := by
    obtain ⟨rest, same⟩ := (ordered root .refl).eq_cons .refl
    have alone := (same ▸ ordered root .refl).rest_eq_nil
    simp [same, alone]
  next node reached different := by
    obtain ⟨rest, same⟩ := (ordered node reached).eq_cons reached
    have here : DominatorChain edge root node (node :: rest) := same ▸ ordered node reached
    have above := (here.mem_rest root).mpr ⟨root_dominates reached, different.symm⟩
    cases rest with
    | nil => cases above
    | cons upper others =>
        obtain ⟨dominates, proper⟩ := (here.mem_rest upper).mp List.mem_cons_self
        refine ⟨upper, by simp [same], proper, dominates, fun other higher apart => ?_⟩
        rcases List.mem_cons.mp ((here.mem_rest other).mpr ⟨higher, apart⟩) with rfl | later
        · exact .refl dominates.reached_upper
        · have sorted := (List.pairwise_cons.mp here.ascends).2
          exact (List.pairwise_cons.mp sorted).1 other later

end DominatorChain
end

/-! ## The chains of the search -/

namespace Dominance

variable {next : Nat → List Nat} {domain : List Nat} {root : Nat}

/-- What the search visits later does not dominate what it visits earlier. -/
theorem pairwise_visit (unique : domain.Nodup) :
    (Graph.visit .queue next domain [root]).Pairwise fun earlier later =>
      ¬ Dominates (fun source target => target ∈ next source) root later earlier := by
  refine List.pairwise_iff_forall_sublist.mpr fun {earlier later} inOrder dominates => ?_
  obtain ⟨front, back, order, inFront, inBack⟩ := List.cons_sublist_iff.mp inOrder
  obtain ⟨before, between, rfl⟩ := List.append_of_mem inFront
  rw [List.append_assoc, List.cons_append] at order
  have distinct : (before ++ earlier :: (between ++ back)).Nodup := order ▸ Graph.nodup_visit unique
  have absent : later ∉ before ++ [earlier] := by
    have behind : later ∈ between ++ back :=
      List.mem_append_right _ (List.singleton_sublist.mp inBack)
    rw [List.append_cons] at distinct
    exact fun member => (List.nodup_append.mp distinct).2.2 later member later behind rfl
  exact dominates.2 (avoids_of_reach absent (Graph.reach_of_visit_eq order))

theorem Spans.chain_ordered (spans : Spans next domain root) (unique : domain.Nodup) {node : Nat}
    (reached : Reached (fun source target => target ∈ next source) root node) :
    DominatorChain (fun source target => target ∈ next source) root node
      ((compute next domain root).chain node) := by
  have member (upper : Nat) : upper ∈ (compute next domain root).chain node ↔
      Dominates (fun source target => target ∈ next source) root upper node := by
    rw [← spans.dominates_iff unique, dominates, List.contains_iff_mem]
  refine ⟨member, ?_, ?_⟩
  · -- Of two members one dominates the other, and it is the one that is visited first.
    have apart : ((compute next domain root).chain node).Pairwise fun lower upper =>
        ¬ Dominates (fun source target => target ∈ next source) root lower upper := by
      rw [chain_compute (spans.reach_iff_reached.mpr reached), List.pairwise_reverse]
      exact (pairwise_visit unique).filter _
    refine apart.imp_of_mem fun {lower upper} first second never => ?_
    exact (((member upper).mp second).total ((member lower).mp first)).resolve_right never
  · rw [chain_compute (spans.reach_iff_reached.mpr reached)]
    exact (List.reverse_perm _).nodup_iff.mpr ((Graph.nodup_visit unique).filter _)

theorem Spans.climbed (spans : Spans next domain root) (unique : domain.Nodup) :
    Climbed (fun source target => target ∈ next source) root (compute next domain root).chain :=
  ⟨DominatorChain.immediate_second fun _ => spans.chain_ordered unique,
    fun _ table _ reached => (spans.chain_ordered unique reached).climbs_of_immediate table reached⟩

end Dominance
end SeqSlice
