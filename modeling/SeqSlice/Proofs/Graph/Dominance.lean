import Mathlib.Logic.Relation
import Mathlib.Tactic.ByContra
import SeqSlice.Graph.Dominance

/-! Dominance by paths: a node dominates another if no path from the root avoids
it. It is an order that is linear above each node, and every node is reached
without edges that lead back to a node that dominates their source. The table of
the search is shown to hold this relation. -/

set_option autoImplicit false
namespace SeqSlice

section
variable {α : Type} (edge : α → α → Prop) (root : α)

/-- A path from the root to a node that does not pass `avoided`. -/
inductive Avoids (avoided : α) : α → Prop where
  | root : root ≠ avoided → Avoids avoided root
  | step {source target : α} : Avoids avoided source → edge source target → target ≠ avoided →
      Avoids avoided target

def Reached (node : α) : Prop := Relation.ReflTransGen edge root node

def Dominates (upper lower : α) : Prop := Reached edge root lower ∧ ¬ Avoids edge root upper lower

/-- An edge that does not lead back to a node that dominates its source. -/
def Forward (source target : α) : Prop := edge source target ∧ ¬ Dominates edge root target source

variable {edge root}

theorem Avoids.ne {avoided node : α} (path : Avoids edge root avoided node) : node ≠ avoided := by
  cases path with
  | root different => exact different
  | step _ _ different => exact different

theorem Avoids.reached {avoided node : α} (path : Avoids edge root avoided node) :
    Reached edge root node := by
  induction path with
  | root _ => exact .refl
  | step _ along _ ih => exact ih.tail along

theorem Avoids.avoids_or {avoided other node : α} (path : Avoids edge root avoided node) :
    Avoids edge root other node ∨ Avoids edge root avoided other := by
  induction path with
  | root different =>
      by_cases same : root = other
      · exact .inr (same ▸ .root different)
      · exact .inl (.root same)
  | @step source target before along different ih =>
      rcases ih with left | right
      · by_cases same : target = other
        · exact .inr (same ▸ .step before along different)
        · exact .inl (.step left along same)
      · exact .inr right

theorem Dominates.reached_upper {upper lower : α} (dominates : Dominates edge root upper lower) :
    Reached edge root upper := by
  obtain ⟨reached, never⟩ := dominates
  have either : Avoids edge root upper lower ∨ Reached edge root upper := by
    clear never
    induction reached with
    | refl =>
        by_cases same : root = upper
        · exact .inr (same ▸ .refl)
        · exact .inl (.root same)
    | @tail source target before along ih =>
        rcases ih with left | right
        · by_cases same : target = upper
          · exact .inr (same ▸ before.tail along)
          · exact .inl (.step left along same)
        · exact .inr right
  exact either.resolve_left never

theorem Dominates.refl {node : α} (reached : Reached edge root node) :
    Dominates edge root node node :=
  ⟨reached, fun path => path.ne rfl⟩

theorem root_dominates {node : α} (reached : Reached edge root node) :
    Dominates edge root root node := by
  refine ⟨reached, fun path => ?_⟩
  clear reached
  induction path with
  | root different => exact different rfl
  | step _ _ _ ih => exact ih

theorem Dominates.trans {upper middle lower : α} (first : Dominates edge root upper middle)
    (second : Dominates edge root middle lower) : Dominates edge root upper lower := by
  refine ⟨second.1, fun path => ?_⟩
  rcases path.avoids_or with around | before
  · exact second.2 around
  · exact first.2 before

private theorem avoids_both_or {first second node : α} (different : first ≠ second)
    (reached : Reached edge root node) :
    (Avoids edge root first node ∧ Avoids edge root second node) ∨
      Avoids edge root second first ∨ Avoids edge root first second := by
  induction reached with
  | refl =>
      by_cases isFirst : root = first
      · subst isFirst
        exact .inr (.inl (.root different))
      · by_cases isSecond : root = second
        · subst isSecond
          exact .inr (.inr (.root isFirst))
        · exact .inl ⟨.root isFirst, .root isSecond⟩
  | @tail source target _ along ih =>
      rcases ih with ⟨avoidsFirst, avoidsSecond⟩ | done
      · -- The first of the two that the path meets is reached without the other.
        by_cases isFirst : target = first
        · subst isFirst
          exact .inr (.inl (.step avoidsSecond along different))
        · by_cases isSecond : target = second
          · subst isSecond
            exact .inr (.inr (.step avoidsFirst along isFirst))
          · exact .inl ⟨.step avoidsFirst along isFirst, .step avoidsSecond along isSecond⟩
      · exact .inr done

theorem Dominates.antisymm {first second : α} (above : Dominates edge root first second)
    (below : Dominates edge root second first) : first = second := by
  by_contra different
  -- The one that a path meets first is reached without the other.
  rcases avoids_both_or different below.1 with ⟨none, _⟩ | path | path
  · exact none.ne rfl
  · exact below.2 path
  · exact above.2 path

/-- If each of two nodes is reached without the other, then every node is reached
without one of them: the later of the two on a path replaces what is before it. -/
private theorem avoids_one {first second node : α} (toSecond : Avoids edge root first second)
    (toFirst : Avoids edge root second first) (reached : Reached edge root node) :
    Avoids edge root first node ∨ Avoids edge root second node := by
  induction reached with
  | refl =>
      by_cases same : root = first
      · exact .inr (same ▸ toFirst)
      · exact .inl (.root same)
  | @tail source target _ along ih =>
      by_cases isFirst : target = first
      · exact .inr (isFirst ▸ toFirst)
      · by_cases isSecond : target = second
        · exact .inl (isSecond ▸ toSecond)
        · exact ih.imp (.step · along isFirst) (.step · along isSecond)

theorem Dominates.total {first second node : α} (one : Dominates edge root first node)
    (other : Dominates edge root second node) :
    Dominates edge root first second ∨ Dominates edge root second first := by
  by_contra neither
  rw [not_or] at neither
  have toSecond : Avoids edge root first second := by
    by_contra never
    exact neither.1 ⟨other.reached_upper, never⟩
  have toFirst : Avoids edge root second first := by
    by_contra never
    exact neither.2 ⟨one.reached_upper, never⟩
  rcases avoids_one toSecond toFirst one.1 with path | path
  · exact one.2 path
  · exact other.2 path

private theorem forward_splits (middle : α) {target : α}
    (walk : Relation.ReflTransGen (Forward edge root) root target) :
    Avoids edge root middle target ∨
      (Relation.ReflTransGen (Forward edge root) root middle ∧
        Relation.ReflTransGen (Forward edge root) middle target) := by
  induction walk with
  | refl =>
      by_cases same : root = middle
      · exact .inr (same ▸ ⟨.refl, .refl⟩)
      · exact .inl (.root same)
  | @tail before after walk along ih =>
      rcases ih with around | ⟨first, second⟩
      · by_cases same : after = middle
        · exact .inr (same ▸ ⟨walk.tail along, .refl⟩)
        · exact .inl (.step around along.1 same)
      · exact .inr ⟨first, second.tail along⟩

theorem reached_forward {node : α} (reached : Reached edge root node) :
    Relation.ReflTransGen (Forward edge root) root node := by
  induction reached with
  | refl => exact .refl
  | @tail source target before along ih =>
      by_cases back : Dominates edge root target source
      · -- The target was passed on the way to the source.
        exact ((forward_splits target ih).resolve_left back.2).1
      · exact ih.tail ⟨along, back⟩

theorem Dominates.forward {upper lower : α} (dominates : Dominates edge root upper lower) :
    Relation.ReflTransGen (Forward edge root) upper lower :=
  ((forward_splits upper (reached_forward dominates.1)).resolve_left dominates.2).2

end

/-! ## The table -/

namespace Dominance

theorem lookup_map_self {β : Type} (value : Nat → β) (nodes : List Nat) (node : Nat) :
    (nodes.map fun node => (node, value node)).lookup node =
      if node ∈ nodes then some (value node) else none := by
  induction nodes with
  | nil => rfl
  | cons first rest ih =>
      rw [List.map_cons, List.lookup_cons, ih]
      by_cases same : node = first
      · simp [same]
      · have differ : (node == first) = false := by simpa using same
        simp [same, differ]

/-- The chain of a node that is reached: what the search without it does not come by. -/
theorem chain_compute {next : Nat → List Nat} {domain : List Nat} {root node : Nat}
    (reached : Graph.Reach next domain [root] node) :
    (compute next domain root).chain node =
      ((Graph.visit .queue next domain [root]).filter fun upper =>
        !(Graph.visit .queue next ((Graph.visit .queue next domain [root]).erase upper)
          [root]).contains node).reverse := by
  unfold chain compute
  rw [lookup_map_self, if_pos (Graph.mem_visit.mpr reached), Option.getD_some, List.filter_map,
    List.map_map]
  exact congrArg List.reverse (List.map_id _)

theorem chain_compute_of_not_reached {next : Nat → List Nat} {domain : List Nat} {root node : Nat}
    (never : ¬ Graph.Reach next domain [root] node) :
    (compute next domain root).chain node = [] := by
  unfold chain compute
  rw [lookup_map_self, if_neg (Graph.mem_visit.not.mpr never), Option.getD_none]

theorem dominates_compute {next : Nat → List Nat} {domain : List Nat} {root upper lower : Nat} :
    (compute next domain root).dominates upper lower = true ↔
      Graph.Reach next domain [root] upper ∧ Graph.Reach next domain [root] lower ∧
        ¬ Graph.Reach next ((Graph.visit .queue next domain [root]).erase upper) [root] lower := by
  rw [dominates, List.contains_iff_mem]
  by_cases reached : Graph.Reach next domain [root] lower
  · simp [chain_compute reached, reached, Graph.mem_visit]
  · simp [chain_compute_of_not_reached reached, reached]

structure Spans (next : Nat → List Nat) (domain : List Nat) (root : Nat) : Prop where
  root : root ∈ domain
  target : ∀ source target, target ∈ next source → target ∈ domain

variable {next : Nat → List Nat} {domain : List Nat} {root : Nat}

theorem Spans.reach_iff_reached (spans : Spans next domain root) {node : Nat} :
    Graph.Reach next domain [root] node ↔
      Reached (fun source target => target ∈ next source) root node := by
  constructor
  · intro reach
    induction reach with
    | source _ member =>
        rw [List.mem_singleton.mp member]
        exact .refl
    | step _ _ child ih => exact ih.tail child
  · intro reached
    induction reached with
    | refl => exact .source spans.root List.mem_cons_self
    | tail _ along ih => exact .step ih (spans.target _ _ along) along

theorem reach_erase_of_avoids {order : List Nat} {avoided node : Nat}
    (all : ∀ node, Reached (fun source target => target ∈ next source) root node → node ∈ order)
    (path : Avoids (fun source target => target ∈ next source) root avoided node) :
    Graph.Reach next (order.erase avoided) [root] node := by
  induction path with
  | root different =>
      exact .source ((List.mem_erase_of_ne different).mpr (all _ .refl)) List.mem_cons_self
  | step before along different ih =>
      exact .step ih ((List.mem_erase_of_ne different).mpr (all _ (before.reached.tail along))) along

theorem avoids_of_reach {order : List Nat} {avoided node : Nat} (absent : avoided ∉ order)
    (reach : Graph.Reach next order [root] node) :
    Avoids (fun source target => target ∈ next source) root avoided node := by
  induction reach with
  | source inside member =>
      rw [List.mem_singleton.mp member] at inside ⊢
      exact .root (ne_of_mem_of_not_mem inside absent)
  | step _ inside child ih => exact .step ih child (ne_of_mem_of_not_mem inside absent)

theorem Spans.dominates_of_compute (spans : Spans next domain root) {upper lower : Nat}
    (listed : (compute next domain root).dominates upper lower = true) :
    Dominates (fun source target => target ∈ next source) root upper lower := by
  obtain ⟨_, reached, never⟩ := dominates_compute.mp listed
  refine ⟨spans.reach_iff_reached.mp reached, fun path => never (reach_erase_of_avoids ?_ path)⟩
  exact fun node found => Graph.mem_visit.mpr (spans.reach_iff_reached.mpr found)

theorem Spans.dominates_iff (spans : Spans next domain root) (unique : domain.Nodup)
    {upper lower : Nat} :
    (compute next domain root).dominates upper lower = true ↔
      Dominates (fun source target => target ∈ next source) root upper lower := by
  refine ⟨spans.dominates_of_compute, fun dominates => dominates_compute.mpr ?_⟩
  refine ⟨spans.reach_iff_reached.mpr dominates.reached_upper,
    spans.reach_iff_reached.mpr dominates.1, fun reach => ?_⟩
  exact dominates.2 (avoids_of_reach (Graph.nodup_visit unique).not_mem_erase reach)

end Dominance

namespace Digraph

variable {graph : Digraph} {root : Nat}

structure Rooted (graph : Digraph) (root : Nat) : Prop where
  root : root ∈ graph.nodes
  target : ∀ source target, (source, target) ∈ graph.edges → target ∈ graph.nodes

def Edge (graph : Digraph) (source target : Nat) : Prop := (source, target) ∈ graph.edges

theorem mem_edges_explore {next : Nat → List Nat} {domain roots : List Nat} {source target : Nat} :
    (source, target) ∈ (explore next domain roots).edges ↔
      source ∈ (explore next domain roots).nodes ∧ target ∈ next source := by
  simp only [explore, List.mem_eraseDups, List.mem_flatMap, List.mem_map, Prod.mk.injEq]
  constructor
  · rintro ⟨_, visited, _, follows, rfl, rfl⟩
    exact ⟨visited, follows⟩
  · rintro ⟨visited, follows⟩
    exact ⟨source, visited, target, follows, rfl, rfl⟩

theorem mem_succs_eq_edge : (fun source target => target ∈ graph.succs source) = graph.Edge := by
  funext source target
  exact propext graph.mem_succs

theorem Rooted.spans (rooted : graph.Rooted root) : Dominance.Spans graph.succs graph.nodes root :=
  ⟨rooted.root, fun source target follows => rooted.target source target (graph.mem_succs.mp follows)⟩

theorem reach_iff_reached (rooted : graph.Rooted root) {node : Nat} :
    Graph.Reach graph.succs graph.nodes [root] node ↔ Reached graph.Edge root node := by
  rw [rooted.spans.reach_iff_reached, mem_succs_eq_edge]

theorem dominates_iff (rooted : graph.Rooted root) (unique : graph.nodes.Nodup)
    {upper lower : Nat} :
    (graph.dominance root).dominates upper lower = true ↔
      Dominates graph.Edge root upper lower := by
  rw [dominance, rooted.spans.dominates_iff unique, mem_succs_eq_edge]

end Digraph
end SeqSlice
