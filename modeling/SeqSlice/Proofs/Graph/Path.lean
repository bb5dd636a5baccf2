import SeqSlice.Proofs.Graph.Dominance

/-! Paths with the nodes on them, in both directions. A node dominates another if it
lies on every path to it from the root. -/

set_option autoImplicit false
namespace SeqSlice

variable {α : Type} {edge : α → α → Prop}

inductive Path (edge : α → α → Prop) : α → List α → α → Prop where
  | single (node : α) : Path edge node [node] node
  | cons {source next target : α} {nodes : List α} : edge source next →
      Path edge next nodes target → Path edge source (source :: nodes) target

namespace Path

variable {source target : α} {nodes : List α}

theorem source_mem (path : Path edge source nodes target) : source ∈ nodes := by
  cases path with
  | single => exact List.mem_singleton_self _
  | cons _ _ => exact List.mem_cons_self

theorem target_mem (path : Path edge source nodes target) : target ∈ nodes := by
  induction path with
  | single => exact List.mem_singleton_self _
  | cons _ _ ih => exact List.mem_cons_of_mem _ ih

theorem reached (path : Path edge source nodes target) : Reached edge source target := by
  induction path with
  | single => exact .refl
  | cons along _ ih => exact .head along ih

theorem concat (path : Path edge source nodes target) {next : α} (along : edge target next) :
    Path edge source (nodes ++ [next]) next := by
  induction path with
  | single node => exact .cons along (.single next)
  | cons step _ ih => exact .cons step (ih along)

theorem append {middle next : α} {others : List α} (path : Path edge source nodes middle)
    (along : edge middle next) (rest : Path edge next others target) :
    Path edge source (nodes ++ others) target := by
  induction path with
  | single node => exact .cons along rest
  | cons step _ ih => exact .cons step (ih along)

theorem exists_of_reached (reached : Reached edge source target) :
    ∃ nodes, Path edge source nodes target := by
  induction reached with
  | refl => exact ⟨_, .single source⟩
  | tail _ along ih =>
      obtain ⟨nodes, path⟩ := ih
      exact ⟨_, path.concat along⟩

theorem reverse (path : Path edge source nodes target) :
    Path (Function.swap edge) target nodes.reverse source := by
  induction path with
  | single node => exact .single node
  | cons along _ ih =>
      rw [List.reverse_cons]
      exact ih.concat along

end Path

variable {root avoided node : α}

theorem avoids_iff_path : Avoids edge root avoided node ↔
    ∃ nodes, Path edge root nodes node ∧ avoided ∉ nodes := by
  constructor
  · intro avoids
    induction avoids with
    | root different => exact ⟨_, .single root, by simpa using different.symm⟩
    | step _ along different ih =>
        obtain ⟨nodes, path, absent⟩ := ih
        refine ⟨_, path.concat along, ?_⟩
        simpa using ⟨absent, different.symm⟩
  · rintro ⟨nodes, path, absent⟩
    -- What is behind the first node is appended to a path that leads there.
    have extend {first last : α} {nodes : List α} (path : Path edge first nodes last)
        (absent : avoided ∉ nodes) (before : Avoids edge root avoided first) :
        Avoids edge root avoided last := by
      induction path with
      | single => exact before
      | cons along rest ih =>
          rw [List.mem_cons, not_or] at absent
          exact ih absent.2 (.step before along fun same => absent.2 (same ▸ rest.source_mem))
    exact extend path absent (.root fun same => absent (same ▸ path.source_mem))

theorem dominates_iff_paths {upper lower : α} : Dominates edge root upper lower ↔
    Reached edge root lower ∧ ∀ nodes, Path edge root nodes lower → upper ∈ nodes := by
  rw [Dominates, avoids_iff_path]
  simp only [not_exists, not_and, Classical.not_not]

end SeqSlice
