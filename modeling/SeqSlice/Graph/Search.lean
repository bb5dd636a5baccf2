/-! Graph search over a finite domain, in breadth-first or depth-first order.
Main statement: what a search visits is exactly what the relation `Reach`
reaches inside the domain, whatever the order. -/

set_option autoImplicit false
namespace SeqSlice.Graph

variable {α : Type}

/-- What happens to the nodes found next: they wait behind all others, or they
go before them, the last one first. -/
inductive Discipline where
  | queue
  | stack
  deriving DecidableEq, Repr

def Discipline.add (discipline : Discipline) (found pending : List α) : List α :=
  match discipline with
  | .queue => pending ++ found
  | .stack => found.reverse ++ pending

theorem Discipline.mem_add {discipline : Discipline} {found pending : List α} {value : α} :
    value ∈ discipline.add found pending ↔ value ∈ found ∨ value ∈ pending := by
  cases discipline <;> simp [add, or_comm]

/-- The nodes in the order of their visit. A visited node leaves `remaining`,
so each node is visited once and nodes outside the domain never. -/
def visit [DecidableEq α] (discipline : Discipline) (next : α → List α) (remaining pending : List α) : List α :=
  match pending with
  | [] => []
  | first :: rest =>
      if first ∈ remaining then
        first :: visit discipline next (remaining.erase first) (discipline.add (next first) rest)
      else visit discipline next remaining rest
termination_by (remaining.length, pending.length)
decreasing_by
  · next member =>
      apply Prod.Lex.left
      rw [List.length_erase_of_mem member]
      exact Nat.sub_lt (List.length_pos_of_mem member) Nat.one_pos
  · apply Prod.Lex.right
    simp

/-- Reached from a source by steps that stay in the domain. -/
inductive Reach (next : α → List α) (domain sources : List α) : α → Prop where
  | source {value : α} : value ∈ domain → value ∈ sources → Reach next domain sources value
  | step {value parent : α} : Reach next domain sources parent → value ∈ domain →
      value ∈ next parent → Reach next domain sources value

theorem Reach.mem_domain {next : α → List α} {domain sources : List α} {value : α}
    (reached : Reach next domain sources value) : value ∈ domain := by
  cases reached <;> assumption

theorem Reach.mono_sources {next : α → List α} {domain sources more : List α} {value : α}
    (subset : ∀ source ∈ sources, source ∈ domain → source ∈ more)
    (reached : Reach next domain sources value) : Reach next domain more value := by
  induction reached with
  | source inside member => exact .source inside (subset _ member inside)
  | step _ inside child ih => exact .step ih inside child

theorem Reach.source_or_follows {next : α → List α} {domain sources : List α} {value : α}
    (reached : Reach next domain sources value) :
    value ∈ sources ∨ ∃ parent, parent ≠ value ∧ Reach next domain sources parent ∧
      value ∈ next parent := by
  induction reached with
  | source _ member => exact .inl member
  | @step value parent before _ child ih =>
      by_cases same : parent = value
      · exact same ▸ ih
      · exact .inr ⟨parent, same, before, child⟩

private theorem reach_of_visited [DecidableEq α] {next : α → List α} {domain rest pending : List α} {first value : α}
    (inside : first ∈ domain)
    (covered : ∀ source ∈ pending, source ∈ next first ∨ source ∈ rest)
    (reached : Reach next (domain.erase first) pending value) :
    Reach next domain (first :: rest) value := by
  induction reached with
  | source member origin =>
      have member := List.mem_of_mem_erase member
      rcases covered _ origin with child | waiting
      · exact .step (.source inside List.mem_cons_self) member child
      · exact .source member (List.mem_cons_of_mem _ waiting)
  | step _ member child ih => exact .step ih (List.mem_of_mem_erase member) child

private theorem reach_without_visited [DecidableEq α] {next : α → List α} {domain rest pending : List α}
    {first value : α}
    (covered : ∀ source, source ∈ next first ∨ source ∈ rest → source ∈ pending)
    (reached : Reach next domain (first :: rest) value) (different : value ≠ first) :
    Reach next (domain.erase first) pending value := by
  induction reached with
  | source member origin =>
      have waiting := (List.mem_cons.mp origin).resolve_left different
      exact .source ((List.mem_erase_of_ne different).mpr member) (covered _ (.inr waiting))
  | @step value parent _ member child ih =>
      have member := (List.mem_erase_of_ne different).mpr member
      by_cases same : parent = first
      · exact .source member (covered _ (.inl (same ▸ child)))
      · exact .step (ih same) member child

theorem mem_visit [DecidableEq α] {discipline : Discipline} {next : α → List α}
    {remaining pending : List α} {value : α} :
    value ∈ visit discipline next remaining pending ↔ Reach next remaining pending value := by
  fun_induction visit discipline next remaining pending with
  | case1 remaining =>
      constructor
      · simp
      · intro reached
        induction reached with
        | source _ member => simp at member
        | step _ _ _ ih => simp at ih
  | case2 remaining first rest member ih =>
      rw [List.mem_cons, ih]
      constructor
      · rintro (rfl | reached)
        · exact .source member List.mem_cons_self
        · exact reach_of_visited member (fun _ waiting => Discipline.mem_add.mp waiting) reached
      · intro reached
        by_cases same : value = first
        · exact .inl same
        · exact .inr (reach_without_visited (fun _ waiting => Discipline.mem_add.mpr waiting)
            reached same)
  | case3 remaining first rest absent ih =>
      rw [ih]
      constructor
      · exact Reach.mono_sources fun _ waiting _ => List.mem_cons_of_mem _ waiting
      · refine Reach.mono_sources fun source waiting inside => ?_
        exact (List.mem_cons.mp waiting).resolve_left fun same => absent (same ▸ inside)

/-- The search comes to a node through nodes that it has visited before. -/
theorem reach_of_visit_eq [DecidableEq α] {discipline : Discipline} {next : α → List α}
    {remaining pending before after : List α} {value : α}
    (order : visit discipline next remaining pending = before ++ value :: after) :
    Reach next (before ++ [value]) pending value := by
  fun_induction visit discipline next remaining pending generalizing before with
  | case1 remaining => simp at order
  | case2 remaining first rest member ih =>
      cases before with
      | nil =>
          obtain ⟨rfl, _⟩ := List.cons.inj order
          exact .source List.mem_cons_self List.mem_cons_self
      | cons earlier others =>
          obtain ⟨rfl, later⟩ := List.cons.inj order
          have reached := ih later
          rw [← List.erase_cons_head first (others ++ [value])] at reached
          exact reach_of_visited List.mem_cons_self (fun _ waiting => Discipline.mem_add.mp waiting)
            reached
  | case3 remaining first rest absent ih =>
      exact (ih order).mono_sources fun _ waiting _ => List.mem_cons_of_mem _ waiting

theorem nodup_visit [DecidableEq α] {discipline : Discipline} {next : α → List α}
    {remaining pending : List α} (unique : remaining.Nodup) : (visit discipline next remaining pending).Nodup := by
  fun_induction visit discipline next remaining pending with
  | case1 remaining => exact List.nodup_nil
  | case2 remaining first rest member ih =>
      refine List.nodup_cons.mpr ⟨fun again => ?_, ih (unique.erase first)⟩
      exact unique.not_mem_erase (mem_visit.mp again).mem_domain
  | case3 remaining first rest absent ih => exact ih unique

end SeqSlice.Graph
