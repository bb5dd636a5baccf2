import SeqSlice.Proofs.Slice.Bound

/-! How matches of the backward pass grow. Calls of a criterion are put before a match
only if both together end a criterion, and the extension relation puts statements before
it that are new to it. So every match is the end of a criterion behind distinct
statements of the relation; there are finitely many of these, and the pass ends. -/

set_option autoImplicit false
namespace SeqSlice

namespace Extension

/-- Statements that are put before an ending, one by one: each may stand before what is
there by then, and is not in it yet. -/
inductive Prolongs (extension : Extension) (ending : List PointId) : List PointId → Prop where
  | nothing : Prolongs extension ending []
  | put {point head : PointId} {added : List PointId} : Prolongs extension ending added →
      (added ++ ending).head? = some head → point ∈ extension.before head →
      point ∉ added ++ ending → Prolongs extension ending (point :: added)

variable {extension : Extension} {ending added : List PointId}

def extras (extension : Extension) : List PointId := (extension.rows.flatMap (·.2)).eraseDups

theorem mem_extras {point key : PointId} (member : point ∈ extension.before key) :
    point ∈ extension.extras := by
  obtain ⟨row, listed, _, inRow⟩ := mem_before.mp member
  exact List.mem_eraseDups.mpr (List.mem_flatMap.mpr ⟨row, listed, inRow⟩)

namespace Prolongs

theorem subset (prolongs : extension.Prolongs ending added) :
    ∀ point ∈ added, point ∈ extension.extras := by
  induction prolongs with
  | nothing => simp
  | put _ _ stands _ ih => exact List.forall_mem_cons.mpr ⟨mem_extras stands, ih⟩

theorem nodup (prolongs : extension.Prolongs ending added) : added.Nodup := by
  induction prolongs with
  | nothing => exact List.nodup_nil
  | put _ _ _ new ih => exact List.nodup_cons.mpr ⟨fun old => new (List.mem_append_left _ old), ih⟩

theorem length_le (prolongs : extension.Prolongs ending added) :
    added.length ≤ extension.extras.length :=
  (List.subperm_of_subset prolongs.nodup prolongs.subset).length_le

theorem eq_nil_of_isEmpty (prolongs : extension.Prolongs ending added)
    (none : extension.isEmpty = true) : added = [] := by
  have rows : extension.rows = [] := by simpa [Extension.isEmpty] using none
  cases prolongs with
  | nothing => rfl
  | put _ _ stands _ => simp [mem_before, rows] at stands

end Prolongs

def listsUpTo (values : List PointId) : Nat → List (List PointId)
  | 0 => [[]]
  | size + 1 => listsUpTo values size ++
      (listsUpTo values size).flatMap fun rest => values.map (· :: rest)

theorem length_listsUpTo (values : List PointId) (size : Nat) :
    (listsUpTo values size).length = (values.length + 1) ^ size := by
  induction size with
  | zero => rfl
  | succ size ih =>
      rw [listsUpTo, List.length_append, List.length_flatMap, Nat.pow_succ, ← ih]
      simp [Nat.mul_add, Nat.add_comm]

theorem mem_listsUpTo {values list : List PointId} {size : Nat} (short : list.length ≤ size)
    (listed : ∀ value ∈ list, value ∈ values) : list ∈ listsUpTo values size := by
  induction size generalizing list with
  | zero => simp [listsUpTo, List.length_eq_zero_iff.mp (Nat.le_zero.mp short)]
  | succ size ih =>
      rw [listsUpTo, List.mem_append]
      cases list with
      | nil => exact .inl (ih (Nat.zero_le _) (by simp))
      | cons first rest =>
          obtain ⟨here, others⟩ := List.forall_mem_cons.mp listed
          have inside := ih (Nat.le_of_succ_le_succ short) others
          exact .inr (List.mem_flatMap.mpr ⟨rest, inside, List.mem_map.mpr ⟨first, here, rfl⟩⟩)

end Extension

namespace Criteria

/-- The match ends a criterion, apart from what was put before it. -/
structure Grown (criteria : Criteria) (fact : Fact) (added ending : List PointId) : Prop where
  made : fact = .seq (added ++ ending)
  some : ending ≠ []
  ends : ∃ criterion ∈ criteria.sequences, ending <:+ criterion.points
  prolongs : criteria.extension.Prolongs ending added

variable {criteria : Criteria}

def Fits (criteria : Criteria) (fact : Fact) : Prop :=
  fact = .zero ∨ ∃ added ending, criteria.Grown fact added ending

theorem Fits.of_suffix {ending : List PointId} {criterion : Fact} (some : ending ≠ [])
    (member : criterion ∈ criteria.sequences) (ends : ending <:+ criterion.points) :
    criteria.Fits (.seq ending) :=
  .inr ⟨[], ending, rfl, some, ⟨criterion, member, ends⟩, .nothing⟩

theorem canExtend_iff {point : PointId} {fact : Fact} :
    criteria.canExtend point fact = true ↔
      point ∉ fact.points ∧ ∃ head, fact.head? = some head ∧
        (criteria.isPoint head = true → criteria.isHead head = true) ∧
        point ∈ criteria.extension.before head := by
  unfold canExtend
  cases fact.head? with
  | none => simp
  | some head =>
      cases isPoint : criteria.isPoint head <;> simp [Fact.contains, isPoint, and_assoc]

theorem Fits.extended {point : PointId} {fact : Fact} (fits : criteria.Fits fact)
    (allowed : criteria.canExtend point fact = true) : criteria.Fits (fact.addHead point) := by
  obtain ⟨new, head, first, _, stands⟩ := canExtend_iff.mp allowed
  rcases fits with rfl | ⟨added, ending, rfl, some, ends, prolongs⟩
  · cases first
  · exact .inr ⟨point :: added, ending, rfl, some, ends, prolongs.put first stands new⟩

theorem not_fits_epsilon : ¬ criteria.Fits .epsilon := by
  rintro (isZero | ⟨_, _, grown⟩)
  · cases isZero
  · cases grown.made

/-- Every fact that fits is among these; not all of these fit. -/
def candidates (criteria : Criteria) : List Fact :=
  .zero :: criteria.sequences.flatMap fun criterion =>
    (rests criterion.points).flatMap fun ending =>
      (Extension.listsUpTo criteria.extension.extras criteria.extension.extras.length).map
        fun added => .seq (added ++ ending)

theorem length_candidates : criteria.candidates.length = BottomUp.factBound criteria := by
  simp [candidates, BottomUp.factBound, List.length_flatMap, Extension.length_listsUpTo,
    length_rests, Extension.extras, Nat.add_comm, List.sum_map_mul_right]

theorem Fits.mem_candidates {fact : Fact} (fits : criteria.Fits fact) :
    fact ∈ criteria.candidates := by
  rcases fits with rfl | ⟨added, ending, rfl, some, ⟨criterion, member, ends⟩, prolongs⟩
  · exact List.mem_cons_self
  · have listed := Extension.mem_listsUpTo prolongs.length_le prolongs.subset
    refine List.mem_cons_of_mem _ (List.mem_flatMap.mpr ⟨criterion, member, ?_⟩)
    exact List.mem_flatMap.mpr ⟨ending, mem_rests.mpr ⟨some, ends⟩, List.mem_map.mpr ⟨added, listed, rfl⟩⟩

end Criteria

namespace BottomUp

variable {criteria : Criteria}

theorem fits_of_mem_extended {call : PointId} {fact image : Fact} (fits : criteria.Fits fact)
    (member : image ∈ extended criteria call fact) : criteria.Fits image := by
  unfold extended extends? at member
  split at member
  · next allowed =>
      rcases List.mem_cons.mp member with rfl | new
      · exact fits
      · rw [List.mem_singleton.mp new]
        exact fits.extended (Bool.and_eq_true_iff.mp allowed).2
  · exact List.mem_singleton.mp member ▸ fits

theorem fits_of_mem_aroundFlow {call : PointId} {fact image : Fact} (fits : criteria.Fits fact)
    (member : image ∈ aroundFlow criteria call fact) : criteria.Fits image := by
  rcases of_mem_aroundFlow member with rfl | ⟨rfl, ⟨none, isTail⟩ | completes | allowed⟩
  · exact fits
  · obtain ⟨criterion, listed, ends⟩ := Criteria.isTail_iff.mp isTail
    rw [Fact.addHead, List.isEmpty_iff.mp none]
    exact .of_suffix (List.cons_ne_nil _ _) listed ends
  · -- What was put before the match is taken for a part of the criterion from here on.
    cases fact with
    | epsilon => exact absurd fits Criteria.not_fits_epsilon
    | seq calls =>
        obtain ⟨_, criterion, listed, ends⟩ := Criteria.canAddHead_iff.mp completes
        exact .of_suffix (List.cons_ne_nil _ _) listed ends
  · exact fits.extended (Bool.and_eq_true_iff.mp allowed).2

noncomputable def fitting (criteria : Criteria) : List Fact := by
  classical exact criteria.candidates.filter fun fact => criteria.Fits fact

theorem mem_fitting {fact : Fact} : fact ∈ fitting criteria ↔ criteria.Fits fact := by
  simp only [fitting, List.mem_filter, decide_eq_true_eq, and_iff_right_iff_imp]
  exact Criteria.Fits.mem_candidates

theorem length_fitting : (fitting criteria).length ≤ factBound criteria := by
  rw [← Criteria.length_candidates]
  exact List.length_filter_le _ _

section
variable {program : Program} {specified : List PointId} {plan : CyclePlan} {config : Config}
  {graph : Supergraph}

theorem within_fitting (built : Supergraph.build program specified plan config = .ok graph)
    (criteria : Criteria) :
    (problem graph criteria).Within graph.backward.toInterGraph graph.program.pointIds
      (fitting criteria) := by
  refine within_of_closed ?_ (mem_fitting.mpr (.inl rfl)) ?_ ?_
  · intro point before member
    rw [Supergraph.program_of_build built]
    exact Supergraph.preds_known built member
  · exact fun _ _ fits _ member =>
      mem_fitting.mpr (fits_of_mem_aroundFlow (mem_fitting.mp fits) member)
  · exact fun _ _ fits _ member =>
      mem_fitting.mpr (fits_of_mem_extended (mem_fitting.mp fits) member)

/-- In whatever order the backward pass works, on whatever graph, each of its matches is
the end of a criterion behind statements that the extension relation has put there. These
are so few that every run ends, and the pass ends with nothing left to do. -/
theorem matches_grown (built : Supergraph.build program specified plan config = .ok graph)
    (criteria : Criteria) :
    ∃ facts : List Fact, facts.length ≤ factBound criteria ∧
      (∀ fact ∈ facts, fact ≠ .zero → ∃ added ending, criteria.Grown fact added ending ∧
        (criteria.hasExtension = false → added = [])) ∧
      (∀ taken table,
        Tabulation.Runs graph.backward.toInterGraph (problem graph criteria) taken table →
          taken.length ≤ program.points.length * (facts.length * facts.length) ∧
            ∀ point fact, table.holds point fact = true → fact ∈ facts) ∧
      (solve graph criteria).pending = [] ∧
        ∀ point fact, (solve graph criteria).holds point fact = true → fact ∈ facts := by
  have within := within_fitting built criteria
  refine ⟨fitting criteria, length_fitting, ?_, ?_, ?_, ?_⟩
  · intro fact member notZero
    obtain ⟨added, ending, grown⟩ := (mem_fitting.mp member).resolve_left notZero
    refine ⟨added, ending, grown, fun plain => grown.prolongs.eq_nil_of_isEmpty ?_⟩
    simpa [Criteria.hasExtension] using plain
  · intro taken table runs
    refine ⟨?_, fun point fact found => runs.mem_of_holds within found⟩
    have few := runs.length_le within
    rw [Program.pointIds, List.length_range, Supergraph.program_of_build built] at few
    exact Nat.le_of_add_right_le few
  · exact Tabulation.pending_solve within (by simp [Program.pointIds]) length_fitting
  · exact fun point fact found => Tabulation.mem_of_holds within found

end

/-- The call inside the helper, and the call of the helper that may stand before it. -/
def prolongedCriteria : Criteria := { Criteria.ofList [.seq [5]] with extension := ⟨[(5, [0])]⟩ }

/-- The match has grown by the relation here, since no criterion begins with this call. -/
theorem helperProgram_grown :
    ∃ graph, Supergraph.build helperProgram [] .empty .default = .ok graph ∧
      (solve graph prolongedCriteria).holds 0 (.seq [0, 5]) = true ∧
      (solve graph prolongedCriteria).pending = [] ∧
      ∃ added ending, prolongedCriteria.Grown (.seq [0, 5]) added ending := by
  have built : Supergraph.build helperProgram [] .empty .default = .ok _ :=
    Supergraph.build_empty .default (by simp)
  have found : (solve (Supergraph.assemble helperProgram [] .empty .default)
      prolongedCriteria).holds 0 (.seq [0, 5]) = true := by cbv
  obtain ⟨facts, _, grown, _, ended, inFacts⟩ := matches_grown built prolongedCriteria
  obtain ⟨added, ending, outcome, _⟩ := grown _ (inFacts _ _ found) (by decide)
  exact ⟨_, built, found, ended, added, ending, outcome⟩

end BottomUp
end SeqSlice
