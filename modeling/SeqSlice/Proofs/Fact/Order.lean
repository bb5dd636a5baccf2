import SeqSlice.Fact.Basic
import SeqSlice.Proofs.Program.Accepted
import Mathlib.Data.Finset.Max

/-! Two orders on facts. By calls they are ordered as in a dictionary, behind `epsilon`;
this order is linear, so a list of facts is sorted in one way only. By ends, a fact is
below those that end with it; in a finite list there is a longest one above each.
Statements are brought into ascending order, where only the members of a list count. -/

set_option autoImplicit false
namespace SeqSlice

theorem eraseDups_perm {α : Type} [DecidableEq α] {first second : List α}
    (same : ∀ value, value ∈ first ↔ value ∈ second) :
    first.eraseDups.Perm second.eraseDups :=
  (List.perm_ext_iff_of_nodup (nodup_eraseDups first) (nodup_eraseDups second)).mpr (by simpa)

theorem ascending_congr {first second : List Nat}
    (same : ∀ value, value ∈ first ↔ value ∈ second) : ascending first = ascending second := by
  have sorted (values : List Nat) :
      (ascending values).Pairwise fun first second => first.ble second = true :=
    List.pairwise_mergeSort (fun _ _ _ => by simpa using Nat.le_trans)
      (fun first second => by simpa using Nat.le_total first second) _
  -- One list is a permutation of the other, and both are sorted.
  refine List.Perm.eq_of_pairwise (fun value other _ _ => ?_) (sorted first) (sorted second) ?_
  · simpa using Nat.le_antisymm
  · exact (List.mergeSort_perm _ _).trans ((eraseDups_perm same).trans (List.mergeSort_perm _ _).symm)

namespace Fact

/-! ## The dictionary -/

theorem comparePoints_eq (first second : List PointId) : comparePoints first second = compare first second := by
  induction first generalizing second with
  | nil => cases second <;> rfl
  | cons call rest ih =>
      cases second with
      | nil => rfl
      | cons other others =>
          rw [comparePoints, List.compare_cons_cons, Nat.compare_eq_ite_lt, ih]
          by_cases less : call < other
          · simp [less]
          · by_cases more : other < call <;> simp [less, more]

theorem order_swap (first second : Fact) : order first second = (order second first).swap := by
  cases first <;> cases second <;> try rfl
  simp only [order, comparePoints_eq]
  exact Std.OrientedOrd.eq_swap

instance : Std.OrientedCmp order where
  eq_swap := order_swap _ _

instance : Std.TransCmp order where
  isLE_trans {first second third} before after := by
    cases first <;> cases second <;> cases third <;> try contradiction
    case seq.seq.seq =>
      simp only [order, comparePoints_eq] at *
      exact Std.TransOrd.isLE_trans before after
    all_goals rfl

instance : Std.LawfulEqCmp order where
  compare_self {fact} := by
    cases fact with
    | epsilon => rfl
    | seq points => simp [order, comparePoints_eq]
  eq_of_compare {first second} same := by
    cases first <;> cases second <;> try contradiction
    case epsilon.epsilon => rfl
    case seq.seq =>
      simp only [order, comparePoints_eq] at same
      rw [Std.LawfulEqOrd.eq_of_compare same]

theorem le_total (first second : Fact) : (le first second || le second first) = true := by
  rw [le, le, order_swap second first]
  cases order first second <;> rfl

theorem nodup_sorted (facts : List Fact) : (sorted facts).Nodup :=
  (List.mergeSort_perm _ _).nodup_iff.mpr (nodup_eraseDups facts)

theorem sorted_strict (facts : List Fact) :
    (sorted facts).Pairwise fun first second => order first second = .lt := by
  have ascending : (sorted facts).Pairwise fun first second => le first second = true :=
    List.pairwise_mergeSort (fun _ _ _ => Std.TransCmp.isLE_trans) le_total _
  refine ascending.imp₂ (fun first second before different => ?_) (nodup_sorted facts)
  cases decided : order first second with
  | lt => rfl
  | eq => exact absurd (Std.LawfulEqCmp.eq_of_compare decided) different
  | gt => simp [le, decided] at before

theorem sorted_eq_sorted_iff {facts others : List Fact} :
    sorted facts = sorted others ↔ ∀ fact, fact ∈ facts ↔ fact ∈ others := by
  constructor
  · intro same fact
    rw [← mem_sorted, same, mem_sorted]
  · intro same
    refine List.Perm.eq_of_pairwise (fun first second _ _ before after => ?_) (sorted_strict facts)
      (sorted_strict others) ((List.perm_ext_iff_of_nodup (nodup_sorted _) (nodup_sorted _)).mpr ?_)
    · rw [order_swap, before] at after
      cases after
    · simpa only [mem_sorted] using same

/-! ## Ends -/

def Ends (shorter longer : Fact) : Prop :=
  shorter.points <:+ longer.points ∧ shorter.points ≠ longer.points

theorem Ends.length_lt {shorter longer : Fact} (ends : shorter.Ends longer) :
    shorter.length < longer.length :=
  Nat.lt_of_le_of_ne ends.1.length_le fun same => ends.2 (ends.1.eq_of_length same)

theorem Ends.trans {first second third : Fact} (ends : first.Ends second) (further : second.Ends third) :
    first.Ends third := by
  refine ⟨ends.1.trans further.1, fun same => ?_⟩
  have shorter := ends.length_lt
  have longer := further.length_lt
  rw [length, same, ← length] at shorter
  omega

theorem isStrictSuffixOf_iff {shorter longer : Fact} :
    shorter.isStrictSuffixOf longer = true ↔ shorter.Ends longer := by
  rw [isStrictSuffixOf, Bool.and_eq_true, decide_eq_true_eq, List.isSuffixOf_iff_suffix]
  constructor
  · rintro ⟨more, ends⟩
    refine ⟨ends, fun same => ?_⟩
    rw [length, length, same] at more
    exact Nat.lt_irrefl _ more
  · exact fun ends => ⟨ends.length_lt, ends.1⟩

/-- Each fact of a list is one that ends no other, or ends such a one. -/
theorem exists_longest {facts : List Fact} {fact : Fact} (member : fact ∈ facts) :
    ∃ longest ∈ facts, (fact = longest ∨ fact.Ends longest) ∧
      ∀ other ∈ facts, ¬ longest.Ends other := by
  classical
  let above : Finset Fact := facts.toFinset.filter fun other => fact = other ∨ fact.Ends other
  have inhabited : above.Nonempty := ⟨fact, by simp [above, member]⟩
  obtain ⟨longest, isAbove, most⟩ := above.exists_max_image length inhabited
  simp only [above, Finset.mem_filter, List.mem_toFinset] at isAbove most
  refine ⟨longest, isAbove.1, isAbove.2, fun other listed ends => ?_⟩
  have further : fact.Ends other := by
    rcases isAbove.2 with rfl | before
    · exact ends
    · exact before.trans ends
  have bounded := most other ⟨listed, .inr further⟩
  have longer := ends.length_lt
  omega

end Fact
end SeqSlice
