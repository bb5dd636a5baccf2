import Mathlib.Data.Set.Finite.List
import Mathlib.Order.WellFounded
import SeqSlice.Program.Hierarchy
import SeqSlice.Proofs.Error
import SeqSlice.Proofs.Program.Accepted

/-! The way up over superclasses. It is followed from class to class until something is found
or a class has no superclass. So it has an end, unless superclasses come back to themselves
and nothing is found at any of them. -/

set_option autoImplicit false
namespace SeqSlice

namespace Program

def Extends (program : Program) (sub sup : ClassId) : Prop := program.superClass? sub = some sup

def SuperclassesEnd (program : Program) : Prop :=
  ∀ cls, ¬ Relation.TransGen program.Extends cls cls

/-- Some class above, or the class itself, comes back to itself. -/
def Circles (program : Program) (cls : ClassId) : Prop :=
  ∃ upper, Relation.ReflTransGen program.Extends cls upper ∧
    Relation.TransGen program.Extends upper upper

inductive WayUp (program : Program) {β : Type} (found? : ClassId → Option β) :
    ClassId → Option β → Prop where
  | here {cls : ClassId} {value : β} : found? cls = some value →
      WayUp program found? cls (some value)
  | top {cls : ClassId} : found? cls = none → program.superClass? cls = none →
      WayUp program found? cls none
  | above {cls sup : ClassId} {answer : Option β} : found? cls = none → program.Extends cls sup →
      WayUp program found? sup answer → WayUp program found? cls answer

variable {program : Program} {β : Type} {found? : ClassId → Option β} {answer : Option β}
  {cls sub sup upper : ClassId} {value : β}

theorem superClass?_known (extended : program.Extends sub sup) : sup ∈ program.classIds := by
  obtain ⟨found, listed, above⟩ := Option.bind_eq_some_iff.mp extended
  have supertypes := (program.sound.classes found sub listed).2
  exact mem_classIds.mpr (supertypes sup (List.mem_append_left _ (Option.mem_toList.mpr above)))

theorem SuperclassesEnd.straight (ends : program.SuperclassesEnd) : ¬ program.Circles cls :=
  fun ⟨upper, _, around⟩ => ends upper around

/-! ## Going round -/

theorem Circles.extends (circles : program.Circles cls) : ∃ sup, program.Extends cls sup := by
  obtain ⟨upper, reached, around⟩ := circles
  rcases reached.cases_head with rfl | ⟨sup, extended, _⟩
  · obtain ⟨sup, extended, _⟩ := Relation.TransGen.head'_iff.mp around
    exact ⟨sup, extended⟩
  · exact ⟨sup, extended⟩

theorem Circles.above (circles : program.Circles cls) (extended : program.Extends cls sup) :
    program.Circles sup := by
  have only {other : ClassId} (step : program.Extends cls other) : other = sup :=
    Option.some.inj (step.symm.trans extended)
  obtain ⟨upper, reached, around⟩ := circles
  rcases reached.cases_head with rfl | ⟨other, step, rest⟩
  · obtain ⟨other, step, back⟩ := Relation.TransGen.head'_iff.mp around
    exact ⟨cls, only step ▸ back, around⟩
  · exact ⟨upper, only step ▸ rest, around⟩

/-! ## What is found -/

theorem wayUp_of_upwards (ended : program.upwards found? cls = some answer) :
    program.WayUp found? cls answer := by
  refine upwards.partial_correctness program found? (program.WayUp found?) ?_ cls answer ended
  intro rest further cls answer ended
  split at ended
  · next value found => exact Option.some.inj ended ▸ .here found
  · next nothing =>
      split at ended
      · next none => exact Option.some.inj ended ▸ .top nothing none
      · next sup extended => exact .above nothing extended (further sup answer ended)

theorem upwards_eq_some_iff :
    program.upwards found? cls = some answer ↔ program.WayUp found? cls answer := by
  refine ⟨wayUp_of_upwards, fun way => ?_⟩
  induction way with
  | here found => rw [upwards, found]
  | top nothing none => rw [upwards, nothing, none]
  | above nothing extended _ ih =>
      have next : program.superClass? _ = some _ := extended
      rw [upwards, nothing, next]
      exact ih

theorem WayUp.found (way : program.WayUp found? cls (some value)) :
    ∃ upper, Relation.ReflTransGen program.Extends cls upper ∧ found? upper = some value := by
  generalize given : some value = answer at way
  induction way with
  | here found =>
      obtain rfl := Option.some.inj given
      exact ⟨_, .refl, found⟩
  | top => cases given
  | above _ extended _ ih =>
      obtain ⟨upper, reached, found⟩ := ih given
      exact ⟨upper, reached.head extended, found⟩

theorem WayUp.straight (way : program.WayUp found? cls none) : ¬ program.Circles cls := by
  generalize given : (none : Option β) = answer at way
  induction way with
  | here => cases given
  | top _ none =>
      intro circles
      obtain ⟨sup, extended⟩ := circles.extends
      cases none.symm.trans extended
  | above _ extended _ ih => exact fun circles => ih given (circles.above extended)

theorem exists_wayUp_of_found (reached : Relation.ReflTransGen program.Extends cls upper)
    (found : found? upper = some value) : ∃ first, program.WayUp found? cls (some first) := by
  induction reached using Relation.ReflTransGen.head_induction_on with
  | refl => exact ⟨value, .here found⟩
  | @head lower _ extended _ ih =>
      cases nearer : found? lower with
      | some first => exact ⟨first, .here nearer⟩
      | none =>
          obtain ⟨first, way⟩ := ih
          exact ⟨first, .above nearer extended way⟩

/-- There are only so many classes, so a way that does not go round has an end. -/
theorem exists_wayUp (straight : ¬ program.Circles cls) :
    ∃ answer, program.WayUp found? cls answer := by
  let Above := { upper // Relation.ReflTransGen program.Extends cls upper }
  have finite : Finite Above := by
    refine Set.Finite.subset (cls :: program.classIds).finite_toSet fun upper reached => ?_
    rcases reached.cases_tail with rfl | ⟨lower, _, extended⟩
    · exact List.mem_cons_self
    · exact List.mem_cons_of_mem _ (superClass?_known extended)
  let higher (upper lower : Above) : Prop := Relation.TransGen program.Extends lower.1 upper.1
  have transitive : IsTrans Above higher := ⟨fun _ _ _ first second => second.trans first⟩
  have irreflexive : Std.Irrefl higher := ⟨fun upper around => straight ⟨upper.1, upper.2, around⟩⟩
  -- By induction on the classes above, of which there are finitely many.
  have answered (lower : Above) : ∃ answer, program.WayUp found? lower.1 answer := by
    induction lower using (Finite.wellFounded_of_trans_of_irrefl higher).induction with
    | h lower ih =>
        cases nearer : found? lower.1 with
        | some value => exact ⟨some value, .here nearer⟩
        | none =>
            cases extended : program.superClass? lower.1 with
            | none => exact ⟨none, .top nearer extended⟩
            | some sup =>
                obtain ⟨answer, way⟩ := ih ⟨sup, lower.2.tail extended⟩ (.single extended)
                exact ⟨answer, .above nearer extended way⟩
  exact answered ⟨cls, .refl⟩

/-! ## The answers -/

theorem climb_eq_ok_iff :
    program.climb found? cls = .ok answer ↔ program.WayUp found? cls answer := by
  rw [← upwards_eq_some_iff, climb]
  cases program.upwards found? cls <;> simp

/-- There is no answer just if the way goes round and nothing is found on it. -/
theorem climb_eq_error_iff {error : UnknownId} :
    program.climb found? cls = .error error ↔ error = .endless cls ∧ program.Circles cls ∧
      ∀ upper, Relation.ReflTransGen program.Extends cls upper → found? upper = none := by
  constructor
  · intro failed
    have none (answer : Option β) : ¬ program.WayUp found? cls answer := by
      rw [← climb_eq_ok_iff, failed]
      simp
    refine ⟨?_, ?_, fun upper reached => ?_⟩
    · unfold climb at failed
      split at failed
      · cases failed
      · exact (Except.error.inj failed).symm
    · by_contra straight
      obtain ⟨answer, way⟩ := exists_wayUp straight
      exact none answer way
    · by_contra found
      obtain ⟨value, found⟩ := Option.ne_none_iff_exists'.mp found
      obtain ⟨first, way⟩ := exists_wayUp_of_found reached found
      exact none _ way
  · rintro ⟨rfl, circles, nothing⟩
    cases ended : program.upwards found? cls with
    | none => rw [climb, ended]
    | some answer =>
        have way := wayUp_of_upwards ended
        cases answer with
        -- A way that finds nothing comes to a topmost class, which is on no circle.
        | none => exact absurd circles way.straight
        | some value =>
            obtain ⟨upper, reached, found⟩ := way.found
            cases (nothing upper reached).symm.trans found

section
variable {wanted : ClassId → Bool}

theorem meets_eq_ok_iff {met : Bool} : program.meets wanted cls = .ok met ↔
    ∃ answer, program.WayUp (Option.guard wanted) cls answer ∧ answer.isSome = met := by
  simp only [meets, map_eq_ok_iff, climb_eq_ok_iff]

theorem meets_eq_true_iff : program.meets wanted cls = .ok true ↔
    ∃ upper, Relation.ReflTransGen program.Extends cls upper ∧ wanted upper = true := by
  rw [meets_eq_ok_iff]
  constructor
  · rintro ⟨answer, way, some⟩
    obtain ⟨value, rfl⟩ := Option.isSome_iff_exists.mp some
    obtain ⟨upper, reached, found⟩ := way.found
    exact ⟨upper, reached, (Option.guard_eq_some_iff.mp found).2⟩
  · rintro ⟨upper, reached, here⟩
    obtain ⟨first, way⟩ := exists_wayUp_of_found reached (Option.guard_eq_some_iff.mpr ⟨rfl, here⟩)
    exact ⟨_, way, rfl⟩

theorem meets_eq_error_iff {error : UnknownId} : program.meets wanted cls = .error error ↔
    error = .endless cls ∧ program.Circles cls ∧
      ∀ upper, Relation.ReflTransGen program.Extends cls upper → wanted upper = false := by
  have unmet : program.meets wanted cls = .error error ↔
      program.climb (Option.guard wanted) cls = .error error := by
    rw [meets]
    cases program.climb (Option.guard wanted) cls <;> simp [Except.map]
  simp only [unmet, climb_eq_error_iff, Option.guard_eq_none_iff]

end

end Program

end SeqSlice
