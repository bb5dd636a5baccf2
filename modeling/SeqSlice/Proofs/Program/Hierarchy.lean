import Mathlib
import SeqSlice.Proofs.Program.Closed

/-! Supertypes as chains. A class is a subclass of those that its superclasses lead to, and
it implements an interface that one of these leads to over lists of interfaces. The search
for an interface follows each one once at every class and then goes on at the superclass,
so it comes to an end if superclasses do, whatever cycles the interfaces have. -/

set_option autoImplicit false
namespace SeqSlice

namespace Program

def Lists (program : Program) (cls iface : ClassId) : Prop := iface ∈ program.interfaces cls

/-- A search for an interface that stands at a class, with the interfaces that wait, those
that have been followed here, and the answer that the search comes to. If none wait, it goes
on at the superclass. -/
inductive Search (program : Program) (iface : ClassId) :
    ClassId → List ClassId → List ClassId → Bool → Prop where
  | found {cls : ClassId} {rest followed : List ClassId} :
      Search program iface cls (iface :: rest) followed true
  | again {cls first : ClassId} {rest followed : List ClassId} {answer : Bool} :
      first ≠ iface → first ∈ followed → Search program iface cls rest followed answer →
      Search program iface cls (first :: rest) followed answer
  | follow {cls first : ClassId} {rest followed : List ClassId} {answer : Bool} :
      first ≠ iface → first ∉ followed →
      Search program iface cls (Graph.Discipline.stack.add (program.interfaces first) rest)
        (first :: followed) answer →
      Search program iface cls (first :: rest) followed answer
  | climb {cls sup : ClassId} {followed : List ClassId} {answer : Bool} :
      program.Extends cls sup →
      Search program iface sup (program.interfaces sup).reverse [] answer →
      Search program iface cls [] followed answer
  | top {cls : ClassId} {followed : List ClassId} : program.superClass? cls = none →
      Search program iface cls [] followed false

variable {program : Program} {iface cls : ClassId}

theorem Search.unique {waiting followed : List ClassId} {first second : Bool}
    (one : program.Search iface cls waiting followed first)
    (other : program.Search iface cls waiting followed second) : first = second := by
  -- On the search, which is at the same place in both.
  induction one with
  | found =>
      cases other with
      | found => rfl
      | again different _ _ => exact absurd rfl different
      | follow different _ _ => exact absurd rfl different
  | again different member _ ih =>
      cases other with
      | found => exact absurd rfl different
      | again _ _ rest => exact ih rest
      | follow _ absent _ => exact absurd member absent
  | follow different absent _ ih =>
      cases other with
      | found => exact absurd rfl different
      | again _ member _ => exact absurd member absent
      | follow _ _ rest => exact ih rest
  | climb extended _ ih =>
      cases other with
      | climb extendedToo rest =>
          obtain rfl := Option.some.inj (extended.symm.trans extendedToo)
          exact ih rest
      | top none => cases extended.symm.trans none
  | top none =>
      cases other with
      | climb extended _ => cases extended.symm.trans none
      | top _ => rfl

/-! ## Chains -/

theorem interfaces_known (listed : program.Lists cls iface) : iface ∈ program.classIds := by
  unfold Lists interfaces at listed
  cases stored : program.class? cls with
  | none => simp [stored] at listed
  | some found =>
      have inRange := mem_classIds.mpr (List.getElem?_eq_some_iff.mp stored).1
      obtain ⟨known, same, _, _, interfaces⟩ := (held program).classes cls inRange
      obtain rfl := Option.some.inj (stored.symm.trans (knownClass_eq_ok_iff.mp same))
      exact interfaces iface (by simpa [stored] using listed)

theorem nodup_classIds : program.classIds.Nodup := List.nodup_range

theorem mem_allInterfaces : iface ∈ program.allInterfaces cls ↔
    Relation.TransGen program.Lists cls iface := by
  rw [allInterfaces, Graph.mem_visit]
  constructor
  · intro reach
    induction reach with
    | source _ listed => exact .single listed
    | step _ _ listed ih => exact ih.tail listed
  · intro chain
    induction chain with
    | single listed => exact .source (interfaces_known listed) listed
    | tail _ listed ih => exact .step ih (interfaces_known listed) listed

theorem subclass_eq_true_iff (known : cls ∈ program.classIds) {upper : ClassId} :
    program.subclass cls upper = .ok true ↔ Relation.ReflTransGen program.Extends cls upper := by
  by_cases same : cls = upper
  · subst same
    simpa [subclass, pure, Except.pure] using Relation.ReflTransGen.refl
  · obtain ⟨found, stored, _⟩ := (held program).classes cls known
    have asked : program.subclass cls upper = program.isSubclass cls upper := by
      rw [subclass, if_neg same, stored]
      rfl
    rw [asked, isSubclass, meets_eq_true_iff]
    simp

theorem isImplementer_iff (known : cls ∈ program.classIds) :
    program.isImplementer cls iface = .ok true ↔
      ∃ upper, program.subclass cls upper = .ok true ∧
        Relation.TransGen program.Lists upper iface := by
  simp only [isImplementer, meets_eq_true_iff, List.contains_iff_mem, mem_allInterfaces,
    subclass_eq_true_iff known]

/-! ## The search -/

/-- At one class the search finds the interface or comes to where none wait. What remains
is what has not been followed, so it gets less with every interface that is. -/
theorem Search.of_visit {remaining waiting followed : List ClassId} {answer : Bool}
    (unique : remaining.Nodup)
    (split : ∀ id ∈ program.classIds, id ∈ remaining ↔ id ∉ followed)
    (known : ∀ id ∈ waiting, id ∈ program.classIds) (absent : iface ∉ followed)
    (here : iface ∈ Graph.visit .stack program.interfaces remaining waiting → answer = true)
    (later : iface ∉ Graph.visit .stack program.interfaces remaining waiting →
      ∀ followed, program.Search iface cls [] followed answer) :
    program.Search iface cls waiting followed answer := by
  fun_induction Graph.visit .stack program.interfaces remaining waiting generalizing followed with
  | case1 remaining => exact later (by simp) followed
  | case2 remaining first rest member ih =>
      by_cases same : first = iface
      · subst same
        rw [here List.mem_cons_self]
        exact .found
      · have inRange := known first List.mem_cons_self
        refine .follow same ((split first inRange).mp member) ?_
        refine ih (unique.erase first) (fun id listed => ?_) (fun id waits => ?_) ?_ ?_ ?_
        · rw [unique.mem_erase_iff, split id listed, List.mem_cons, not_or]
        · rcases Graph.Discipline.mem_add.mp waits with new | old
          · exact interfaces_known new
          · exact known id (List.mem_cons_of_mem _ old)
        · simpa using ⟨Ne.symm same, absent⟩
        · exact fun visited => here (List.mem_cons_of_mem _ visited)
        · exact fun missed => later (by simpa using ⟨Ne.symm same, missed⟩)
  | case3 remaining first rest gone ih =>
      have inRange := known first List.mem_cons_self
      have again : first ∈ followed := by
        by_contra fresh
        exact gone ((split first inRange).mpr fresh)
      refine .again (ne_of_mem_of_not_mem again absent) again ?_
      exact ih unique split (fun id waits => known id (List.mem_cons_of_mem _ waits)) absent here
        later

theorem Search.of_class {answer : Bool} (here : iface ∈ program.allInterfaces cls → answer = true)
    (behind : iface ∉ program.allInterfaces cls →
      ∀ followed, program.Search iface cls [] followed answer) :
    program.Search iface cls (program.interfaces cls).reverse [] answer := by
  have visited : iface ∈ Graph.visit .stack program.interfaces program.classIds
      (program.interfaces cls).reverse ↔ iface ∈ program.allInterfaces cls := by
    simp only [allInterfaces, Graph.mem_visit]
    exact ⟨Graph.Reach.mono_sources fun _ listed _ => List.mem_reverse.mp listed,
      Graph.Reach.mono_sources fun _ listed _ => List.mem_reverse.mpr listed⟩
  exact Search.of_visit nodup_classIds (fun id known => by simpa using known)
    (fun id waits => interfaces_known (List.mem_reverse.mp waits)) (by simp)
    (fun found => here (visited.mp found)) fun missed => behind fun found => missed (visited.mpr found)

theorem Search.of_wayUp {answer : Option ClassId}
    (way : program.WayUp
      (Option.guard fun upper => (program.allInterfaces upper).contains iface) cls answer) :
    program.Search iface cls (program.interfaces cls).reverse [] answer.isSome := by
  have missing {upper : ClassId} (nothing : Option.guard (fun upper =>
      (program.allInterfaces upper).contains iface) upper = none) :
      iface ∉ program.allInterfaces upper := by
    simpa using nothing
  induction way with
  | here found =>
      have listed := List.contains_iff_mem.mp (Option.guard_eq_some_iff.mp found).2
      exact .of_class (fun _ => rfl) fun missed => absurd listed missed
  | top nothing none =>
      exact .of_class (fun found => absurd found (missing nothing)) fun _ _ => .top none
  | above nothing extended _ ih =>
      exact .of_class (fun found => absurd found (missing nothing)) fun _ _ => .climb extended ih

/-- The search for an interface of a known class ends with the answer that is given, and it
is yes if and only if some superclass, or the class itself, leads to the interface. -/
theorem implementer_exact (program : Program) (ends : program.SuperclassesEnd) {cls : ClassId}
    (known : cls ∈ program.classIds) (iface : ClassId) :
    ∃ answer, program.implementer cls iface = .ok answer ∧
      (∀ other, program.Search iface cls (program.interfaces cls).reverse [] other ↔
        other = answer) ∧
      (answer = true ↔ ∃ upper, program.subclass cls upper = .ok true ∧
        Relation.TransGen program.Lists upper iface) := by
  have ended : ∃ found, program.WayUp
      (Option.guard fun upper => (program.allInterfaces upper).contains iface) cls found :=
    exists_wayUp ends.straight
  obtain ⟨found, way⟩ := ended
  have answered : program.isImplementer cls iface = .ok found.isSome :=
    meets_eq_ok_iff.mpr ⟨found, way, rfl⟩
  have searched := Search.of_wayUp way
  refine ⟨found.isSome, ?_, fun other => ⟨fun ended => ended.unique searched, ?_⟩, ?_⟩
  · obtain ⟨stored, listed, _⟩ := (held program).classes cls known
    rw [implementer, listed]
    exact answered
  · rintro rfl
    exact searched
  · rw [← isImplementer_iff known, answered, Except.ok.injEq]

theorem superclassesEnd_of_ranked (rank : ClassId → Nat)
    (higher : ∀ cls ∈ program.classes, ∀ sup, cls.superClass = some sup → rank cls.id < rank sup) :
    program.SuperclassesEnd := by
  have step {sub sup : ClassId} (extended : program.Extends sub sup) : rank sub < rank sup := by
    obtain ⟨found, listed, above⟩ := Option.bind_eq_some_iff.mp extended
    have placed := (program.sound.classes found sub listed).1
    exact placed ▸ higher found (List.mem_of_getElem? listed) sup above
  intro cls chain
  have climbs {first last : ClassId} (chain : Relation.TransGen program.Extends first last) :
      rank first < rank last := by
    induction chain with
    | single extended => exact step extended
    | tail _ extended ih => exact Nat.lt_trans ih (step extended)
  exact Nat.lt_irrefl _ (climbs chain)

end Program

/-- A class inherits an interface from its superclass. Two of the interfaces extend each
other, and both extend the one that is asked for. -/
def ringListing : Listing where
  entry := some 0
  classes := [⟨0, "Base", none, [2], false, false⟩, ⟨1, "Derived", some 0, [5], false, false⟩,
    ⟨2, "Left", none, [3, 4], true, false⟩, ⟨3, "Right", none, [2, 4], true, false⟩,
    ⟨4, "Shape", none, [], true, false⟩, ⟨5, "Other", none, [5], true, false⟩]
  methods := [⟨0, 1, "main", "", true, false, [0]⟩]
  points := [⟨0, 0, 1, .plain, ""⟩]
  edges := []
  calls := []
  allocSites := []
  pointsTo := []

def ringProgram : Program := ⟨ringListing, 0, rfl, by decide⟩

theorem ringProgram_searched : ringProgram.SuperclassesEnd ∧ 1 ∈ ringProgram.classIds ∧
    ringProgram.implementer 1 4 = .ok true ∧
    ∃ answer, ringProgram.implementer 1 4 = .ok answer ∧
      (∀ other, ringProgram.Search 4 1 (ringProgram.interfaces 1).reverse [] other ↔
        other = answer) ∧
      (answer = true ↔ ∃ upper, ringProgram.subclass 1 upper = .ok true ∧
        Relation.TransGen ringProgram.Lists upper 4) := by
  have ends : ringProgram.SuperclassesEnd :=
    Program.superclassesEnd_of_ranked (fun cls => 6 - cls) (by decide)
  exact ⟨ends, by decide, by cbv, ringProgram.implementer_exact ends (by decide) 4⟩

end SeqSlice
