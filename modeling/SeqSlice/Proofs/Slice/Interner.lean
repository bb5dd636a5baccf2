import Mathlib.Data.Finset.Card
import SeqSlice.Proofs.Error
import SeqSlice.Proofs.Fact.Order
import SeqSlice.Proofs.Slice.Outcome

/-! Sharing sets of facts cannot be told from keeping each on its own: equal sets get one
handle and others get others, a handle keeps its contents, and a table of the facts of
statements answers as the solver does. -/

set_option autoImplicit false
namespace SeqSlice

namespace Interner

variable {interner : Interner}

def internAll (interner : Interner) : List (List Fact) → List SetHandle × Interner
  | [] => ([], interner)
  | facts :: rest =>
      let (handle, grown) := interner.intern facts
      let (handles, final) := internAll grown rest
      (handle :: handles, final)

theorem intern_cases (interner : Interner) (facts : List Fact) :
    (∃ position : Nat, interner.sets[position]? = some (Fact.sorted facts) ∧
      interner.intern facts =
        (.stored position, ⟨interner.sets, interner.lookups + 1, interner.hits + 1⟩)) ∨
    (Fact.sorted facts ∉ interner.sets ∧
      interner.intern facts = (.stored interner.sets.length,
        ⟨interner.sets ++ [Fact.sorted facts], interner.lookups + 1, interner.hits⟩)) := by
  unfold intern
  simp only
  split
  · next position found =>
      obtain ⟨inRange, same, _⟩ := List.findIdx?_eq_some_iff_getElem.mp found
      refine .inl ⟨position, ?_, rfl⟩
      rw [List.getElem?_eq_getElem inRange, beq_iff_eq.mp same]
  · next missing =>
      refine .inr ⟨fun member => ?_, rfl⟩
      simpa using List.findIdx?_eq_none_iff.mp missing _ member

def Places (interner : Interner) (facts : List Fact) (handle : SetHandle) : Prop :=
  ∃ position, handle = .stored position ∧ interner.sets[position]? = some (Fact.sorted facts)

/-- What the interner holds after these sets were given to it for these handles. -/
structure Accounts (interner : Interner) (given : List (List Fact)) (handles : List SetHandle) :
    Prop where
  places : List.Forall₂ interner.Places given handles
  distinct : interner.sets.Nodup
  known : ∀ set ∈ interner.sets, ∃ facts ∈ given, set = Fact.sorted facts
  lookups : interner.lookups = given.length
  balance : interner.lookups = interner.sets.length + interner.hits

theorem Places.append {facts : List Fact} {handle : SetHandle} (placed : interner.Places facts handle)
    (more : List (List Fact)) (lookups hits : Nat) :
    Places ⟨interner.sets ++ more, lookups, hits⟩ facts handle := by
  obtain ⟨position, rfl, found⟩ := placed
  refine ⟨position, rfl, ?_⟩
  rw [List.getElem?_append_left (List.getElem?_eq_some_iff.mp found).1, found]

theorem Accounts.intern {given : List (List Fact)} {handles : List SetHandle}
    (accounts : interner.Accounts given handles) (facts : List Fact) :
    (interner.intern facts).2.Accounts (given ++ [facts]) (handles ++ [(interner.intern facts).1]) := by
  have old (set : List Fact) (member : set ∈ interner.sets) :
      ∃ other ∈ given ++ [facts], set = Fact.sorted other := by
    obtain ⟨other, listed, same⟩ := accounts.known set member
    exact ⟨other, List.mem_append_left _ listed, same⟩
  rcases interner.intern_cases facts with ⟨position, found, answer⟩ | ⟨new, answer⟩
  · -- A hit leaves the sets as they are.
    rw [answer]
    refine ⟨List.rel_append accounts.places (.cons ⟨position, rfl, found⟩ .nil), accounts.distinct, old,
      ?_, ?_⟩
    · simp [accounts.lookups]
    · simp only [accounts.balance]
      omega
  · -- A miss puts the set behind the others, so earlier handles keep their places.
    rw [answer]
    have kept : List.Forall₂ (Places ⟨interner.sets ++ [Fact.sorted facts], interner.lookups + 1,
        interner.hits⟩) given handles := accounts.places.imp fun _ _ placed => placed.append _ _ _
    refine ⟨List.rel_append kept (.cons ⟨_, rfl, by simp⟩ .nil), ?_, ?_, ?_, ?_⟩
    · exact (List.perm_append_singleton _ _).nodup_iff.mpr
        (List.nodup_cons.mpr ⟨new, accounts.distinct⟩)
    · intro set member
      rcases List.mem_append.mp member with stored | added
      · exact old set stored
      · exact ⟨facts, by simp, List.mem_singleton.mp added⟩
    · simp [accounts.lookups]
    · simp only [accounts.balance, List.length_append, List.length_singleton]
      omega

theorem Accounts.internAll {given : List (List Fact)} {handles : List SetHandle}
    (accounts : interner.Accounts given handles) (more : List (List Fact)) :
    (interner.internAll more).2.Accounts (given ++ more) (handles ++ (interner.internAll more).1) := by
  induction more generalizing interner given handles with
  | nil => simpa [Interner.internAll] using accounts
  | cons facts rest ih => simpa [Interner.internAll] using ih (accounts.intern facts)

theorem accounts_internAll (given : List (List Fact)) :
    (empty.internAll given).2.Accounts given (empty.internAll given).1 := by
  have start : empty.Accounts [] [] := ⟨.nil, List.nodup_nil, by simp [empty], rfl, rfl⟩
  exact start.internAll given

/-- Handles stand for sets, of which there are as many as were counted. -/
structure Transparent (interner : Interner) (given : List (List Fact)) (handles : List SetHandle) :
    Prop where
  answered : handles.length = given.length
  same : ∀ one ∈ given.zip handles, ∀ other ∈ given.zip handles,
    one.2 = other.2 ↔ ∀ fact, fact ∈ one.1 ↔ fact ∈ other.1
  contents : ∀ one ∈ given.zip handles, ∀ fact, fact ∈ interner.facts one.2 ↔ fact ∈ one.1
  sets : interner.sets.length = (given.map List.toFinset).toFinset.card
  lookups : interner.lookups = interner.sets.length + interner.hits

theorem Places.eq_iff {facts others : List Fact} {handle another : SetHandle}
    (distinct : interner.sets.Nodup) (placed : interner.Places facts handle)
    (placedToo : interner.Places others another) :
    handle = another ↔ ∀ fact, fact ∈ facts ↔ fact ∈ others := by
  obtain ⟨position, rfl, found⟩ := placed
  obtain ⟨place, rfl, foundToo⟩ := placedToo
  rw [← Fact.sorted_eq_sorted_iff, SetHandle.stored.injEq]
  constructor
  · rintro rfl
    exact Option.some.inj (found.symm.trans foundToo)
  · intro same
    exact (List.getElem?_inj (List.getElem?_eq_some_iff.mp found).1 distinct).mp
      (by rw [found, foundToo, same])

theorem Accounts.sets_length {given : List (List Fact)} {handles : List SetHandle}
    (accounts : interner.Accounts given handles) :
    interner.sets.length = (given.map List.toFinset).toFinset.card := by
  have contents (facts : List Fact) : (Fact.sorted facts).toFinset = facts.toFinset := by
    ext fact
    simp [Fact.mem_sorted]
  have stored (facts : List Fact) (listed : facts ∈ given) : Fact.sorted facts ∈ interner.sets := by
    obtain ⟨handle, -, position, -, found⟩ := exists_of_forall₂ accounts.places.flip listed
    exact List.mem_of_getElem? found
  -- Lists that were given and lists that are stored stand for the same sets.
  have same : (given.map List.toFinset).toFinset = (interner.sets.map List.toFinset).toFinset := by
    ext set
    simp only [List.mem_toFinset, List.mem_map]
    constructor
    · rintro ⟨facts, listed, rfl⟩
      exact ⟨_, stored facts listed, contents facts⟩
    · rintro ⟨key, member, rfl⟩
      obtain ⟨facts, listed, rfl⟩ := accounts.known key member
      exact ⟨facts, listed, (contents facts).symm⟩
  have unique : (interner.sets.map List.toFinset).Nodup := by
    refine List.Nodup.map_on (fun key member other memberToo equal => ?_) accounts.distinct
    obtain ⟨facts, -, rfl⟩ := accounts.known key member
    obtain ⟨others, -, rfl⟩ := accounts.known other memberToo
    rw [contents, contents] at equal
    exact Fact.sorted_eq_sorted_iff.mpr fun fact => by
      rw [← List.mem_toFinset, equal, List.mem_toFinset]
  rw [same, List.toFinset_card_of_nodup unique, List.length_map]

theorem Places.mem_facts {facts : List Fact} {handle : SetHandle}
    (placed : interner.Places facts handle) (fact : Fact) :
    fact ∈ interner.facts handle ↔ fact ∈ facts := by
  obtain ⟨position, rfl, found⟩ := placed
  rw [Interner.facts, found, Option.getD_some, Fact.mem_sorted]

theorem Accounts.transparent {given : List (List Fact)} {handles : List SetHandle}
    (accounts : interner.Accounts given handles) : interner.Transparent given handles := by
  obtain ⟨sameLength, placed⟩ := List.forall₂_iff_zip.mp accounts.places
  exact ⟨sameLength.symm,
    fun _ member _ memberToo => (placed member).eq_iff accounts.distinct (placed memberToo),
    fun _ member => (placed member).mem_facts, accounts.sets_length, accounts.balance⟩

end Interner

/-- The table answers with the facts of the solver but zero, at these statements only. -/
structure FactTable.Caches (table : FactTable) (solved : Tabulation Fact) (points : List PointId) :
    Prop where
  listed : ∀ point ∈ points, ∀ fact,
    fact ∈ table.factsAt point ↔ fact ∈ SliceRun.properFacts solved point
  others : ∀ point, point ∉ points → table.factsAt point = []
  reached : ∀ point, point ∈ table.reached ↔
    point ∈ points ∧ ∃ fact, solved.holds point fact = true ∧ fact ≠ .zero

theorem FactTable.caches_ofFacts (solved : Tabulation Fact) (points : List PointId) :
    (ofFacts (SliceRun.properFacts solved) points).Caches solved points where
  listed point member fact := by rw [mem_factsAt_ofFacts, and_iff_right member]
  others point absent := List.eq_nil_iff_forall_not_mem.mpr fun _ held =>
    absent (mem_factsAt_ofFacts.mp held).1
  reached point := by
    simp only [mem_reached_ofFacts, ne_eq, List.eq_nil_iff_forall_not_mem, not_forall, not_not,
      SliceRun.mem_properFacts]

/-- After any sets were interned, handles can be taken for sets; and whatever was solved, its
facts can be looked up in a table. -/
theorem Interner.sharing_transparent (given : List (List Fact)) (solved : Tabulation Fact)
    (points : List PointId) :
    (empty.internAll given).2.Transparent given (empty.internAll given).1 ∧
      (FactTable.ofFacts (SliceRun.properFacts solved) points).Caches solved points :=
  ⟨(accounts_internAll given).transparent, FactTable.caches_ofFacts solved points⟩

/-- `epsilon` alone is not the same set as zero alone, and order does not count. -/
example : (Interner.empty.internAll [[.epsilon], [.zero], [.seq [1, 2], .seq [2]],
    [.seq [2], .seq [1, 2]]]).1 = [.stored 0, .stored 1, .stored 2, .stored 2] := by cbv

end SeqSlice
