import SeqSlice.Slice.Interner

/-! A table of shared fact sets gives back what was put in. A stored set keeps its
position, so the sets of other statements are not touched when a set is stored. -/

set_option autoImplicit false
namespace SeqSlice

namespace Interner

variable {interner : Interner}

def Knows (interner : Interner) : SetHandle → Prop
  | .absent => True
  | .stored position => position < interner.sets.length

theorem facts_intern (facts : List Fact) :
    (interner.intern facts).2.facts (interner.intern facts).1 = Fact.sorted facts := by
  simp only [intern]
  split
  · next position found =>
      obtain ⟨inRange, same, _⟩ := List.findIdx?_eq_some_iff_getElem.mp found
      simpa [Interner.facts, inRange] using same
  · simp [Interner.facts]

theorem knows_intern (facts : List Fact) :
    (interner.intern facts).2.Knows (interner.intern facts).1 := by
  simp only [intern]
  split
  · next position found => exact (List.findIdx?_eq_some_iff_getElem.mp found).1
  · simp [Knows]

theorem sets_intern (facts : List Fact) :
    ∃ added, (interner.intern facts).2.sets = interner.sets ++ added := by
  simp only [intern]
  split
  · exact ⟨[], by simp⟩
  · exact ⟨[Fact.sorted facts], rfl⟩

theorem Knows.intern {handle : SetHandle} (known : interner.Knows handle) (facts : List Fact) :
    (interner.intern facts).2.Knows handle := by
  obtain ⟨added, grown⟩ := interner.sets_intern facts
  cases handle with
  | absent => trivial
  | stored position =>
      simp only [Knows] at known ⊢
      rw [grown, List.length_append]
      omega

theorem Knows.facts_eq {handle : SetHandle} (known : interner.Knows handle) (facts : List Fact) :
    (interner.intern facts).2.facts handle = interner.facts handle := by
  obtain ⟨added, grown⟩ := interner.sets_intern facts
  cases handle with
  | absent => rfl
  | stored position => simp only [Interner.facts, grown, List.getElem?_append_left known]

end Interner

namespace FactTable

variable {table : FactTable}

def Filled (table : FactTable) : Prop := ∀ entry ∈ table.entries, table.interner.Knows entry.2

theorem Filled.handleAt (filled : table.Filled) (point : PointId) :
    table.interner.Knows (table.handleAt point) := by
  unfold FactTable.handleAt
  cases found : table.entries.lookup point with
  | none => trivial
  | some handle =>
      obtain ⟨before, after, same, _⟩ := List.lookup_eq_some_iff.mp found
      exact filled (point, handle) (by simp [same])

theorem Filled.insert (filled : table.Filled) (point : PointId) (facts : List Fact) :
    (table.insert point facts).Filled := by
  intro entry member
  rcases List.mem_cons.mp member with rfl | old
  · exact Interner.knows_intern facts
  · exact (filled entry (List.mem_filter.mp old).1).intern facts

theorem lookup_filter_ne {entries : List (PointId × SetHandle)} {point other : PointId}
    (different : other ≠ point) :
    (entries.filter (·.1 != point)).lookup other = entries.lookup other := by
  induction entries with
  | nil => rfl
  | cons entry rest ih =>
      by_cases here : entry.1 = point
      · have skipped : (other == entry.1) = false := by simp [here, different]
        rw [List.filter_cons_of_neg (by simp [here]), ih, List.lookup_cons, skipped]
      · rw [List.filter_cons_of_pos (by simp [here]), List.lookup_cons, List.lookup_cons, ih]

theorem factsAt_insert (filled : table.Filled) (point other : PointId) (facts : List Fact) :
    (table.insert point facts).factsAt other =
      if other = point then Fact.sorted facts else table.factsAt other := by
  unfold factsAt
  by_cases here : other = point
  · have own : (table.insert point facts).handleAt other = (table.interner.intern facts).1 := by
      simp [handleAt, insert, here]
    rw [if_pos here, own]
    exact Interner.facts_intern facts
  · have old : (table.insert point facts).handleAt other = table.handleAt other := by
      simp only [handleAt, insert, List.lookup_cons, beq_false_of_ne here, lookup_filter_ne here]
    rw [if_neg here, old]
    -- A set that is added later does not change what a handle stands for.
    exact (filled.handleAt other).facts_eq facts

theorem mem_reached_insert {point other : PointId} {facts : List Fact} :
    other ∈ (table.insert point facts).reached ↔ other = point ∨ other ∈ table.reached := by
  simp only [reached, mem_ascending, insert, List.map_cons, List.mem_cons, List.mem_map,
    List.mem_filter]
  constructor
  · rintro (here | ⟨entry, ⟨listed, _⟩, rfl⟩)
    · exact .inl here
    · exact .inr ⟨entry, listed, rfl⟩
  · rintro (here | ⟨entry, listed, rfl⟩)
    · exact .inl here
    · by_cases here : entry.1 = point
      · exact .inl here
      · exact .inr ⟨entry, ⟨listed, by simpa using here⟩, rfl⟩

structure Describes (table : FactTable) (facts : PointId → List Fact) (seen : List PointId) :
    Prop where
  filled : table.Filled
  factsAt : ∀ point fact, fact ∈ table.factsAt point ↔ point ∈ seen ∧ fact ∈ facts point
  reached : ∀ point, point ∈ table.reached ↔ point ∈ seen ∧ facts point ≠ []

theorem Describes.next {facts : PointId → List Fact} {seen : List PointId}
    (described : table.Describes facts seen) (point : PointId) :
    (if (facts point).isEmpty then table else table.insert point (facts point)).Describes facts
      (point :: seen) := by
  by_cases none : facts point = []
  · -- No entry is made, and none is missed.
    rw [if_pos (by simp [none])]
    refine ⟨described.filled, fun other fact => ?_, fun other => ?_⟩
    · rw [described.factsAt, List.mem_cons]
      grind
    · rw [described.reached, List.mem_cons]
      grind
  · rw [if_neg (by simpa using none)]
    refine ⟨described.filled.insert _ _, fun other fact => ?_, fun other => ?_⟩
    · rw [factsAt_insert described.filled]
      by_cases here : other = point
      · simp [here, Fact.mem_sorted]
      · simp [here, described.factsAt]
    · rw [mem_reached_insert, described.reached, List.mem_cons]
      grind

theorem ofFacts_describes (facts : PointId → List Fact) (points : List PointId) :
    (ofFacts facts points).Describes facts points.reverse := by
  have fold (rest : List PointId) (table : FactTable) (seen : List PointId)
      (described : table.Describes facts seen) :
      (rest.foldl (fun table point => if (facts point).isEmpty then table
        else table.insert point (facts point)) table).Describes facts (rest.reverse ++ seen) := by
    induction rest generalizing table seen with
    | nil => exact described
    | cons point others ih => simpa using ih _ _ (described.next point)
  have start : empty.Describes facts [] := by
    refine ⟨by simp [Filled, empty], fun point fact => ?_, fun point => ?_⟩
    · simp [FactTable.factsAt, handleAt, empty, Interner.facts]
    · simp [FactTable.reached, mem_ascending, empty]
  have all := fold points empty [] start
  rw [List.append_nil] at all
  exact all

theorem mem_factsAt_ofFacts {facts : PointId → List Fact} {points : List PointId} {point : PointId}
    {fact : Fact} :
    fact ∈ (ofFacts facts points).factsAt point ↔ point ∈ points ∧ fact ∈ facts point := by
  rw [(ofFacts_describes facts points).factsAt, List.mem_reverse]

theorem mem_reached_ofFacts {facts : PointId → List Fact} {points : List PointId}
    {point : PointId} :
    point ∈ (ofFacts facts points).reached ↔ point ∈ points ∧ facts point ≠ [] := by
  rw [(ofFacts_describes facts points).reached, List.mem_reverse]

end FactTable
end SeqSlice
