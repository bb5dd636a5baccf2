import SeqSlice.CallGraph.Basic
import SeqSlice.Proofs.Flow.NaturalLoop

/-! An order of the nodes in which each loop is in one piece.

Forward edges without cycles give every node a rank. A node is placed by the ranks
of the headers of its loops, the outermost first, and then by its own rank; places
are compared like words in a dictionary. Forward edges lead to later places, and
so does an edge from any node of a loop to where the loop is left. -/

set_option autoImplicit false
namespace SeqSlice

variable {edge : Nat → Nat → Prop} {root : Nat}

theorem exists_rank {nodes : List Nat}
    (source : ∀ source target, edge source target → source ∈ nodes)
    (acyclic : ∀ node, ¬ Relation.TransGen (Forward edge root) node node) :
    ∃ rank : Nat → Nat, ∀ source target, Forward edge root source target →
      rank source < rank target := by
  classical
  refine ⟨fun node => nodes.countP fun other =>
    decide (Relation.TransGen (Forward edge root) other node), fun before after along => ?_⟩
  -- The rank of a node is the number of nodes from which it is reached.
  refine CallSource.countP_lt_countP ?_ (source before after along.1) ?_ ?_
  · intro other _ reaches
    exact decide_eq_true ((of_decide_eq_true reaches).tail along)
  · exact decide_eq_true (.single along)
  · exact fun reaches => acyclic before (of_decide_eq_true reaches)

/-- Loops with ranks; the headers are given by rank. -/
structure LoopNest (edge : Nat → Nat → Prop) (root : Nat) (headers : List Nat)
    (loop : Nat → List Nat) (rank : Nat → Nat) : Prop where
  isLoop : ∀ header ∈ headers, IsLoop edge root header (loop header)
  ranked : ∀ source target, Forward edge root source target → rank source < rank target
  sorted : headers.Pairwise fun first second => rank first ≤ rank second

def place (headers : List Nat) (loop : Nat → List Nat) (rank : Nat → Nat) (node : Nat) : List Nat :=
  (headers.filter fun header => node ∈ loop header).map rank ++ [rank node]

namespace LoopNest

variable {headers : List Nat} {loop : Nat → List Nat} {rank : Nat → Nat}

theorem tail {header : Nat} (nest : LoopNest edge root (header :: headers) loop rank) :
    LoopNest edge root headers loop rank where
  isLoop inner member := nest.isLoop inner (List.mem_cons_of_mem _ member)
  ranked := nest.ranked
  sorted := (List.pairwise_cons.mp nest.sorted).2

theorem rank_le_of_walk (nest : LoopNest edge root headers loop rank) {first last : Nat}
    (walk : Relation.ReflTransGen (Forward edge root) first last) : rank first ≤ rank last := by
  induction walk with
  | refl => exact Nat.le_refl _
  | tail _ along ih => exact Nat.le_trans ih (Nat.le_of_lt (nest.ranked _ _ along))

theorem rank_header_le (nest : LoopNest edge root headers loop rank) {header node : Nat}
    (member : header ∈ headers) (inside : node ∈ loop header) : rank header ≤ rank node :=
  nest.rank_le_of_walk ((nest.isLoop header member).dominated node inside).forward

/-- Of two loops that share a node, the one that holds more has the earlier header. -/
theorem rank_lt_of_not_subset (nest : LoopNest edge root headers loop rank)
    {inner outer shared other : Nat} (innerMem : inner ∈ headers) (outerMem : outer ∈ headers)
    (inInner : shared ∈ loop inner) (inOuter : shared ∈ loop outer) (otherIn : other ∈ loop outer)
    (otherOut : other ∉ loop inner) : rank outer < rank inner := by
  have different : inner ≠ outer := fun same => otherOut (same ▸ otherIn)
  have innerLoop := nest.isLoop inner innerMem
  have outerLoop := nest.isLoop outer outerMem
  rcases (innerLoop.dominated shared inInner).total (outerLoop.dominated shared inOuter) with
    above | below
  · exact absurd (innerLoop.nested outerLoop above different inInner inOuter other otherIn) otherOut
  · -- The outer header comes first on a walk to the inner one.
    rcases Relation.ReflTransGen.cases_head below.forward with same | ⟨next, along, rest⟩
    · exact absurd same.symm different
    · exact Nat.lt_of_lt_of_le (nest.ranked _ _ along) (nest.rank_le_of_walk rest)

theorem subset_of_later {header : Nat} (nest : LoopNest edge root (header :: headers) loop rank)
    {later shared other : Nat} (member : later ∈ headers) (inFirst : shared ∈ loop header)
    (inLater : shared ∈ loop later) (otherIn : other ∈ loop later) : other ∈ loop header := by
  by_contra otherOut
  have smaller := nest.rank_lt_of_not_subset List.mem_cons_self (List.mem_cons_of_mem _ member)
    inFirst inLater otherIn otherOut
  have larger := (List.pairwise_cons.mp nest.sorted).1 later member
  omega

end LoopNest

/-- The source shares with the gate a loop that the target is not in, or it is the
gate. -/
def Beside (headers : List Nat) (loop : Nat → List Nat) (source gate target : Nat) : Prop :=
  gate = source ∨
    ∃ header ∈ headers, source ∈ loop header ∧ gate ∈ loop header ∧ target ∉ loop header

namespace LoopNest

variable {headers : List Nat} {loop : Nat → List Nat} {rank : Nat → Nat}

theorem place_eq_cons (headers : List Nat) (loop : Nat → List Nat) (rank : Nat → Nat) (node : Nat) :
    ∃ entry rest, place headers loop rank node = entry :: rest ∧
      ((entry = rank node ∧ ∀ header ∈ headers, node ∉ loop header) ∨
        ∃ header before after, headers = before ++ header :: after ∧ entry = rank header ∧
          node ∈ loop header ∧ ∀ other ∈ before, node ∉ loop other) := by
  induction headers with
  | nil => exact ⟨rank node, [], rfl, .inl ⟨rfl, by simp⟩⟩
  | cons first others ih =>
      by_cases inside : node ∈ loop first
      · exact ⟨rank first, place others loop rank node, by simp [place, inside],
          .inr ⟨first, [], others, rfl, rfl, inside, by simp⟩⟩
      · obtain ⟨entry, rest, same, found⟩ := ih
        refine ⟨entry, rest, by simpa [place, inside] using same, ?_⟩
        rcases found with ⟨own, none⟩ | ⟨header, before, after, rfl, found, holds, none⟩
        · exact .inl ⟨own, by simpa [inside] using none⟩
        · exact .inr ⟨header, first :: before, after, rfl, found, holds, by simpa [inside] using none⟩

theorem gate_mem {header : Nat} (nest : LoopNest edge root (header :: headers) loop rank)
    {source gate target : Nat} (beside : Beside (header :: headers) loop source gate target)
    (inside : source ∈ loop header) : gate ∈ loop header := by
  rcases beside with rfl | ⟨other, member, sourceIn, gateIn, _⟩
  · exact inside
  · rcases List.mem_cons.mp member with rfl | later
    · exact gateIn
    · exact nest.subset_of_later later inside sourceIn gateIn

theorem gate_not_mem {header : Nat} (nest : LoopNest edge root (header :: headers) loop rank)
    {source gate target : Nat} (beside : Beside (header :: headers) loop source gate target)
    (outside : source ∉ loop header) (inside : target ∈ loop header) : gate ∉ loop header := by
  intro gateIn
  rcases beside with rfl | ⟨other, member, sourceIn, gateAlso, targetOut⟩
  · exact outside gateIn
  · rcases List.mem_cons.mp member with rfl | later
    · exact outside sourceIn
    · exact outside (nest.subset_of_later later gateIn gateAlso sourceIn)

theorem beside_tail {header : Nat} {source gate target : Nat}
    (beside : Beside (header :: headers) loop source gate target)
    (same : source ∈ loop header → target ∈ loop header) :
    Beside headers loop source gate target := by
  rcases beside with own | ⟨other, member, sourceIn, gateIn, targetOut⟩
  · exact .inl own
  · rcases List.mem_cons.mp member with rfl | later
    · exact absurd (same sourceIn) targetOut
    · exact .inr ⟨other, later, sourceIn, gateIn, targetOut⟩

theorem drop {before : List Nat} (nest : LoopNest edge root (before ++ headers) loop rank) :
    LoopNest edge root headers loop rank := by
  induction before with
  | nil => exact nest
  | cons first rest ih => exact ih nest.tail

/-- If the target leaves a loop of the source here, it stands behind the loop. -/
theorem lt_place_of_leaves {header : Nat} (nest : LoopNest edge root (header :: headers) loop rank)
    {source gate target : Nat} (passes : Forward edge root gate target)
    (beside : Beside (header :: headers) loop source gate target) (inside : source ∈ loop header)
    (outside : target ∉ loop header) :
    ∃ entry rest, place headers loop rank target = entry :: rest ∧ rank header < entry := by
  have gateIn := nest.gate_mem beside inside
  have gateBelow := nest.rank_header_le List.mem_cons_self gateIn
  have passed := nest.ranked _ _ passes
  obtain ⟨entry, rest, same, found⟩ := place_eq_cons headers loop rank target
  refine ⟨entry, rest, same, ?_⟩
  rcases found with ⟨rfl, _⟩ | ⟨inner, before, after, rfl, rfl, targetIn, _⟩
  · omega
  · -- The target is in a later loop, which the gate is not in: it is the header.
    have member : inner ∈ before ++ inner :: after := by simp
    have gateOut : gate ∉ loop inner := fun gateAlso =>
      outside (nest.subset_of_later member gateIn gateAlso targetIn)
    have isHeader : target = inner :=
      (nest.isLoop inner (List.mem_cons_of_mem _ member)).enters_at_header passes.1 gateOut targetIn
    rw [← isHeader]
    omega

/-- If the target enters a loop that the source is not in, it is the header, and
the source stands before it. -/
theorem place_lt_of_enters {header : Nat} (nest : LoopNest edge root (header :: headers) loop rank)
    {source gate target : Nat} (passes : Forward edge root gate target)
    (beside : Beside (header :: headers) loop source gate target) (outside : source ∉ loop header)
    (inside : target ∈ loop header) :
    ∃ entry rest, place headers loop rank source = entry :: rest ∧ entry < rank header := by
  have gateOut := nest.gate_not_mem beside outside inside
  have isHeader : target = header :=
    (nest.isLoop header List.mem_cons_self).enters_at_header passes.1 gateOut inside
  subst isHeader
  have passed := nest.ranked _ _ passes
  have later := beside_tail beside fun inside => absurd inside outside
  obtain ⟨entry, rest, same, found⟩ := place_eq_cons headers loop rank source
  refine ⟨entry, rest, same, ?_⟩
  rcases found with ⟨rfl, none⟩ | ⟨outer, before, after, rfl, rfl, sourceIn, none⟩
  · rcases later with rfl | ⟨other, member, sourceIn, _⟩
    · exact passed
    · exact absurd sourceIn (none other member)
  · -- The loops before this one do not hold the source, so they can be left out.
    have here : Beside (outer :: after) loop source gate target := by
      rcases later with own | ⟨other, member, sourceAlso, gateIn, targetOut⟩
      · exact .inl own
      · rcases List.mem_append.mp member with early | here
        · exact absurd sourceAlso (none other early)
        · exact .inr ⟨other, here, sourceAlso, gateIn, targetOut⟩
    have innerNest : LoopNest edge root (outer :: after) loop rank := nest.tail.drop
    have gateIn := innerNest.gate_mem here sourceIn
    have gateBelow := innerNest.rank_header_le List.mem_cons_self gateIn
    omega

/-- An edge beside a forward edge leads to a later place. -/
theorem place_lt (nest : LoopNest edge root headers loop rank) {source gate target : Nat}
    (passes : Forward edge root gate target) (beside : Beside headers loop source gate target) :
    place headers loop rank source < place headers loop rank target := by
  induction headers with
  | nil =>
      rcases beside with rfl | ⟨other, none, _⟩
      · simpa [place, List.cons_lt_cons_iff] using nest.ranked _ _ passes
      · simp at none
  | cons header others ih =>
      -- If the first loop holds both or neither, then the other loops decide.
      by_cases sourceIn : source ∈ loop header
      · by_cases targetIn : target ∈ loop header
        · have inner := ih nest.tail (beside_tail beside fun _ => targetIn)
          simpa [place, sourceIn, targetIn, List.cons_lt_cons_iff] using inner
        · obtain ⟨entry, rest, same, smaller⟩ :=
            nest.lt_place_of_leaves passes beside sourceIn targetIn
          have skipped : place (header :: others) loop rank target = entry :: rest := by
            simpa [place, targetIn] using same
          rw [skipped]
          simp [place, sourceIn, List.cons_lt_cons_iff, smaller]
      · by_cases targetIn : target ∈ loop header
        · obtain ⟨entry, rest, same, smaller⟩ :=
            nest.place_lt_of_enters passes beside sourceIn targetIn
          have skipped : place (header :: others) loop rank source = entry :: rest := by
            simpa [place, sourceIn] using same
          rw [skipped]
          simp [place, targetIn, List.cons_lt_cons_iff, smaller]
        · have inner := ih nest.tail (beside_tail beside fun inside => absurd inside sourceIn)
          simpa [place, sourceIn, targetIn] using inner

end LoopNest
end SeqSlice
