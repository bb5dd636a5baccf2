import SeqSlice.Fact.Basic

/-! A group of criteria, each a sequence of calls that a run should make in
order, and the relation by which a match may be extended at its head. -/

set_option autoImplicit false
namespace SeqSlice

/-- The extension relation by rows: the statements that may be put before a match
that begins with the key. Rows of one key count together. -/
structure Extension where
  rows : List (PointId × List PointId)
  deriving DecidableEq, Repr, Inhabited

namespace Extension

def empty : Extension := ⟨[]⟩

def isEmpty (extension : Extension) : Bool := extension.rows.isEmpty

def keys (extension : Extension) : List PointId := (extension.rows.map (·.1)).eraseDups

def before (extension : Extension) (point : PointId) : List PointId :=
  ((extension.rows.filter (·.1 == point)).flatMap (·.2)).eraseDups

theorem mem_keys {extension : Extension} {key : PointId} :
    key ∈ extension.keys ↔ ∃ row ∈ extension.rows, row.1 = key := by
  simp [keys]

theorem mem_before {extension : Extension} {key point : PointId} :
    point ∈ extension.before key ↔ ∃ row ∈ extension.rows, row.1 = key ∧ point ∈ row.2 := by
  simp only [before, List.mem_eraseDups, List.mem_flatMap, List.mem_filter, beq_iff_eq, and_assoc]

end Extension

structure Criteria where
  sequences : List Fact
  extension : Extension
  deriving Repr, Inhabited

namespace Criteria

/-- Empty and repeated criteria are left out. -/
def ofList (criteria : List Fact) : Criteria :=
  ⟨(criteria.filter fun criterion => !criterion.isEmpty).eraseDups, .empty⟩

theorem mem_sequences_ofList {criteria : List Fact} {fact : Fact} :
    fact ∈ (ofList criteria).sequences ↔ fact ∈ criteria ∧ fact.isEmpty = false := by
  simp [ofList]

variable (criteria : Criteria)

def hasExtension : Bool := !criteria.extension.isEmpty

def points : List PointId := (criteria.sequences.flatMap (·.points)).eraseDups

def heads : List PointId := (criteria.sequences.filterMap (·.head?)).eraseDups

def tails : List PointId := (criteria.sequences.filterMap (·.tail?)).eraseDups

/-- The calls that are taken as given and not looked into: all but the tails. -/
def specified : List PointId := criteria.points.filter fun point => !criteria.tails.contains point

def isPoint (point : PointId) : Bool := criteria.points.contains point
def isHead (point : PointId) : Bool := criteria.heads.contains point
def isTail (point : PointId) : Bool := criteria.tails.contains point
def isCriterion (fact : Fact) : Bool := criteria.sequences.contains fact

def followers (point : PointId) : List PointId → List Fact
  | [] => []
  | [_] => []
  | first :: rest =>
      if first = point then .seq rest :: followers point rest else followers point rest

/-- The rests of the criteria after an occurrence of the statement. -/
def follow (point : PointId) : List Fact :=
  (criteria.sequences.flatMap fun criterion => followers point criterion.points).eraseDups

/-- The statement may be put before the match: together they end a criterion. -/
def canAddHead (point : PointId) (fact : Fact) : Bool := (criteria.follow point).contains fact

/-- The statement extends the match. It must be new to the match, and the match
must not begin in the middle of a criterion. -/
def canExtend (point : PointId) (fact : Fact) : Bool :=
  match fact.head? with
  | none => false
  | some head =>
      !fact.contains point && (!criteria.isPoint head || criteria.isHead head) &&
        (criteria.extension.before head).contains point

def canRemoveHead (point : PointId) (fact : Fact) : Bool := fact.head? == some point

/-- The criteria of one tail; groups and members in order of first appearance. -/
def groups (criteria : List Fact) : List (PointId × List Fact) :=
  (criteria.filterMap (·.tail?)).eraseDups.map fun tail =>
    (tail, (criteria.filter fun criterion => criterion.tail? == some tail).eraseDups)

/-- The facts at the program's start from which the forward pass sets out. -/
def seeds (facts : List Fact) : List Fact :=
  Fact.sorted <|
    if criteria.hasExtension then
      -- What only ends another fact is dropped before anything is compared with criteria.
      (facts.filter fun fact => !facts.any fact.isStrictSuffixOf).filter fun fact =>
        criteria.sequences.any fun criterion => criterion == fact || criterion.isStrictSuffixOf fact
    else facts.filter criteria.isCriterion

end Criteria
end SeqSlice
