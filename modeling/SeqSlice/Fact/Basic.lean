import SeqSlice.Program.Basic

/-! Facts are partial matches of a sequence of calls. Read backwards they grow
at the head; read forwards they lose their head with each call that is matched,
and the last one leaves `epsilon`. -/

set_option autoImplicit false
namespace SeqSlice

inductive Fact where
  /-- The match is complete. Not the same as the empty sequence. -/
  | epsilon
  | seq (points : List PointId)
  deriving DecidableEq, Repr, Inhabited

namespace Fact

/-- The fact that holds wherever execution gets at all. -/
def zero : Fact := .seq []

def points : Fact → List PointId
  | .epsilon => []
  | .seq points => points

def isEpsilon : Fact → Bool
  | .epsilon => true
  | .seq _ => false

def isZero : Fact → Bool
  | .seq [] => true
  | _ => false

def isEmpty (fact : Fact) : Bool := fact.points.isEmpty

def length (fact : Fact) : Nat := fact.points.length

def head? (fact : Fact) : Option PointId := fact.points.head?

def tail? (fact : Fact) : Option PointId := fact.points.getLast?

def contains (fact : Fact) (point : PointId) : Bool := fact.points.contains point

def addHead (fact : Fact) (point : PointId) : Fact := .seq (point :: fact.points)

/-- Without the first call. Nothing is left of zero and of `epsilon` to remove,
and a single call leaves `epsilon`. -/
def removeHead : Fact → Fact
  | .seq [_] => .epsilon
  | .seq (_ :: rest) => .seq rest
  | fact => fact

/-- The same calls, so that zero and `epsilon` count as one. -/
def sameContent (first second : Fact) : Bool := first.points == second.points

def isStrictSuffixOf (first second : Fact) : Bool :=
  decide (first.length < second.length) && first.points.isSuffixOf second.points

theorem isZero_iff {fact : Fact} : fact.isZero = true ↔ fact = zero := by
  cases fact with
  | epsilon => simp [isZero, zero]
  | seq points => cases points <;> simp [isZero, zero]

def comparePoints : List PointId → List PointId → Ordering
  | [], [] => .eq
  | [], _ :: _ => .lt
  | _ :: _, [] => .gt
  | first :: rest, second :: others =>
      if first < second then .lt else if second < first then .gt else comparePoints rest others

def order : Fact → Fact → Ordering
  | .epsilon, .epsilon => .eq
  | .epsilon, .seq _ => .lt
  | .seq _, .epsilon => .gt
  | .seq first, .seq second => comparePoints first second

def le (first second : Fact) : Bool := (order first second).isLE

def sorted (facts : List Fact) : List Fact := facts.eraseDups.mergeSort le

theorem mem_sorted {facts : List Fact} {fact : Fact} : fact ∈ sorted facts ↔ fact ∈ facts := by
  simp [sorted, List.mem_mergeSort]

def debugText : Fact → String
  | .epsilon => "Epsilon"
  | .seq points => "[" ++ String.intercalate ", " (points.map fun point => s!"PointId({point})") ++ "]"

end Fact

def ascending (points : List Nat) : List Nat := points.eraseDups.mergeSort Nat.ble

theorem mem_ascending {points : List Nat} {point : Nat} :
    point ∈ ascending points ↔ point ∈ points := by
  simp [ascending, List.mem_mergeSort]

end SeqSlice
