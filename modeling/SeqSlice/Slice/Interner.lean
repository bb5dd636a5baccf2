import SeqSlice.Fact.Basic

/-! Sets of facts shared by content. A set is known by its facts in order, so
equal sets get the same handle. The empty set that stands for statements without
an entry is a set of its own. -/

set_option autoImplicit false
namespace SeqSlice

inductive SetHandle where
  | absent
  | stored (position : Nat)
  deriving DecidableEq, Repr, Inhabited

structure Interner where
  sets : List (List Fact)
  lookups : Nat
  hits : Nat
  deriving DecidableEq, Repr, Inhabited

namespace Interner

def empty : Interner := ⟨[], 0, 0⟩

variable (interner : Interner)

def intern (facts : List Fact) : SetHandle × Interner :=
  let key := Fact.sorted facts
  match interner.sets.findIdx? (· == key) with
  | some position =>
      (.stored position, { interner with lookups := interner.lookups + 1, hits := interner.hits + 1 })
  | none =>
      (.stored interner.sets.length,
        { interner with sets := interner.sets ++ [key], lookups := interner.lookups + 1 })

def facts (handle : SetHandle) : List Fact :=
  match handle with
  | .absent => []
  | .stored position => interner.sets[position]?.getD []

end Interner

structure FactTable where
  interner : Interner
  /-- The last entry of a statement stands first. -/
  entries : List (PointId × SetHandle)
  deriving DecidableEq, Repr, Inhabited

namespace FactTable

def empty : FactTable := ⟨Interner.empty, []⟩

variable (table : FactTable)

def insert (point : PointId) (facts : List Fact) : FactTable :=
  let (handle, interner) := table.interner.intern facts
  ⟨interner, (point, handle) :: table.entries.filter (·.1 != point)⟩

def handleAt (point : PointId) : SetHandle := (table.entries.lookup point).getD .absent

def factsAt (point : PointId) : List Fact := table.interner.facts (table.handleAt point)

def reached : List PointId := ascending (table.entries.map (·.1))

def size : Nat := table.entries.length

def ofFacts (facts : PointId → List Fact) (points : List PointId) : FactTable :=
  points.foldl (fun table point =>
    if (facts point).isEmpty then table else table.insert point (facts point)) empty

end FactTable
end SeqSlice
