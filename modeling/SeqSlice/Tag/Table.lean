import SeqSlice.Fact.Basic

/-! Tags on statements and methods, and the constructor call of each allocation.
The table is a relation, so tagging twice changes nothing. -/

set_option autoImplicit false
namespace SeqSlice

inductive Tag where
  | mainReachable
  | bottomUpReachable
  | branch
  /-- Inside a loop or, for methods, entered from inside one. -/
  | intraCycle
  /-- On or behind a recursive call. -/
  | interCycle
  deriving DecidableEq, Repr, Inhabited

namespace Tag

def all : List Tag := [.mainReachable, .bottomUpReachable, .branch, .intraCycle, .interCycle]

def name : Tag → String
  | .mainReachable => "MainReachable"
  | .bottomUpReachable => "BottomUpReachable"
  | .branch => "Branch"
  | .intraCycle => "IntraCycle"
  | .interCycle => "InterCycle"

end Tag

structure TagSet where
  tags : List Tag
  deriving DecidableEq, Repr, Inhabited

namespace TagSet

def empty : TagSet := ⟨[]⟩

def contains (set : TagSet) (tag : Tag) : Bool := set.tags.contains tag

def isEmpty (set : TagSet) : Bool := set.tags.isEmpty

def insert (set : TagSet) (tag : Tag) : TagSet :=
  if set.contains tag then set else ⟨tag :: set.tags⟩

def toList (set : TagSet) : List Tag := Tag.all.filter set.contains

end TagSet

structure TagTable where
  points : List (PointId × Tag)
  methods : List (MethodId × Tag)
  /-- The constructor call of an allocation, absent if none was found. The first
  entry of an allocation counts. -/
  constructorCalls : List (PointId × Option PointId)
  deriving DecidableEq, Repr, Inhabited

namespace TagTable

def empty : TagTable := ⟨[], [], []⟩

variable (table : TagTable)

def pointHas (point : PointId) (tag : Tag) : Bool := table.points.contains (point, tag)

def methodHas (method : MethodId) (tag : Tag) : Bool := table.methods.contains (method, tag)

def tagPoint (point : PointId) (tag : Tag) : TagTable :=
  if table.pointHas point tag then table else { table with points := (point, tag) :: table.points }

def tagMethod (method : MethodId) (tag : Tag) : TagTable :=
  if table.methodHas method tag then table
  else { table with methods := (method, tag) :: table.methods }

def tagPoints (points : List PointId) (tag : Tag) : TagTable :=
  points.foldl (fun table point => table.tagPoint point tag) table

def tagMethods (methods : List MethodId) (tag : Tag) : TagTable :=
  methods.foldl (fun table method => table.tagMethod method tag) table

def pointTags (point : PointId) : TagSet := ⟨Tag.all.filter (table.pointHas point)⟩

def methodTags (method : MethodId) : TagSet := ⟨Tag.all.filter (table.methodHas method)⟩

def pointsWith (tag : Tag) : List PointId :=
  ascending ((table.points.filter (·.2 == tag)).map (·.1))

def isPointTagged (point : PointId) : Bool := table.points.any (·.1 == point)
def isMethodTagged (method : MethodId) : Bool := table.methods.any (·.1 == method)

def setConstructorCall (alloc : PointId) (call : Option PointId) : TagTable :=
  { table with constructorCalls := (alloc, call) :: table.constructorCalls }

def constructorCall? (alloc : PointId) : Option (Option PointId) :=
  table.constructorCalls.lookup alloc

def allocationsAmong (points : List PointId) : List (PointId × Option PointId) :=
  points.filterMap fun alloc => (table.constructorCall? alloc).map fun call => (alloc, call)

end TagTable
end SeqSlice
