import SeqSlice.Descriptor.Basic
import SeqSlice.Fact.Basic
import SeqSlice.Program.Query

/-! Criteria as text: one sequence of calls a line, its descriptors divided by
semicolons. A line is dropped if one of its calls is not found. -/

set_option autoImplicit false
namespace SeqSlice

structure SequenceCriterion where
  line : Nat
  calls : List CallDescriptor
  points : List PointId
  deriving DecidableEq, Repr, Inhabited

namespace SequenceCriterion

def fact (criterion : SequenceCriterion) : Fact := .seq criterion.points

def tail? (criterion : SequenceCriterion) : Option PointId := criterion.points.getLast?

end SequenceCriterion

namespace Program

variable (program : Program)

def isDescribed (descriptor : CallDescriptor) (point : PointId) : Bool :=
  (program.point? point).any fun found =>
    descriptor.matchesLine found.line &&
      found.action.callSite?.any fun site =>
        (program.classOfMethod? site.target).any fun cls =>
          descriptor.callee.names cls.name (program.methodName site.target)

def callerBodies (cls : ClassId) (name : String) : List PointId :=
  (program.methods.filter fun method =>
    method.cls == cls && method.name == name && !method.isAbstract).flatMap (·.body)

/-- The first call that fits. A class that the program does not have is an error;
a call that it does not have is none. -/
def findCall (descriptor : CallDescriptor) (line : Nat) : Except CriteriaError (Option PointId) :=
  match program.classNamed? descriptor.caller.cls with
  | none => .error (.unknownClass descriptor.caller.cls line)
  | some cls =>
      .ok ((program.callerBodies cls descriptor.caller.name).find? (program.isDescribed descriptor))

def findCalls (line : Nat) : List CallDescriptor → Except CriteriaError (Option (List PointId))
  | [] => .ok (some [])
  | descriptor :: rest => do
      match ← program.findCall descriptor line with
      -- Calls behind one that is not found are not looked for.
      | none => return none
      | some point => return (← findCalls line rest).map (point :: ·)

def lineDescriptors (text : List Char) : Except CriteriaError (List CallDescriptor) :=
  (((text.splitOn ';').map Text.trim).filter fun field => !field.isEmpty).mapM CallDescriptor.parse

def readLine (line : Nat) (text : List Char) : Except CriteriaError (Option SequenceCriterion) := do
  let calls ← lineDescriptors text
  if calls.isEmpty then return none
  return (← program.findCalls line calls).map fun points => { line, calls, points }

def readLines (line : Nat) : List (List Char) → Except CriteriaError (List SequenceCriterion)
  | [] => .ok []
  | first :: rest => do
      let found ← program.readLine line first
      let others ← readLines (line + 1) rest
      return found.toList ++ others

def readCriteria (text : String) : Except CriteriaError (List SequenceCriterion) :=
  program.readLines 1 (text.toList.splitOn '\n')

end Program
end SeqSlice
