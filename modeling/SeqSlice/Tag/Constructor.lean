import SeqSlice.Graph.Search
import SeqSlice.Program.Query

/-! The constructor call that initializes an allocated object. -/

set_option autoImplicit false
namespace SeqSlice.Program

variable (program : Program)

def isConstructorCallOn (var : String) (point : PointId) : Bool :=
  match program.callSite? point with
  | some site =>
      site.invoke.isInstance && site.receiver == some var && program.isConstructor site.target
  | none => false

/-- The first such call that a depth-first walk along normal edges meets. -/
def constructorCall? (alloc : PointId) (var : String) : Option PointId :=
  (Graph.visit .stack program.normalSuccs program.pointIds [alloc]).find?
    (program.isConstructorCallOn var)

def constructorCalls (method : MethodId) : List (PointId × Option PointId) :=
  (program.body method).filterMap fun point =>
    (program.point? point).bind fun found =>
      match found.action with
      | .new var _ => some (point, program.constructorCall? point var)
      | _ => none

end SeqSlice.Program
