import SeqSlice.Text.Blank
import SeqSlice.Text.Cut

/-! Methods named by class and name, whatever their overload. -/

set_option autoImplicit false
namespace SeqSlice

structure MethodName where
  cls : String
  name : String
  deriving DecidableEq, Repr, Inhabited

namespace MethodName

def render (method : MethodName) : String := method.cls ++ "." ++ method.name

/-- The text is trimmed and cut at its last dot, and neither part may be empty. -/
def parse? (text : String) : Option MethodName :=
  match Text.cutLast '.' (Text.trim text.toList) with
  | some (cls, name) =>
      if cls.isEmpty || name.isEmpty then none
      else some ⟨String.ofList cls, String.ofList name⟩
  | none => none

def names (method : MethodName) (cls name : String) : Bool :=
  method.cls == cls && method.name == name

end MethodName
end SeqSlice
