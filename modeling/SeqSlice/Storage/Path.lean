/-! Paths as they are written. The parts of a path stand between its slashes; empty
parts and single dots lead nowhere, so the steps of a path are the others. -/

set_option autoImplicit false
namespace SeqSlice.Path

def isAbsolute (path : String) : Bool := path.toList.head? == some '/'

def parts (path : String) : List String := (path.toList.splitOn '/').map String.ofList

def isIdle (part : String) : Bool := part == "" || part == "."

def steps (path : String) : List String := (parts path).filter fun part => !isIdle part

def endsInDot (path : String) : Bool :=
  ((parts path).filter (· != "")).getLast? == some "."

/-- The name of the file that the path leads to; absent if it can only lead to a
folder. -/
def fileName? (path : String) : Option String :=
  (parts path).getLast?.filter fun part => !isIdle part && part != ".."

def maxBytes : Nat := 4095

def maxNameBytes : Nat := 255

def isUsable (path : String) : Bool :=
  path != "" && decide (path.utf8ByteSize ≤ maxBytes) && !path.toList.contains '\x00'

def isName (part : String) : Bool := decide (part.utf8ByteSize ≤ maxNameBytes)

def join (base path : String) : String :=
  if isAbsolute path || base.isEmpty then path
  else if base.toList.getLast? == some '/' then base ++ path
  else base ++ "/" ++ path

def trimStart (path : String) : String :=
  String.intercalate "/" ((parts path).dropWhile isIdle)

end SeqSlice.Path
