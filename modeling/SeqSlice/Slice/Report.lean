import SeqSlice.Descriptor.Reader
import SeqSlice.Program.Hierarchy
import SeqSlice.Slice.Run

/-! A slice as text, and the name of the file it is written to. -/

set_option autoImplicit false
namespace SeqSlice

structure Report where
  slice : Slice
  name : String
  text : String
  deriving DecidableEq, Repr, Inhabited

namespace Report

def textLe (first second : String) : Bool := !decide (second < first)

def separator : String := "=========================================================="

variable (program : Program)

def shortName (method : MethodId) : Except UnknownId String := do
  let found ← program.knownMethod method
  let cls ← program.knownClass found.cls
  return s!"{cls.shortName}.{found.name}"

/-- `Caller.method;Callee.method;line[-ext]-all-MainClass.output` -/
def fileName (tail : PointId) (extend : Bool) : Except UnknownId String := do
  let point ← program.knownPoint tail
  let caller ← shortName program point.method
  let callee ← match point.action with
    | .call site => shortName program site.target
    | _ => pure "unknown"
  let entry ← program.knownMethod program.entry
  let main ← program.knownClass entry.cls
  let mark := if extend then "-ext" else ""
  return s!"{caller};{callee};{point.line}{mark}-all-{main.name}.output"

def label (method : MethodId) : Except UnknownId String :=
  match program.label? method with
  | some text => .ok text
  | none => .error (.method method)

def statementLine (point : PointId) : Except UnknownId String := do
  let found ← program.knownPoint point
  return s!"  {found.text} \x7bline: {found.line}\x7d\n"

def paragraph (title : String) (points : List PointId) : Except UnknownId String := do
  let lines ← points.mapM (statementLine program)
  return separator ++ "\n" ++ s!"Method: {title}\n" ++ "Units in the tailored program:\n" ++
    String.join lines

def render (slice : Slice) : Except UnknownId String := do
  let labelled ← slice.methods.mapM fun (method, points) => do
    return (← label program method, points)
  let ordered := labelled.mergeSort fun first second => textLe first.1 second.1
  return String.join (← ordered.mapM fun (title, points) => paragraph program title points)

def ofSlice (config : Config) (slice : Slice) : Except UnknownId Report := do
  return {
    slice
    name := ← fileName program slice.tail config.extendCriteria
    text := ← render program slice }

def ofCriteria (config : Config) (text : String) : Except Error (List Report) := do
  let criteria ← (program.readCriteria text).mapError Error.criteria
  let slices ← sliceAll program config (criteria.map (·.fact))
  (slices.mapM (ofSlice program config)).mapError Error.unknown

end Report
end SeqSlice
