import SeqSlice.Fact.Coding
import SeqSlice.Program.Hierarchy

/-! A program as its readers see it: neighbours, calls and names, in JSON. -/

set_option autoImplicit false
namespace SeqSlice.Program

variable (program : Program)

def pointSummary (point : Point) : Json := .object [
  ("method", .ofNat point.method),
  ("call", .bool (program.isCall point.id)),
  ("line", .int point.line),
  ("succs", .ofIds (program.succs point.id)),
  ("preds", .ofIds (program.preds point.id)),
  ("normal_succs", .ofIds (program.normalSuccs point.id)),
  ("normal_preds", .ofIds (program.normalPreds point.id)),
  ("callees", .ofIds (program.callees point.id))]

def methodSummary (method : Method) : Json := .object [
  ("starts", .ofIds (program.starts method.id)),
  ("ends", .ofIds (program.ends method.id)),
  ("callers", .ofIds (program.callers method.id)),
  ("qualified", .ofOption .text (program.qualifiedName? method.id)),
  ("label", .ofOption .text (program.label? method.id)),
  ("library", .bool (program.isLibrary method.id)),
  ("has_body", .bool method.hasBody),
  ("constructor", .bool method.isConstructor)]

def classSummary (cls : Class) : Json := .object [
  ("package", .text cls.package),
  ("short", .text cls.shortName),
  ("application", .bool !cls.isLibrary),
  ("methods", .ofIds (program.methodsOfClass cls.id))]

def summary : List (String × Json) := [
  ("entry", .ofNat program.entry),
  ("points", .ofList program.pointSummary program.points),
  ("methods", .ofList program.methodSummary program.methods),
  ("classes", .ofList program.classSummary program.classes)]

end SeqSlice.Program
