import SeqSlice.Program.Check
import SeqSlice.Text.Cut

/-! What a program answers about its statements, methods and classes. Lists are
in the order of the listing, and an entry that is listed twice is given once. -/

set_option autoImplicit false
namespace SeqSlice

namespace Class

def package (cls : Class) : String :=
  match Text.cutLast '.' cls.name.toList with
  | some (package, _) => String.ofList package
  | none => ""

def shortName (cls : Class) : String :=
  match Text.cutLast '.' cls.name.toList with
  | some (_, short) => String.ofList short
  | none => cls.name

end Class

namespace Listing

variable (listing : Listing)

def succs (point : PointId) : List PointId :=
  ((listing.edges.filter (·.source == point)).map (·.target)).eraseDups

def preds (point : PointId) : List PointId :=
  ((listing.edges.filter (·.target == point)).map (·.source)).eraseDups

end Listing

namespace Program

variable (program : Program)

def points : List Point := program.listing.points
def methods : List Method := program.listing.methods
def classes : List Class := program.listing.classes

def point? (point : PointId) : Option Point := program.listing.points[point]?
def method? (method : MethodId) : Option Method := program.listing.methods[method]?
def class? (cls : ClassId) : Option Class := program.listing.classes[cls]?
def allocSite? (site : SiteId) : Option AllocSite := program.listing.allocSites[site]?

def pointIds : List PointId := List.range program.points.length
def methodIds : List MethodId := List.range program.methods.length
def classIds : List ClassId := List.range program.classes.length

def methodOf? (point : PointId) : Option MethodId := (program.point? point).map (·.method)

def classOfMethod? (method : MethodId) : Option Class :=
  (program.method? method).bind fun found => program.class? found.cls

def callSite? (point : PointId) : Option CallSite :=
  (program.point? point).bind fun found => found.action.callSite?

def isCall (point : PointId) : Bool := (program.callSite? point).isSome

def isCatchEntry (point : PointId) : Bool :=
  (program.point? point).any fun found => found.action == .catchEntry

def body (method : MethodId) : List PointId :=
  ((program.method? method).map (·.body)).getD []

def hasBody (method : MethodId) : Bool := !(program.body method).isEmpty

def methodName (method : MethodId) : String :=
  ((program.method? method).map (·.name)).getD ""

def isConstructor (method : MethodId) : Bool := (program.method? method).any (·.isConstructor)

def isLibrary (method : MethodId) : Bool := (program.classOfMethod? method).any (·.isLibrary)

/-- Successors over all edges of the body, exceptional ones included. -/
def succs (point : PointId) : List PointId := program.listing.succs point

def preds (point : PointId) : List PointId := program.listing.preds point

def normalEdges : List FlowEdge := program.listing.edges.filter fun edge => !edge.exceptional

def normalSuccs (point : PointId) : List PointId :=
  ((program.normalEdges.filter (·.source == point)).map (·.target)).eraseDups

def normalPreds (point : PointId) : List PointId :=
  ((program.normalEdges.filter (·.target == point)).map (·.source)).eraseDups

/-- The statements of the body without predecessor; the first statement if all
have one. -/
def starts (method : MethodId) : List PointId :=
  match (program.body method).filter fun point => (program.preds point).isEmpty with
  | [] => (program.body method).take 1
  | heads => heads

def ends (method : MethodId) : List PointId :=
  (program.body method).filter fun point => (program.succs point).isEmpty

def callees (point : PointId) : List MethodId :=
  ((program.listing.calls.filter (·.site == point)).map (·.callee)).eraseDups

def callers (method : MethodId) : List PointId :=
  ((program.listing.calls.filter (·.callee == method)).map (·.site)).eraseDups

def methodsOfClass (cls : ClassId) : List MethodId :=
  (program.methods.filter (·.cls == cls)).map (·.id)

/-- Of two classes of one name, the later. -/
def classNamed? (name : String) : Option ClassId :=
  (program.classes.reverse.find? (·.name == name)).map (·.id)

def methodNamed? (cls : ClassId) (name : String) : Option MethodId :=
  (program.methods.find? fun method => method.cls == cls && method.name == name).map (·.id)

def methodsWithBodies : List MethodId :=
  (program.methods.filter (·.hasBody)).map (·.id)

def pointsTo (method : MethodId) (var : String) : List SiteId :=
  ((program.listing.pointsTo.filter fun row => row.method == method && row.var == var).flatMap
    (·.sites)).eraseDups

def qualifiedName? (method : MethodId) : Option String := do
  let found ← program.method? method
  let cls ← program.class? found.cls
  return s!"{cls.name}.{found.name}"

def label? (method : MethodId) : Option String := do
  let found ← program.method? method
  let cls ← program.class? found.cls
  return s!"<{cls.name}: {found.name}{found.signature}>"

end Program
end SeqSlice
