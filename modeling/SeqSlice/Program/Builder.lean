import SeqSlice.Program.Check

/-! Building a listing step by step. A new item takes the next free id, and a
new statement goes to the end of its method's body. -/

set_option autoImplicit false
namespace SeqSlice

inductive BuildStep where
  | addClass (name : String) (isInterface isLibrary : Bool)
  | setSuper (sub sup : ClassId)
  | addInterface (cls iface : ClassId)
  | addMethod (cls : ClassId) (name : String) (isStatic isAbstract : Bool)
  | setSignature (method : MethodId) (signature : String)
  | setEntry (method : MethodId)
  | addPoint (method : MethodId) (line : Int) (action : Action)
  | setArgs (point : PointId) (args : List String)
  | setAssigned (point : PointId) (var : String)
  | addEdge (source target : PointId) (exceptional : Bool)
  | addChain (points : List PointId)
  | addCall (site : PointId) (callee : MethodId)
  | addSite (point : PointId) (cls : ClassId)
  | addPointsTo (method : MethodId) (var : String) (sites : List SiteId)
  deriving DecidableEq, Repr, Inhabited

inductive Created where
  | cls (id : ClassId)
  | method (id : MethodId)
  | point (id : PointId)
  | site (id : SiteId)
  deriving DecidableEq, Repr, Inhabited

def Created.text : Created → String
  | .cls id => s!"c{id}"
  | .method id => s!"m{id}"
  | .point id => s!"p{id}"
  | .site id => s!"h{id}"

namespace Listing

variable (listing : Listing)

def className (cls : ClassId) : Except UnknownId String :=
  match listing.classes[cls]? with
  | some found => .ok found.name
  | none => .error (.cls cls)

def describe : Action → Except UnknownId String
  | .plain => .ok "stmt"
  | .nop => .ok "nop"
  | .catchEntry => .ok "@caughtexception"
  | .new var cls => do
      let name ← listing.className cls
      return s!"{var} = new {name}"
  | .call site => do
      let target ← match listing.methods[site.target]? with
        | some found => Except.ok found
        | none => .error (.method site.target)
      let name ← listing.className target.cls
      match site.receiver with
      | some receiver => return s!"{receiver}.<{name}: {target.name}>()"
      | none => return s!"<{name}: {target.name}>()"

def editClass (cls : ClassId) (edit : Class → Class) : Except UnknownId Listing :=
  if listing.hasClass cls then .ok { listing with classes := listing.classes.modify cls edit }
  else .error (.cls cls)

def editMethod (method : MethodId) (edit : Method → Method) : Except UnknownId Listing :=
  if listing.hasMethod method then
    .ok { listing with methods := listing.methods.modify method edit }
  else .error (.method method)

def editCall (point : PointId) (edit : CallSite → CallSite) : Except UnknownId Listing :=
  if listing.hasPoint point then
    .ok { listing with points := listing.points.modify point fun found =>
      match found.action with
      | .call site => { found with action := .call (edit site) }
      | _ => found }
  else .error (.point point)

def newPoint (method : MethodId) (line : Int) (action : Action) :
    Except UnknownId (Listing × PointId) := do
  let id := listing.points.length
  let text ← listing.describe action
  let point : Point := ⟨id, method, line, action, text⟩
  let grown := { listing with points := listing.points ++ [point] }
  let grown ← grown.editMethod method fun found => { found with body := found.body ++ [id] }
  return (grown, id)

def chainEdges (points : List PointId) : List FlowEdge :=
  (points.zip points.tail).map fun (source, target) => ⟨source, target, false⟩

def build (step : BuildStep) : Except UnknownId (Listing × Option Created) :=
  match step with
  | .addClass name isInterface isLibrary =>
      let id := listing.classes.length
      .ok ({ listing with
        classes := listing.classes ++ [⟨id, name, none, [], isInterface, isLibrary⟩] },
        some (.cls id))
  | .setSuper sub sup => do
      return (← listing.editClass sub fun cls => { cls with superClass := some sup }, none)
  | .addInterface cls iface => do
      return (← listing.editClass cls fun found =>
        { found with interfaces := found.interfaces ++ [iface] }, none)
  | .addMethod cls name isStatic isAbstract =>
      let id := listing.methods.length
      .ok ({ listing with
        methods := listing.methods ++ [⟨id, cls, name, "()", isStatic, isAbstract, []⟩] },
        some (.method id))
  | .setSignature method signature => do
      return (← listing.editMethod method fun found => { found with signature }, none)
  | .setEntry method => .ok ({ listing with entry := some method }, none)
  | .addPoint method line action => do
      let (grown, id) ← listing.newPoint method line action
      return (grown, some (.point id))
  | .setArgs point args => do
      return (← listing.editCall point fun site => { site with args }, none)
  | .setAssigned point var => do
      return (← listing.editCall point fun site => { site with assigned := some var }, none)
  | .addEdge source target exceptional =>
      .ok ({ listing with edges := listing.edges ++ [⟨source, target, exceptional⟩] }, none)
  | .addChain points =>
      .ok ({ listing with edges := listing.edges ++ chainEdges points }, none)
  | .addCall site callee =>
      .ok ({ listing with calls := listing.calls ++ [⟨site, callee⟩] }, none)
  | .addSite point cls =>
      let id := listing.allocSites.length
      .ok ({ listing with allocSites := listing.allocSites ++ [⟨id, point, cls⟩] },
        some (.site id))
  | .addPointsTo method var sites =>
      .ok ({ listing with pointsTo := listing.pointsTo ++ [⟨method, var, sites⟩] }, none)

def buildAll (listing : Listing) :
    List BuildStep → Except UnknownId (Listing × List (Option Created))
  | [] => .ok (listing, [])
  | step :: rest => do
      let (grown, created) ← listing.build step
      let (final, others) ← buildAll grown rest
      return (final, created :: others)

end Listing
end SeqSlice
