import SeqSlice.Program.Basic

/-! A program is a listing without defects. The defects of a listing are listed
in the order in which they are looked for, so the first one is the one that is
reported. -/

set_option autoImplicit false
namespace SeqSlice

inductive Defect where
  | noEntry
  | entryOutOfRange (entry : MethodId)
  | classMisplaced (id : ClassId) (position : Nat)
  | unknownSupertype (name : String)
  | malformedMethod (id : MethodId)
  | foreignPoint (method : String) (point : PointId)
  | malformedPoint (id : PointId)
  | unknownTarget (point : PointId) (target : MethodId)
  | edgeOutOfRange (source target : PointId)
  | edgeCrossesMethods (source target : PointId)
  | callOutOfRange (site : PointId) (callee : MethodId)
  | malformedSite (id : SiteId)
  | unknownSite (var : String) (method : MethodId)
  deriving DecidableEq, Repr, Inhabited

def Defect.message : Defect → String
  | .noEntry => "no entry method"
  | .entryOutOfRange entry => s!"entry m{entry} out of range"
  | .classMisplaced id position => s!"class c{id} stored at {position}"
  | .unknownSupertype name => s!"class {name} has an unknown supertype"
  | .malformedMethod id => s!"malformed method m{id}"
  | .foreignPoint method point => s!"body of {method} lists foreign point p{point}"
  | .malformedPoint id => s!"malformed point p{id}"
  | .unknownTarget point target => s!"call at p{point} targets unknown method m{target}"
  | .edgeOutOfRange source target => s!"edge p{source} -> p{target} out of range"
  | .edgeCrossesMethods source target =>
      s!"intraprocedural edge p{source} -> p{target} crosses methods"
  | .callOutOfRange site callee => s!"call edge p{site} -> m{callee} out of range"
  | .malformedSite id => s!"malformed allocation site h{id}"
  | .unknownSite var method =>
      s!"points-to set of {var} in m{method} names an unknown site"

namespace Listing

variable (listing : Listing)

def hasClass (id : ClassId) : Bool := decide (id < listing.classes.length)
def hasMethod (id : MethodId) : Bool := decide (id < listing.methods.length)
def hasPoint (id : PointId) : Bool := decide (id < listing.points.length)
def hasSite (id : SiteId) : Bool := decide (id < listing.allocSites.length)

def ownerOf? (point : PointId) : Option MethodId := listing.points[point]?.map (·.method)

def entryDefects : List Defect :=
  match listing.entry with
  | none => [.noEntry]
  | some entry => if listing.hasMethod entry then [] else [.entryOutOfRange entry]

def supertypes (cls : Class) : List ClassId := cls.superClass.toList ++ cls.interfaces

def classDefects (cls : Class) (position : Nat) : List Defect :=
  if cls.id ≠ position then [.classMisplaced cls.id position]
  else if (supertypes cls).all listing.hasClass then [] else [.unknownSupertype cls.name]

def methodDefects (method : Method) (position : Nat) : List Defect :=
  if method.id ≠ position ∨ listing.hasClass method.cls = false then [.malformedMethod method.id]
  else
    (method.body.filter fun point => listing.ownerOf? point ≠ some method.id).map
      (.foreignPoint method.name)

def pointDefects (point : Point) (position : Nat) : List Defect :=
  if point.id ≠ position ∨ listing.hasMethod point.method = false then [.malformedPoint point.id]
  else
    match point.action with
    | .call site =>
        if listing.hasMethod site.target then [] else [.unknownTarget point.id site.target]
    | _ => []

def edgeDefects (edge : FlowEdge) : List Defect :=
  if listing.hasPoint edge.source = false ∨ listing.hasPoint edge.target = false then
    [.edgeOutOfRange edge.source edge.target]
  else if listing.ownerOf? edge.source ≠ listing.ownerOf? edge.target then
    [.edgeCrossesMethods edge.source edge.target]
  else []

def callDefects (call : CallEdge) : List Defect :=
  if listing.hasPoint call.site && listing.hasMethod call.callee then []
  else [.callOutOfRange call.site call.callee]

def siteDefects (site : AllocSite) (position : Nat) : List Defect :=
  if site.id = position ∧ listing.hasPoint site.point = true ∧ listing.hasClass site.cls = true then []
  else [.malformedSite site.id]

def pointsToDefects (row : PointsTo) : List Defect :=
  if row.sites.all listing.hasSite then [] else [.unknownSite row.var row.method]

def defects : List Defect :=
  listing.entryDefects ++
  listing.classes.zipIdx.flatMap (fun (cls, position) => listing.classDefects cls position) ++
  listing.methods.zipIdx.flatMap (fun (method, position) => listing.methodDefects method position) ++
  listing.points.zipIdx.flatMap (fun (point, position) => listing.pointDefects point position) ++
  listing.edges.flatMap listing.edgeDefects ++
  listing.calls.flatMap listing.callDefects ++
  listing.allocSites.zipIdx.flatMap (fun (site, position) => listing.siteDefects site position) ++
  listing.pointsTo.flatMap listing.pointsToDefects

end Listing

structure Program where
  listing : Listing
  entry : MethodId
  entry_listed : listing.entry = some entry
  clean : listing.defects = []

/-- The program of a listing, or the first defect. -/
def Program.ofListing (listing : Listing) : Except Defect Program :=
  match clean : listing.defects with
  | defect :: _ => .error defect
  | [] =>
      match found : listing.entry with
      | some entry => .ok ⟨listing, entry, found, clean⟩
      | none => .error .noEntry

theorem Program.listing_of_ofListing {listing : Listing} {program : Program}
    (built : Program.ofListing listing = .ok program) : program.listing = listing := by
  rw [ofListing] at built
  split at built
  · simp at built
  · split at built
    · injection built with same
      rw [← same]
    · simp at built

end SeqSlice
