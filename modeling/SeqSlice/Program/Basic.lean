/-! The statements, methods and classes of a whole program, as they are listed
by a front end. A listing is raw: nothing says yet that its ids name anything. -/

set_option autoImplicit false
namespace SeqSlice

/-- A statement of some method body. -/
abbrev PointId := Nat
abbrev MethodId := Nat
abbrev ClassId := Nat
/-- An allocation site, the abstract object of the points-to summary. -/
abbrev SiteId := Nat

inductive Invoke where
  | static
  /-- Private, super and constructor calls: an instance call without dispatch. -/
  | special
  | virtual
  | interface
  deriving DecidableEq, Repr, Inhabited

def Invoke.isInstance : Invoke → Bool
  | .static => false
  | _ => true

def Invoke.isDispatching : Invoke → Bool
  | .virtual | .interface => true
  | _ => false

structure CallSite where
  target : MethodId
  invoke : Invoke
  receiver : Option String
  args : List String
  assigned : Option String
  deriving DecidableEq, Repr, Inhabited

inductive Action where
  | plain
  | call (site : CallSite)
  | new (var : String) (cls : ClassId)
  | catchEntry
  | nop
  deriving DecidableEq, Repr, Inhabited

def Action.callSite? : Action → Option CallSite
  | .call site => some site
  | _ => none

structure Point where
  id : PointId
  method : MethodId
  line : Int
  action : Action
  text : String
  deriving DecidableEq, Repr, Inhabited

def constructorName : String := "<init>"

structure Method where
  id : MethodId
  cls : ClassId
  name : String
  signature : String
  isStatic : Bool
  isAbstract : Bool
  /-- Empty for methods that are abstract, native or only known by name. -/
  body : List PointId
  deriving DecidableEq, Repr, Inhabited

def Method.hasBody (method : Method) : Bool := !method.body.isEmpty

def Method.isConstructor (method : Method) : Bool := method.name == constructorName

structure Class where
  id : ClassId
  name : String
  superClass : Option ClassId
  interfaces : List ClassId
  isInterface : Bool
  isLibrary : Bool
  deriving DecidableEq, Repr, Inhabited

structure FlowEdge where
  source : PointId
  target : PointId
  exceptional : Bool
  deriving DecidableEq, Repr, Inhabited

/-- An edge of the call graph. The statement need not be a call: any statement
may trigger a static initializer. -/
structure CallEdge where
  site : PointId
  callee : MethodId
  deriving DecidableEq, Repr, Inhabited

structure AllocSite where
  id : SiteId
  point : PointId
  cls : ClassId
  deriving DecidableEq, Repr, Inhabited

structure PointsTo where
  method : MethodId
  var : String
  sites : List SiteId
  deriving DecidableEq, Repr, Inhabited

structure Listing where
  entry : Option MethodId
  classes : List Class
  methods : List Method
  points : List Point
  edges : List FlowEdge
  calls : List CallEdge
  allocSites : List AllocSite
  pointsTo : List PointsTo
  deriving DecidableEq, Repr, Inhabited

def Listing.empty : Listing := ⟨none, [], [], [], [], [], [], []⟩

/-- Why a question has no answer. Most of these are ids that name nothing in the program
at hand. -/
inductive UnknownId where
  | point (id : PointId)
  | method (id : MethodId)
  | cls (id : ClassId)
  | site (id : SiteId)
  /-- No topmost superclass is known, since the way up from the class has no end. This stands
  for a question that is never answered, neither with a result nor with an error. -/
  | endless (cls : ClassId)
  deriving DecidableEq, Repr, Inhabited

def UnknownId.message : UnknownId → String
  | .point id => s!"unknown point p{id}"
  | .method id => s!"unknown method m{id}"
  | .cls id => s!"unknown class c{id}"
  | .site id => s!"unknown allocation site h{id}"
  | .endless id => s!"no end above class c{id}"

end SeqSlice
