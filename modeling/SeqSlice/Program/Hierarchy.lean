import SeqSlice.Graph.Search
import SeqSlice.Program.Query

/-! Subtyping and dispatch. -/

set_option autoImplicit false
namespace SeqSlice.Program

variable (program : Program)

def superClass? (cls : ClassId) : Option ClassId :=
  (program.class? cls).bind (·.superClass)

def interfaces (cls : ClassId) : List ClassId :=
  ((program.class? cls).map (·.interfaces)).getD []

def allInterfaces (cls : ClassId) : List ClassId :=
  Graph.visit .stack program.interfaces program.classIds (program.interfaces cls)

section
variable {β : Type} (found? : ClassId → Option β)

/-- What is found first on the way up, or that it ends without. The way does not end if the
superclasses come back to themselves and nothing is found at any of them. -/
def upwards (cls : ClassId) : Option (Option β) :=
  match found? cls with
  | some value => some (some value)
  | none =>
      match program.superClass? cls with
      | none => some none
      -- Written as a term, the recursive call would carry its place in the file along.
      | some sup => by apply upwards; exact sup
partial_fixpoint

def climb (cls : ClassId) : Except UnknownId (Option β) :=
  match program.upwards found? cls with
  | some answer => .ok answer
  | none => .error (.endless cls)

end

def meets (wanted : ClassId → Bool) (cls : ClassId) : Except UnknownId Bool :=
  (program.climb (Option.guard wanted) cls).map (·.isSome)

def isSubclass (sub sup : ClassId) : Except UnknownId Bool := program.meets (· == sup) sub

/-- The class or a superclass implements the interface or one that extends it. -/
def isImplementer (cls iface : ClassId) : Except UnknownId Bool :=
  program.meets (fun upper => (program.allInterfaces upper).contains iface) cls

/-- The concrete method that a receiver of this class runs for a call of
`declared`: the first of its name and signature, upwards from the class. -/
def dispatch? (cls : ClassId) (declared : Method) : Except UnknownId (Option MethodId) :=
  program.climb (fun upper =>
    (program.methods.find? fun method =>
      method.cls == upper && method.name == declared.name &&
        method.signature == declared.signature && !method.isAbstract).map (·.id)) cls

def knownClass (cls : ClassId) : Except UnknownId Class :=
  match program.class? cls with
  | some found => .ok found
  | none => .error (.cls cls)

def knownMethod (method : MethodId) : Except UnknownId Method :=
  match program.method? method with
  | some found => .ok found
  | none => .error (.method method)

def knownPoint (point : PointId) : Except UnknownId Point :=
  match program.point? point with
  | some found => .ok found
  | none => .error (.point point)

def knownSite (site : SiteId) : Except UnknownId AllocSite :=
  match program.allocSite? site with
  | some found => .ok found
  | none => .error (.site site)

variable {program}

theorem knownMethod_eq_ok_iff {method : MethodId} {found : Method} :
    program.knownMethod method = .ok found ↔ program.method? method = some found := by
  unfold knownMethod
  cases program.method? method <;> simp

theorem knownPoint_eq_ok_iff {point : PointId} {found : Point} :
    program.knownPoint point = .ok found ↔ program.point? point = some found := by
  unfold knownPoint
  cases program.point? point <;> simp

theorem knownSite_eq_ok_iff {site : SiteId} {found : AllocSite} :
    program.knownSite site = .ok found ↔ program.allocSite? site = some found := by
  unfold knownSite
  cases program.allocSite? site <;> simp

variable (program)

/-- Every id is a subclass of itself; otherwise the class must be known. -/
def subclass (sub sup : ClassId) : Except UnknownId Bool := do
  if sub = sup then return true
  discard (program.knownClass sub)
  program.isSubclass sub sup

def implementer (cls iface : ClassId) : Except UnknownId Bool := do
  discard (program.knownClass cls)
  program.isImplementer cls iface

def dispatch (cls : ClassId) (declared : MethodId) : Except UnknownId (Option MethodId) := do
  let method ← program.knownMethod declared
  discard (program.knownClass cls)
  program.dispatch? cls method

end SeqSlice.Program
