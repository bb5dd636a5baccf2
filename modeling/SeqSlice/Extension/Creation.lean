import SeqSlice.Config.Basic
import SeqSlice.Program.Hierarchy
import SeqSlice.Tag.Table

/-! The calls that created the receiver of an instance call. -/

set_option autoImplicit false
namespace SeqSlice

inductive ExtensionError where
  /-- An allocation that the points-to summary names is never initialized. -/
  | noConstructor (site : SiteId) (point : PointId)
  | unknown (id : UnknownId)
  deriving DecidableEq, Repr, Inhabited

def ExtensionError.message : ExtensionError → String
  | .noConstructor site point => s!"allocation h{site} at p{point} has no constructor call"
  | .unknown id => id.message

namespace Program

variable (program : Program)

def isNamed (pattern : MethodName) (method : MethodId) : Bool :=
  (program.classOfMethod? method).any fun cls =>
    pattern.names cls.name (program.methodName method)

def isNewInstance (reflection : Reflection) (method : MethodId) : Bool :=
  program.isNamed reflection.classNewInstance method ||
    program.isNamed reflection.constructorNewInstance method

/-- The local that holds the object on which the call acts: the first argument of
a reflective invocation, the result of a reflective creation. -/
def receiverLocal? (reflection : Reflection) (site : CallSite) : Option String :=
  if program.isNamed reflection.methodInvoke site.target then site.args.head?
  else if program.isNewInstance reflection site.target then site.assigned
  else site.receiver

/-- The call that creates the object of an allocation site, and its class. A `new`
statement stands for its constructor call; other statements than these and
reflective creations stand for none. -/
def creationCall (tags : TagTable) (reflection : Reflection) (alloc : AllocSite) :
    Except ExtensionError (Option (PointId × ClassId)) :=
  match (program.point? alloc.point).map (·.action) with
  | some (Action.new _ _) =>
      match (tags.constructorCall? alloc.point).join with
      | none => .error (.noConstructor alloc.id alloc.point)
      | some call =>
          let cls := ((program.callSite? call).bind fun site =>
            (program.method? site.target).map (·.cls)).getD alloc.cls
          .ok (some (call, cls))
  | some (Action.call site) =>
      .ok (if program.isNewInstance reflection site.target then some (alloc.point, alloc.cls)
        else none)
  | _ => .ok none

def isSubtype (cls : ClassId) (declared : Class) : Except UnknownId Bool :=
  if declared.isInterface then program.isImplementer cls declared.id
  else program.isSubclass cls declared.id

/-- A receiver of this class would make the call run the target. -/
def canReach (cls : ClassId) (site : CallSite) (target : Method) : Except UnknownId Bool :=
  if site.invoke = .special ∨ target.isConstructor = true then program.isSubclass cls target.cls
  else
    match program.method? site.target, program.classOfMethod? site.target with
    | some declared, some declaredClass => do
        -- What a receiver runs is looked up only for a subtype.
        if ← program.isSubtype cls declaredClass then
          return (← program.dispatch? cls declared) == some target.id
        else return false
    | _, _ => .ok false

def creationsOf (tags : TagTable) (reflection : Reflection) (site : CallSite) (target : MethodId)
    (found : List PointId) : List SiteId → Except ExtensionError (List PointId)
  | [] => .ok found
  | id :: rest => do
      let alloc ← (program.knownSite id).mapError .unknown
      match ← program.creationCall tags reflection alloc with
      | none => creationsOf tags reflection site target found rest
      | some (call, cls) =>
          -- The target is looked up once there is a creation to compare it with.
          let method ← (program.knownMethod target).mapError .unknown
          let reaches ← (program.canReach cls site method).mapError .unknown
          creationsOf tags reflection site target
            (if reaches && !found.contains call then found ++ [call] else found) rest

/-- The calls that create the objects which the local may hold at the caller, of
those classes for which the call runs the target. -/
def creationCalls (tags : TagTable) (reflection : Reflection) (caller : PointId) (site : CallSite)
    (target : MethodId) (var : String) : Except ExtensionError (List PointId) := do
  let point ← (program.knownPoint caller).mapError .unknown
  program.creationsOf tags reflection site target [] (program.pointsTo point.method var)

end Program
end SeqSlice
