import SeqSlice.Extension.Creation
import SeqSlice.Extension.Interest
import SeqSlice.Tag.Cycle

/-! The extension relation of a group of criteria: before a match that begins with
a statement there may stand the calls that lead into the statement's method.
Statements that cannot change the shape of a match are taken out again, and what
stood before them then stands before what they stood before. -/

set_option autoImplicit false
namespace SeqSlice

namespace Extension

def discover (expand : PointId → Except ExtensionError (List PointId))
    (remaining pending : List PointId) : Except ExtensionError (List (PointId × List PointId)) :=
  match pending with
  | [] => .ok []
  | first :: rest =>
      if first ∈ remaining then
        (expand first).bind fun found =>
          (discover expand (remaining.erase first) (rest ++ found)).map fun rows =>
            (first, found) :: rows
      else discover expand remaining rest
termination_by (remaining.length, pending.length)
decreasing_by
  · next member =>
      apply Prod.Lex.left
      rw [List.length_erase_of_mem member]
      exact Nat.sub_lt (List.length_pos_of_mem member) Nat.one_pos
  · apply Prod.Lex.right
    simp

/-- The relation from its other side: the statements that the key may be put before. -/
def mirror (extension : Extension) : Extension :=
  ⟨(extension.rows.flatMap (·.2)).eraseDups.map fun point =>
    (point, (extension.rows.filter (·.2.contains point)).map (·.1))⟩

/-- Without the row of a statement. In the rows of the keys others take its place,
except the key itself. -/
def replace (extension : Extension) (point : PointId) (keys others : List PointId) : Extension :=
  ⟨(extension.rows.filter (·.1 != point)).map fun (key, values) =>
    if keys.contains key then
      (key, (values.filter (· != point) ++ others.filter (· != key)).eraseDups)
    else (key, values)⟩

structure TwoSided where
  extension : Extension
  mirror : Extension

namespace TwoSided

def ofExtension (extension : Extension) : TwoSided := ⟨extension, extension.mirror⟩

variable (sides : TwoSided)

def before (point : PointId) : List PointId := sides.extension.before point

def after (point : PointId) : List PointId := sides.mirror.before point

/-- Takes a statement out on both sides and joins what stood before and after it. No
statement is put before itself. -/
def bypass (point : PointId) : TwoSided where
  extension := sides.extension.replace point (sides.after point) (sides.before point)
  mirror := sides.mirror.replace point (sides.before point) (sides.after point)

def bypassAll (points : List PointId) : TwoSided := points.foldl bypass sides

end TwoSided

end Extension

namespace Supergraph

variable (graph : Supergraph) (criteria : Criteria) (tags : TagTable) (config : Config)

def creatorsAt (method : MethodId) (caller : PointId) : Except ExtensionError (List PointId) :=
  match graph.program.callSite? caller with
  | none => .ok []
  | some site =>
      if !site.invoke.isInstance then .ok [caller]
      else
        match graph.program.receiverLocal? config.reflection site with
        | none => .ok []
        | some var => graph.program.creationCalls tags config.reflection caller site method var

/-- The calls that lead into the method of a statement: the callers of a static
method, the creators of the receivers of an instance method. -/
def leadingCalls (point : PointId) : Except ExtensionError (List PointId) := do
  let found ← (graph.program.knownPoint point).mapError .unknown
  let method ← (graph.program.knownMethod found.method).mapError .unknown
  let callers := graph.callers method.id
  if method.isStatic then return callers.filter graph.isCall
  else return ((← callers.mapM (graph.creatorsAt tags config method.id)).flatten).eraseDups

/-- Without the statement itself; nothing if one of them is in a library and
library extensions are excluded. -/
def extensionPoints (point : PointId) : Except ExtensionError (List PointId) := do
  let calls := (← graph.leadingCalls tags config point).filter (· != point)
  let inLibrary := calls.any fun call => graph.program.isLibrary (graph.methodOf call)
  return if config.excludeLibraryExtension && inLibrary then [] else calls

/-- Also what the tags name as constructor calls is asked about, in case there is no
such statement. -/
def fullExtension : Except ExtensionError Extension :=
  let heads := ascending criteria.heads
  (Extension.discover (graph.extensionPoints tags config)
    (heads ++ graph.program.pointIds ++ tags.constructorCalls.filterMap (·.2)).eraseDups heads).map
    Extension.mk

def isClassLiteral (point : PointId) : Bool :=
  (graph.program.callSite? point).any fun site =>
    graph.program.methodName site.target == config.classLiteralMethod

/-- A statement is kept if it belongs to a criterion or to the entry method.
Otherwise it is useless in a cycle, as a class literal, out of reach, or if
neither it nor its method is of interest. -/
def isUseless (reachable : List MethodId) (answers : Interest.Answers) (point : PointId) :
    Bool × Interest.Answers :=
  let method := graph.methodOf point
  if criteria.isPoint point || method == graph.program.entry then (false, answers)
  else if tags.pointHas point .intraCycle || tags.methodHas method .intraCycle ||
      tags.methodHas method .interCycle then (true, answers)
  else if graph.isClassLiteral config point || !reachable.contains method then (true, answers)
  else
    let (interesting, answers) := Interest.ofPoint graph tags config answers point
    (!interesting, answers)

def uselessAmong (reachable : List MethodId) : Interest.Answers → List PointId → List PointId
  | _, [] => []
  | answers, point :: rest =>
      match graph.isUseless criteria tags config reachable answers point with
      | (true, answers) => point :: uselessAmong reachable answers rest
      | (false, answers) => uselessAmong reachable answers rest

def uselessOf (full : Extension) : List PointId :=
  graph.uselessAmong criteria tags config graph.callGraph.nodes [] (ascending full.keys)

def extension : Except ExtensionError Extension := do
  let full ← graph.fullExtension criteria tags config
  return (Extension.TwoSided.bypassAll (.ofExtension full)
    (graph.uselessOf criteria tags config full)).extension

end Supergraph
end SeqSlice
