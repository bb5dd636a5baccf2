import SeqSlice.Config.Basic
import SeqSlice.Fact.Criteria
import SeqSlice.Supergraph.Links

/-! The interprocedural graph of a run: the steps of all bodies after cycles are
cut, and the calls that are entered.

Not entered are: any call of a specified statement; methods without body;
reflective methods, if a specified statement looks up a class; methods of blocked
packages; calls that the plan blocks; on request, library methods. A static
initializer that the call graph reaches from statements without a call only is
called from the first call behind one of them. -/

set_option autoImplicit false
namespace SeqSlice

structure Supergraph where
  program : Program
  specified : List PointId
  excludeLibrary : Bool
  opaqueMethods : List MethodId
  blockedMethods : List MethodId
  links : Links
  blocked : BlockedCalls
  initializerCalls : List (PointId × MethodId)

namespace Supergraph

section
variable (graph : Supergraph)

def succs (point : PointId) : List PointId := graph.links.succs point
def preds (point : PointId) : List PointId := graph.links.preds point

def isSpecified (point : PointId) : Bool := graph.specified.contains point

/-- The method of a statement; the entry for an id that names none. -/
def methodOf (point : PointId) : MethodId :=
  (graph.program.methodOf? point).getD graph.program.entry

def isCall (point : PointId) : Bool := graph.program.isCall point

def isStart (point : PointId) : Bool := (graph.program.starts (graph.methodOf point)).contains point

def isEnd (point : PointId) : Bool := (graph.program.ends (graph.methodOf point)).contains point

def isReturnSite (point : PointId) : Bool := (graph.preds point).any graph.isCall

def callsWithin (method : MethodId) : List PointId :=
  (graph.program.body method).filter graph.isCall

def isExcluded (method : MethodId) : Bool :=
  graph.excludeLibrary && graph.program.isLibrary method

def isHidden (method : MethodId) : Bool :=
  graph.opaqueMethods.contains method || graph.blockedMethods.contains method

def callees (point : PointId) : List MethodId :=
  if graph.isSpecified point then []
  else
    let listed := (graph.program.callees point).filter fun method =>
      graph.program.hasBody method && !graph.isHidden method && !graph.blocked.contains point method
    let added := (graph.initializerCalls.filter (·.1 == point)).map (·.2)
    (added.foldl pushNew listed).filter fun method => !graph.isExcluded method

def callers (method : MethodId) : List PointId :=
  if graph.isExcluded method || graph.isHidden method then []
  else
    let listed := (graph.program.callers method).filter fun point =>
      !graph.blocked.contains point method
    let added := (graph.initializerCalls.filter (·.2 == method)).map (·.1)
    added.foldl pushNew listed

def callSource : CallSource where
  entry := graph.program.entry
  methods := graph.program.methodIds
  methodOf := graph.methodOf
  callsWithin := graph.callsWithin
  callees := graph.callees
  callers := graph.callers

def firstCallFrom? (point : PointId) : Option PointId :=
  (Graph.visit .stack graph.succs graph.program.pointIds [point]).find? graph.isCall

/-- Gives a static initializer a caller if no call of the program is one. -/
def restoreInitializer (initializer : MethodId) : Supergraph :=
  let callers := graph.callers initializer
  if callers.any graph.isCall then graph
  else
    match callers.findSome? graph.firstCallFrom? with
    | some call =>
        { graph with initializerCalls := pushNew graph.initializerCalls (call, initializer) }
    | none => graph

end

def looksUpClass (program : Program) (config : Config) (point : PointId) : Bool :=
  match program.callSite? point with
  | some site =>
      match program.classOfMethod? site.target with
      | some cls =>
          config.reflection.classLookup.any fun pattern =>
            pattern.names cls.name (program.methodName site.target)
      | none => false
  | none => false

def reflectiveMethods (program : Program) (config : Config) : List MethodId :=
  program.methodIds.filter fun method =>
    (program.classOfMethod? method).any fun cls =>
      config.reflection.reflectiveMethods.any fun pattern =>
        pattern.names cls.name (program.methodName method)

def methodsOfPackages (program : Program) (packages : List String) : List MethodId :=
  program.methodIds.filter fun method =>
    (program.classOfMethod? method).any fun cls =>
      packages.any fun start => start.toList.isPrefixOf cls.package.toList

def initializerAt? (program : Program) (config : Config) (point : PointId) : Option MethodId := do
  let method ← program.methodOf? point
  let cls ← program.classOfMethod? method
  program.methodNamed? cls.id config.staticInitializerName

def assemble (program : Program) (specified : List PointId) (plan : CyclePlan) (config : Config) :
    Supergraph :=
  let specified := ascending specified
  let base : Supergraph := {
    program, specified
    excludeLibrary := config.excludeLibrary
    opaqueMethods :=
      if specified.any (looksUpClass program config) then reflectiveMethods program config else []
    blockedMethods := []
    links := plan.links program
    blocked := plan.blocked
    initializerCalls := [] }
  -- Packages are blocked last, so an initializer in one of them is restored as well.
  let restored := (specified.filterMap (initializerAt? program config)).foldl restoreInitializer base
  { restored with blockedMethods := methodsOfPackages program config.blockPackagePrefixes }

def build (program : Program) (specified : List PointId) (plan : CyclePlan) (config : Config) :
    Except UnknownId Supergraph :=
  match (plan.namedPoints ++ specified).find? fun point => !program.listing.hasPoint point with
  | some point => .error (.point point)
  | none => .ok (assemble program specified plan config)

end Supergraph

/-- The plan with recursion blocked as it is found in the graph. -/
def CyclePlan.blockRecursion (plan : CyclePlan) (graph : Supergraph) : CyclePlan :=
  { plan with blocked := graph.callSource.recursionBlocks }

end SeqSlice
