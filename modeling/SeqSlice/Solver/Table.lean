import SeqSlice.Solver.Tabulation

/-! Graphs and problems given by tables, over facts that are named by texts. -/

set_option autoImplicit false
namespace SeqSlice

structure NodeRow where
  method : MethodId
  succs : List PointId
  callees : List MethodId
  isCall : Bool
  isExit : Bool
  deriving DecidableEq, Repr, Inhabited

/-- A graph by rows: one for each statement, and the starts of each method. -/
structure GraphTable where
  nodes : List NodeRow
  starts : List (List PointId)
  deriving DecidableEq, Repr, Inhabited

def GraphTable.points (table : GraphTable) : List PointId :=
  (List.range table.nodes.length ++ table.nodes.flatMap (·.succs) ++ table.starts.flatten).eraseDups

def GraphTable.graph (table : GraphTable) : InterGraph where
  methodOf point := (table.nodes[point]?.map (·.method)).getD 0
  succs point := (table.nodes[point]?.map (·.succs)).getD []
  callees point := (table.nodes[point]?.map (·.callees)).getD []
  starts method := table.starts[method]?.getD []
  returnSites point := (table.nodes[point]?.map (·.succs)).getD []
  isCall point := table.nodes[point]?.any (·.isCall)
  isExit point := table.nodes[point]?.any (·.isExit)

inductive TableFlow where
  | identity
  | kill
  | replace (rows : List (String × List String)) (killsOthers : Bool)
  deriving DecidableEq, Repr, Inhabited

namespace TableFlow

def apply : TableFlow → String → List String
  | .identity, fact => [fact]
  | .kill, _ => []
  | .replace rows killsOthers, fact =>
      match rows.lookup fact with
      | some facts => facts
      | none => if killsOthers then [] else [fact]

def results : TableFlow → List String
  | .replace rows _ => rows.flatMap (·.2)
  | _ => []

end TableFlow

/-- Flows by edges; the first row of an edge counts, and without a row facts pass
unchanged. -/
structure ProblemTable where
  seeds : List (PointId × String)
  normal : List ((PointId × PointId) × TableFlow)
  call : List ((PointId × MethodId) × TableFlow)
  ret : List ((PointId × MethodId × PointId × PointId) × TableFlow)
  around : List ((PointId × PointId) × TableFlow)
  deriving DecidableEq, Repr, Inhabited

namespace ProblemTable

def zeroName : String := "zero"

def flowAt {α : Type} [BEq α] (rows : List (α × TableFlow)) (edge : α) : String → List String :=
  ((rows.lookup edge).getD .identity).apply

variable (table : ProblemTable)

def problem : FlowProblem String where
  zero := zeroName
  seeds := table.seeds
  normal point next := flowAt table.normal (point, next)
  call site callee := flowAt table.call (site, callee)
  ret site callee exit returnSite := flowAt table.ret (site, callee, exit, returnSite)
  around site returnSite := flowAt table.around (site, returnSite)

def flows : List TableFlow :=
  table.normal.map (·.2) ++ table.call.map (·.2) ++ table.ret.map (·.2) ++ table.around.map (·.2)

def facts : List String :=
  (zeroName :: (table.seeds.map (·.2) ++ table.flows.flatMap (·.results))).eraseDups

def points (graph : GraphTable) : List PointId :=
  (table.seeds.map (·.1) ++ graph.points).eraseDups

def solve (graph : GraphTable) : Tabulation String :=
  SeqSlice.solve graph.graph table.problem (table.points graph).length table.facts.length

end ProblemTable
end SeqSlice
