import SeqSlice.Flow.Branch
import SeqSlice.Supergraph.Basic
import SeqSlice.Tag.Constructor
import SeqSlice.Tag.Table

/-! Tagging branches, constructor calls and cycles. -/

set_option autoImplicit false
namespace SeqSlice

namespace Supergraph

variable (graph : Supergraph)

def callGraph : Digraph := graph.callSource.graph .empty

def loopPoints : List PointId :=
  graph.program.methodsWithBodies.flatMap fun method =>
    (graph.program.methodLoops method).loopNodes

end Supergraph

namespace TagTable

def addMethod (table : TagTable) (program : Program) (method : MethodId) : TagTable :=
  (program.constructorCalls method).foldl (fun table (alloc, call) =>
      table.setConstructorCall alloc call)
    (table.tagPoints (program.flowGraph method).branchPoints .branch)

def addMethods (table : TagTable) (program : Program) : TagTable :=
  program.methodsWithBodies.foldl (fun table method => table.addMethod program method) table

/-- Tags a method and what it leads to, whether the entry reaches it or not. -/
def spread (calls : Digraph) (methods : List MethodId) (tag : Tag) (table : TagTable)
    (start : MethodId) : TagTable :=
  -- Methods that have the tag are not entered, so no walk repeats an earlier one.
  let untagged := methods.filter fun method => !table.methodHas method tag
  table.tagMethods (Graph.visit .stack calls.succs untagged [start]) tag

/-- Tags a statement of a loop, and if it is a call, what is entered from it. -/
def addLoopPoint (graph : Supergraph) (calls : Digraph) (table : TagTable) (point : PointId) :
    TagTable :=
  if table.pointHas point .intraCycle then table
  else
    let tagged := table.tagPoint point .intraCycle
    if graph.isCall point then
      (graph.callees point).foldl (spread calls graph.program.methodIds .intraCycle) tagged
    else tagged

/-- Recursion first, one component after the other, then the loops of all methods. -/
def addCycles (table : TagTable) (graph : Supergraph) : TagTable :=
  let calls := graph.callGraph
  graph.loopPoints.foldl (addLoopPoint graph calls)
    (calls.cyclicComponents.flatten.foldl
      (spread calls graph.program.methodIds .interCycle) table)

end TagTable
end SeqSlice
