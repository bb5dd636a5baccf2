import SeqSlice.Solver.Problem

/-! Tabulation: all facts along paths on which every return matches its call.

A path edge says that a fact holds at a statement whenever another one held where
its method was entered. Edges are processed one by one; calls remember who entered
a method with which fact, and exits what a method makes of a fact, so that each
pair of a call and an exit meets, whichever comes first. -/

set_option autoImplicit false
namespace SeqSlice

/-- If `entry` holds at the start of the method of `point`, then `fact` holds at
`point`. -/
structure PathEdge (D : Type) where
  point : PointId
  entry : D
  fact : D
  deriving DecidableEq, Repr

/-- The method was entered at `start` with fact `entry` from a call where `fact`
held. -/
structure Incoming (D : Type) where
  start : PointId
  site : PointId
  entry : D
  fact : D
  deriving DecidableEq, Repr

/-- Entered at `start` with fact `entry`, the method leaves from `exit` with
`fact`. -/
structure Summary (D : Type) where
  start : PointId
  exit : PointId
  entry : D
  fact : D
  deriving DecidableEq, Repr

structure Tabulation (D : Type) where
  edges : List (PathEdge D)
  pending : List (PathEdge D)
  incoming : List (Incoming D)
  summaries : List (Summary D)
  deriving Repr

namespace Tabulation

variable {D : Type} [DecidableEq D]

def empty : Tabulation D := ⟨[], [], [], []⟩

def propagate (table : Tabulation D) (edge : PathEdge D) : Tabulation D :=
  if edge ∈ table.edges then table
  else { table with edges := edge :: table.edges, pending := table.pending ++ [edge] }

def propagateAll (table : Tabulation D) (edges : List (PathEdge D)) : Tabulation D :=
  edges.foldl propagate table

def recordIncoming (table : Tabulation D) (entries : List (Incoming D)) : Tabulation D :=
  { table with incoming := entries.foldl (fun known entry =>
    if entry ∈ known then known else entry :: known) table.incoming }

def recordSummaries (table : Tabulation D) (entries : List (Summary D)) : Tabulation D :=
  { table with summaries := entries.foldl (fun known entry =>
    if entry ∈ known then known else entry :: known) table.summaries }

variable (graph : InterGraph) (problem : FlowProblem D)

def normalEdges (edge : PathEdge D) : List (PathEdge D) :=
  (graph.succs edge.point).flatMap fun next =>
    (problem.apply (problem.normal edge.point next) edge.fact).map fun fact =>
      ⟨next, edge.entry, fact⟩

def aroundEdges (edge : PathEdge D) : List (PathEdge D) :=
  (graph.returnSites edge.point).flatMap fun site =>
    (problem.apply (problem.around edge.point site) edge.fact).map fun fact =>
      ⟨site, edge.entry, fact⟩

def entries (edge : PathEdge D) : List (MethodId × PointId × D) :=
  (graph.callees edge.point).flatMap fun callee =>
    (graph.starts callee).flatMap fun start =>
      (problem.apply (problem.call edge.point callee) edge.fact).map fun fact =>
        (callee, start, fact)

def entryEdges (edge : PathEdge D) : List (PathEdge D) :=
  (entries graph problem edge).map fun (_, start, fact) => ⟨start, fact, fact⟩

def entryRecords (edge : PathEdge D) : List (Incoming D) :=
  (entries graph problem edge).map fun (_, start, fact) => ⟨start, edge.point, fact, edge.fact⟩

def summaryEdges (summaries : List (Summary D)) (edge : PathEdge D) : List (PathEdge D) :=
  (entries graph problem edge).flatMap fun (callee, start, entry) =>
    (summaries.filter fun summary => summary.start = start ∧ summary.entry = entry).flatMap
      fun summary =>
        (graph.returnSites edge.point).flatMap fun site =>
          (problem.apply (problem.ret edge.point callee summary.exit site) summary.fact).map
            fun fact => ⟨site, edge.entry, fact⟩

def exitRecords (edge : PathEdge D) : List (Summary D) :=
  (graph.starts (graph.methodOf edge.point)).map fun start =>
    ⟨start, edge.point, edge.entry, edge.fact⟩

/-- Returns to the calls that entered the method, for every fact with which the
method of the call had been entered. -/
def returnEdges (table : Tabulation D) (edge : PathEdge D) : List (PathEdge D) :=
  let method := graph.methodOf edge.point
  (graph.starts method).flatMap fun start =>
    (table.incoming.filter fun entry => entry.start = start ∧ entry.entry = edge.entry).flatMap
      fun entry =>
        (graph.returnSites entry.site).flatMap fun site =>
          (table.edges.filter fun other =>
            other.point = entry.site ∧ other.fact = entry.fact).flatMap fun other =>
              (problem.apply (problem.ret entry.site method edge.point site) edge.fact).map
                fun fact => ⟨site, other.entry, fact⟩

def process (table : Tabulation D) (edge : PathEdge D) : Tabulation D :=
  if graph.isCall edge.point then
    (table.recordIncoming (entryRecords graph problem edge)).propagateAll
      (entryEdges graph problem edge ++ summaryEdges graph problem table.summaries edge ++
        aroundEdges graph problem edge)
  -- A call is not taken for an exit, whatever the graph says of it.
  else if graph.isExit edge.point then
    (table.recordSummaries (exitRecords graph edge)).propagateAll
      (returnEdges graph problem table edge ++ normalEdges graph problem edge)
  else table.propagateAll (normalEdges graph problem edge)

def step (table : Tabulation D) : Tabulation D :=
  match table.pending with
  | [] => table
  | edge :: rest => process graph problem { table with pending := rest } edge

def run : Nat → Tabulation D → Tabulation D
  | 0, table => table
  | steps + 1, table =>
      match table.pending with
      | [] => table
      | _ :: _ => run steps (step graph problem table)

def start : Tabulation D :=
  empty.propagateAll (problem.seeds.map fun (point, fact) => ⟨point, problem.zero, fact⟩)

end Tabulation

/-- Solves a problem in which no more than `points` statements and `facts` facts
occur: each step finishes a new edge, so there are no more steps than edges. -/
def solve {D : Type} [DecidableEq D] (graph : InterGraph) (problem : FlowProblem D)
    (points facts : Nat) : Tabulation D :=
  Tabulation.run graph problem (points * (facts * facts)) (Tabulation.start problem)

namespace Tabulation

variable {D : Type} [DecidableEq D] (table : Tabulation D)

def visited : List PointId := (table.edges.map (·.point)).eraseDups

def holds (point : PointId) (fact : D) : Bool :=
  table.edges.any fun edge => edge.point == point && edge.fact = fact

def factsAt (point : PointId) : List D :=
  ((table.edges.filter (·.point == point)).map (·.fact)).eraseDups

end Tabulation
end SeqSlice
