import SeqSlice.Error
import SeqSlice.Extension.Relation
import SeqSlice.Slice.BottomUp
import SeqSlice.Slice.Interner
import SeqSlice.Slice.TopDown

/-! One run for the criteria of one tail: the graph and the extension relation are
built first, then the backward and the forward pass are made, and what both have
in common is the slice. -/

set_option autoImplicit false
namespace SeqSlice

structure Slice where
  tail : PointId
  criteria : List (List PointId)
  methods : List (MethodId × List PointId)
  deriving DecidableEq, Repr, Inhabited

namespace Slice

/-- Nothing kept: no criterion can be met, if the graph is sound. -/
def isEmpty (slice : Slice) : Bool := slice.methods.isEmpty

def points (slice : Slice) : List PointId := slice.methods.flatMap (·.2)

def size (slice : Slice) : Nat := slice.points.length

def contains (slice : Slice) (point : PointId) : Bool := slice.points.contains point

end Slice

structure SliceRun where
  config : Config
  tail : PointId
  criteria : Criteria
  graph : Supergraph
  tags : TagTable
  phase : Phase
  bottomUp : FactTable
  slice : Option Slice

namespace SliceRun

def buildGraph (program : Program) (config : Config) (criteria : Criteria) :
    Except UnknownId Supergraph := do
  let specified := criteria.specified
  if config.retainCycle then Supergraph.build program specified .empty config
  else
    let plan := program.loopPlan
    -- Recursion is cut as it is found in the graph without loops.
    let loopFree ← Supergraph.build program specified plan config
    Supergraph.build program specified (plan.blockRecursion loopFree) config

def structureTags (graph : Supergraph) : TagTable :=
  (TagTable.empty.addMethods graph.program).addCycles graph

def prepare (program : Program) (config : Config) (tail : PointId) (sequences : List Fact) :
    Except Error SliceRun := do
  let criteria := Criteria.ofList sequences
  let graph ← (buildGraph program config criteria).mapError .unknown
  let run : SliceRun :=
    { config, tail, criteria, graph
      tags := .empty, phase := .built, bottomUp := .empty, slice := none }
  if config.extendCriteria then
    let tags := structureTags graph
    let extension ← (graph.extension criteria tags config).mapError Error.ofExtension
    return { run with tags, criteria := { criteria with extension } }
  else return run

def properFacts (table : Tabulation Fact) (point : PointId) : List Fact :=
  (table.factsAt point).filter fun fact => !fact.isZero

def runBottomUp (run : SliceRun) : Except Error Unit × SliceRun :=
  match run.phase.ensure .built with
  | .error error => (.error (.phase error), run)
  | .ok () =>
      let solved := BottomUp.solve run.graph run.criteria
      let facts := FactTable.ofFacts (properFacts solved) solved.visited
      let tags := (run.tags.tagPoints solved.visited .mainReachable).tagPoints facts.reached
        .bottomUpReachable
      (.ok (), { run with tags, bottomUp := facts, phase := .bottomUpDone })

/-- A statement is kept if both passes have facts there and a complete match
passes it, or the passes agree on a fact. -/
def keeps (bottomUp : FactTable) (topDown : Tabulation Fact) (point : PointId) : Bool :=
  let waiting := properFacts topDown point
  let built := bottomUp.factsAt point
  !waiting.isEmpty && !built.isEmpty &&
    (waiting.any (·.isEpsilon) || waiting.any fun fact => built.any fact.sameContent)

def project (program : Program) (bottomUp : FactTable) (topDown : Tabulation Fact) :
    List (MethodId × List PointId) :=
  (program.methodsWithBodies.map fun method =>
    (method, (program.body method).filter (keeps bottomUp topDown))).filter
      fun entry => !entry.2.isEmpty

def factsAtStart (run : SliceRun) : List Fact :=
  ((run.graph.program.starts run.graph.program.entry).flatMap run.bottomUp.factsAt).eraseDups

def runTopDown (run : SliceRun) : Except Error Unit × SliceRun :=
  match run.phase.ensure .bottomUpDone with
  | .error error => (.error (.phase error), run)
  | .ok () =>
      let program := run.graph.program
      let seeds := run.criteria.seeds run.factsAtStart
      let reachable := run.tags.pointsWith .bottomUpReachable
      match TopDown.solve? run.graph run.criteria run.config seeds reachable with
      | none =>
          -- The phase of the pass has been entered by then.
          (.error (.noEntryBody (program.methodName program.entry)),
            { run with phase := .topDownRunning })
      | some solved =>
          let slice : Slice :=
            { tail := run.tail
              criteria := run.criteria.sequences.map (·.points)
              methods := project program run.bottomUp solved }
          (.ok (), { run with slice := some slice, phase := .done })

def result (run : SliceRun) : Except Error Slice :=
  match run.phase.ensure .done, run.slice with
  | .error error, _ => .error (.phase error)
  | .ok (), some slice => .ok slice
  | .ok (), none => .error (.phase ⟨.done, run.phase⟩)

def bottomUpFactsAt (run : SliceRun) (point : PointId) : Except Error (List Fact) :=
  match run.phase.ensure .done with
  | .error error => .error (.phase error)
  | .ok () => .ok (run.bottomUp.factsAt point)

def runAll (run : SliceRun) : Except Error Slice × SliceRun :=
  match run.runBottomUp with
  | (.error error, run) => (.error error, run)
  | (.ok (), run) =>
      match run.runTopDown with
      | (.error error, run) => (.error error, run)
      | (.ok (), run) => (run.result, run)

end SliceRun

/-- One slice for each tail, in order of first appearance. -/
def sliceAll (program : Program) (config : Config) (criteria : List Fact) :
    Except Error (List Slice) :=
  (Criteria.groups criteria).mapM fun (tail, group) => do
    let run ← SliceRun.prepare program config tail group
    run.runAll.1

end SeqSlice
