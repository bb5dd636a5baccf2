import SeqSlice.Solver.Tabulation
import SeqSlice.Supergraph.View

/-! The backward pass. From the ends of the entry method it builds matches from
their last call to their first: passing a call of a criterion, the call is put
before every match that it may precede. -/

set_option autoImplicit false
namespace SeqSlice.BottomUp

variable (graph : Supergraph) (criteria : Criteria)

def extends? (point : PointId) (fact : Fact) : Bool :=
  criteria.hasExtension && criteria.canExtend point fact

def extended (point : PointId) (fact : Fact) : List Fact :=
  if extends? criteria point fact then [fact, fact.addHead point] else [fact]

/-- Back to a call that enters the method in fact; the view offers others too. -/
def returnFlow (callee : MethodId) (call : PointId) (fact : Fact) : List Fact :=
  if (graph.callers callee).contains call then extended criteria call fact else []

def aroundFlow (call : PointId) (fact : Fact) : List Fact :=
  if !criteria.isPoint call then [fact]
  else if fact.isEmpty then
    if criteria.isTail call then [fact, .seq [call]] else [fact]
  else if criteria.canAddHead call fact || extends? criteria call fact then
    [fact, fact.addHead call]
  else [fact]

def problem : FlowProblem Fact where
  zero := .zero
  seeds := (graph.program.ends graph.program.entry).map fun point => (point, .zero)
  normal _ _ fact := [fact]
  call _ _ fact := [fact]
  ret _ callee _ returnSite fact := returnFlow graph criteria callee returnSite fact
  around _ returnSite fact := aroundFlow criteria returnSite fact

/-- An upper bound on the facts that occur: zero, and suffixes of criteria behind
any list of distinct extension points. -/
def factBound : Nat :=
  let suffixes := (criteria.sequences.flatMap (·.points)).length
  let extras := (criteria.extension.rows.flatMap (·.2)).eraseDups.length
  1 + suffixes * Nat.pow (extras + 1) extras

def solve : Tabulation Fact :=
  SeqSlice.solve graph.backward.toInterGraph (problem graph criteria)
    graph.program.points.length (factBound criteria)

end SeqSlice.BottomUp
