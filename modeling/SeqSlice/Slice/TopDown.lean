import SeqSlice.Solver.Tabulation
import SeqSlice.Supergraph.View

/-! The forward pass. From the first statement of the entry method it follows the
complete matches and takes off their first call whenever it is made, until
`epsilon` is left. -/

set_option autoImplicit false
namespace SeqSlice.TopDown

variable (graph : Supergraph) (criteria : Criteria) (config : Config)

def pop (call : PointId) (fact : Fact) : Fact :=
  if fact.head? = some call then fact.removeHead else fact

def entersCallee (call : PointId) : Bool :=
  (graph.callees call).any fun method =>
    graph.program.hasBody method &&
      !config.isStaticInitializer (graph.program.methodName method)

def aroundFlow (call : PointId) (fact : Fact) : List Fact :=
  if criteria.isPoint call then [pop call fact]
  -- What is analysed through a callee may not go past the call as well.
  else if entersCallee graph config call then []
  else [fact]

def callFlow (call : PointId) (fact : Fact) : List Fact :=
  if criteria.hasExtension then [pop call fact] else [fact]

def problem (start : PointId) (seeds : List Fact) : FlowProblem Fact where
  zero := .zero
  seeds := (seeds ++ [Fact.zero]).map fun fact => (start, fact)
  normal _ _ fact := [fact]
  call site _ fact := callFlow criteria site fact
  ret _ _ _ _ fact := [fact]
  around site _ fact := aroundFlow graph criteria config site fact

/-- An upper bound on the facts that occur: zero, `epsilon` and the suffixes of
the seeds. -/
def factBound (seeds : List Fact) : Nat := 2 + (seeds.flatMap (·.points)).length

def start? : Option PointId := (graph.program.body graph.program.entry).head?

/-- Only statements of `reachable` are stepped onto. Nothing without a start. -/
def solve? (seeds : List Fact) (reachable : List PointId) : Option (Tabulation Fact) :=
  (start? graph).map fun start =>
    SeqSlice.solve (graph.restricted reachable).toInterGraph
      (problem graph criteria config start seeds)
      graph.program.points.length (factBound seeds)

end SeqSlice.TopDown
