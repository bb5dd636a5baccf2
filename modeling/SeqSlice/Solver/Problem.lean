import SeqSlice.Program.Basic

/-! Distributive data-flow problems over an interprocedural graph. -/

set_option autoImplicit false
namespace SeqSlice

/-- A graph of bodies and calls, in the direction in which facts flow. -/
structure InterGraph where
  methodOf : PointId → MethodId
  succs : PointId → List PointId
  callees : PointId → List MethodId
  starts : MethodId → List PointId
  returnSites : PointId → List PointId
  isCall : PointId → Bool
  isExit : PointId → Bool

/-- Where facts begin and what becomes of a fact along each kind of edge. The
zero fact holds wherever control gets; what it generates is all that a flow has
to say about it. -/
structure FlowProblem (D : Type) where
  zero : D
  seeds : List (PointId × D)
  normal : (point next : PointId) → D → List D
  call : (site : PointId) → (callee : MethodId) → D → List D
  ret : (site : PointId) → (callee : MethodId) → (exit returnSite : PointId) → D → List D
  around : (site returnSite : PointId) → D → List D

/-- A flow applied to a fact; zero is never lost. -/
def FlowProblem.apply {D : Type} [DecidableEq D] (problem : FlowProblem D) (flow : D → List D)
    (fact : D) : List D :=
  if fact = problem.zero then problem.zero :: flow fact else flow fact

end SeqSlice
