import SeqSlice.Proofs.Solver.Complete
import SeqSlice.Proofs.Solver.Sound

/-! The solver is exact: it stops, and it then holds precisely the facts that
paths lead to. -/

set_option autoImplicit false
namespace SeqSlice

/-- The solver comes to its end with nothing left to do, and a fact is at a
statement exactly if a path from a seed brings it there. -/
theorem solve_exact {D : Type} [DecidableEq D] {graph : InterGraph} {problem : FlowProblem D}
    {points : List PointId} {facts : List D} {pointCount factCount : Nat}
    (isLocal : graph.Local) (uncalled : problem.SeedsUncalled graph)
    (within : problem.Within graph points facts)
    (fewPoints : points.length ≤ pointCount) (fewFacts : facts.length ≤ factCount) :
    (solve graph problem pointCount factCount).pending = [] ∧
      ∀ point fact, (solve graph problem pointCount factCount).holds point fact = true ↔
        Realizable graph problem point fact := by
  have drained := Tabulation.pending_solve within fewPoints fewFacts
  refine ⟨drained, fun point fact => ⟨?_, ?_⟩⟩
  · exact Tabulation.realizable_of_holds isLocal uncalled
  · exact Tabulation.holds_of_realizable isLocal drained

/-- The first method calls the other one twice, from 0 and from 2. -/
def twoCalls : InterGraph where
  methodOf point := if 4 ≤ point then 1 else 0
  succs point := if point < 3 ∨ point = 4 then [point + 1] else []
  callees point := if point = 0 ∨ point = 2 then [1] else []
  starts method := if method = 1 then [4] else if method = 0 then [0] else []
  returnSites point := if point < 3 ∨ point = 4 then [point + 1] else []
  isCall point := decide (point = 0 ∨ point = 2)
  isExit point := decide (point = 3 ∨ point = 5)

/-- A fact begins before the second call and passes through callees only. -/
def twoCallsFlows : FlowProblem (Fin 2) where
  zero := 0
  seeds := [(0, 0)]
  normal point _ fact := if point = 1 then [fact, 1] else [fact]
  call _ _ fact := [fact]
  ret _ _ _ _ fact := [fact]
  around _ _ _ := []

theorem twoCalls_local : twoCalls.Local := by
  constructor
  · intro point next member
    simp only [twoCalls] at member ⊢
    grind
  · intro point next member
    simp only [twoCalls] at member ⊢
    grind
  · intro method start member
    simp only [twoCalls] at member ⊢
    grind

theorem twoCalls_within : twoCallsFlows.Within twoCalls (List.range 6) [0, 1] := by
  have every : ∀ fact : Fin 2, fact ∈ [(0 : Fin 2), 1] := by decide
  constructor
  · exact every _
  · decide
  · decide
  · decide
  · decide
  · exact fun _ _ _ _ image _ => every image
  · exact fun _ _ _ _ image _ => every image
  · exact fun _ _ _ _ _ _ image _ => every image
  · exact fun _ _ _ _ image _ => every image

/-- The fact comes out of the second call and not out of the first, though the
callee makes no difference between them. -/
theorem twoCalls_returns_matched :
    twoCalls.Local ∧ twoCallsFlows.SeedsUncalled twoCalls ∧
      Realizable twoCalls twoCallsFlows 5 1 ∧ Realizable twoCalls twoCallsFlows 3 1 ∧
      ¬ Realizable twoCalls twoCallsFlows 1 1 := by
  have uncalled : twoCallsFlows.SeedsUncalled twoCalls := by
    intro seed listed site _ called
    simp [twoCallsFlows] at listed
    simp [twoCalls, listed] at called
  have solved := (solve_exact twoCalls_local uncalled twoCalls_within
    (Nat.le_refl 6) (Nat.le_refl 2)).2
  refine ⟨twoCalls_local, uncalled, (solved 5 1).mp (by decide), (solved 3 1).mp (by decide), ?_⟩
  intro path
  exact absurd ((solved 1 1).mpr path) (by decide)

end SeqSlice
