import SeqSlice.Proofs.Solver.Exact

/-! The outcome does not hang on the order in which sets are gone through.

A run that has come to its end holds the derived edges and no others, and these are
described without an order. This needs that no statement is a start of two methods:
at a shared start, a call that finds an exit returns by the method that it calls, and
an exit that finds a call by the method that it stands in. -/

set_option autoImplicit false
namespace SeqSlice
namespace Tabulation

variable {D : Type} [DecidableEq D]

structure Ends (graph : InterGraph) (problem : FlowProblem D) (taken : List (PathEdge D))
    (table : Tabulation D) : Prop where
  runs : Runs graph problem taken table
  drained : table.pending = []

variable {graph : InterGraph} {problem : FlowProblem D}

namespace Ends

variable {taken : List (PathEdge D)} {table : Tabulation D}
  (ended : Ends graph problem taken table)
include ended

theorem finished {edge : PathEdge D} (known : edge ∈ table.edges) : Finished table edge :=
  ⟨known, by simp [ended.drained]⟩

theorem holds_derived {edge : PathEdge D} (derived : Derived graph problem edge) :
    edge ∈ table.edges := by
  have saturated := ended.runs.saturated
  -- Nothing waits, so the premises of each rule are finished edges.
  induction derived with
  | seed listed => exact ended.runs.seeded listed
  | follow _ noCall member known =>
      exact saturated.followed _ (ended.finished known) noCall _ member
  | enter _ isCall member known =>
      exact (saturated.entered _ (ended.finished known) isCall).2 _ (List.mem_append_left _ member)
  | pass _ isCall member known =>
      exact (saturated.entered _ (ended.finished known) isCall).2 _ (List.mem_append_right _ member)
  | leave _ _ isCall noCall isExit answers returned caller leaving =>
      exact saturated.returned _ _ (ended.finished caller) (ended.finished leaving) isCall noCall
        isExit answers _ returned

theorem mem_edges_iff (owned : graph.StartsOwned) {edge : PathEdge D} :
    edge ∈ table.edges ↔ Derived graph problem edge :=
  ⟨(ended.runs.traced owned).edges edge, ended.holds_derived⟩

theorem mem_summaries_iff (owned : graph.StartsOwned) {record : Summary D} :
    record ∈ table.summaries ↔ Summarized graph problem record := by
  refine ⟨(ended.runs.traced owned).summaries record, ?_⟩
  rintro ⟨noCall, isExit, starts, derived⟩
  have known := ended.finished (ended.holds_derived derived)
  exact ended.runs.saturated.left _ known noCall isExit _
    (mem_exitRecords.mpr ⟨record.start, starts, rfl⟩)

theorem perm_edges : taken.Perm table.edges := by
  simpa [ended.drained] using ended.runs.accounts.split

end Ends

theorem ends_solve {points : List PointId} {facts : List D} {pointCount factCount : Nat}
    (within : problem.Within graph points facts) (fewPoints : points.length ≤ pointCount)
    (fewFacts : facts.length ≤ factCount) :
    ∃ taken, Ends graph problem taken (solve graph problem pointCount factCount) := by
  obtain ⟨taken, runs, _⟩ := runs_run graph problem (pointCount * (factCount * factCount))
  exact ⟨taken, runs, pending_solve within fewPoints fewFacts⟩

/-- Whatever the order, a run goes on until nothing waits, and it does come to an end.
It has then taken up every edge exactly once. Edges and summaries are the same in all
orders, unless methods share a start. -/
theorem outcome_of_any_order {points : List PointId} {facts : List D}
    (within : problem.Within graph points facts) :
    (∀ taken table, Runs graph problem taken table →
      taken.length ≤ points.length * (facts.length * facts.length) ∧
        (table.pending ≠ [] → ∃ edge next, Step graph problem table edge next)) ∧
    (∀ taken table, Ends graph problem taken table →
      taken.Nodup ∧ (∀ edge, edge ∈ taken ↔ edge ∈ table.edges) ∧
        taken.length = table.edges.length) ∧
    (graph.StartsOwned → ∀ taken table, Ends graph problem taken table →
      (∀ edge, edge ∈ table.edges ↔
        edge ∈ (solve graph problem points.length facts.length).edges) ∧
      ∀ record, record ∈ table.summaries ↔
        record ∈ (solve graph problem points.length facts.length).summaries) := by
  refine ⟨fun taken table runs => ?_, fun taken table ended => ?_, fun owned taken table ended => ?_⟩
  · have bounded := runs.length_le within
    exact ⟨by omega, exists_step⟩
  · have perm := ended.perm_edges
    exact ⟨perm.nodup_iff.mpr ended.runs.accounts.unique, fun _ => perm.mem_iff, perm.length_eq⟩
  · -- The solver's own run ends too, and derived edges know no order.
    obtain ⟨steps, solved⟩ := ends_solve within (Nat.le_refl points.length) (Nat.le_refl facts.length)
    constructor
    · intro edge
      rw [ended.mem_edges_iff owned, solved.mem_edges_iff owned]
    · intro record
      rw [ended.mem_summaries_iff owned, solved.mem_summaries_iff owned]

end Tabulation

open Tabulation

theorem twoCalls_reversed :
    twoCallsFlows.Within twoCalls (List.range 6) [0, 1] ∧ twoCalls.StartsOwned ∧
      ∃ taken table, Ends twoCalls twoCallsFlows taken table ∧
        table = runBy twoCalls twoCallsFlows List.reverse 24 (start twoCallsFlows) ∧
        table.incoming ≠ (solve twoCalls twoCallsFlows 6 2).incoming ∧
        taken.length = table.edges.length ∧
        ∀ edge, edge ∈ table.edges ↔ edge ∈ (solve twoCalls twoCallsFlows 6 2).edges := by
  have begun : Runs twoCalls twoCallsFlows [] (start twoCallsFlows) := .seeds
  obtain ⟨taken, runs, _⟩ := begun.arranged List.reverse (fun _ _ => List.mem_reverse) 24
  have ended : Ends twoCalls twoCallsFlows taken _ := ⟨runs, by decide⟩
  have owned := twoCalls_local.startsOwned
  obtain ⟨_, once, same⟩ := outcome_of_any_order twoCalls_within
  exact ⟨twoCalls_within, owned, taken, _, ended, rfl, by decide, (once _ _ ended).2.2,
    (same owned _ _ ended).1⟩

/-! ## A shared start -/

/-- From 1 one way leads to the call 2 and a longer one to the call 4. Both call method
1 and so come to 6, which is a start and the exit of method 2 as well. -/
def sharedStart : InterGraph where
  methodOf point := if point = 6 then 2 else 0
  succs point := [[1], [2, 3], [], [4], [5]].getD point []
  callees point := if point = 2 ∨ point = 4 then [1] else []
  starts method := if method = 0 then [0] else [6]
  returnSites point := if point = 4 then [5] else []
  isCall point := decide (point = 2 ∨ point = 4)
  isExit point := decide (point = 6)

/-- Facts 1 and 2 begin together; the first takes the short way, the second the long
one. Both enter as 3, which comes back as 4 from method 1 and as 5 from method 2. -/
def sharedStartFlows : FlowProblem (Fin 6) where
  zero := 0
  seeds := [(0, 0)]
  normal point next fact :=
    if point = 0 then if fact = 0 then [1, 2] else []
    else if next = 2 then [fact].filter (· = 1)
    else if next = 3 then [fact].filter (· = 2)
    else [fact]
  call _ _ fact := if fact = 0 then [] else [3]
  ret _ callee _ _ fact := if fact = 3 then if callee = 1 then [4] else [5] else []
  around _ _ _ := []

theorem sharedStart_within : sharedStartFlows.Within sharedStart (List.range 7) (List.finRange 6) := by
  constructor
  · exact List.mem_finRange _
  · decide
  · decide
  · decide
  · decide
  · exact fun _ _ _ _ image _ => List.mem_finRange image
  · exact fun _ _ _ _ image _ => List.mem_finRange image
  · exact fun _ _ _ _ _ _ image _ => List.mem_finRange image
  · exact fun _ _ _ _ image _ => List.mem_finRange image

def secondFirst (edges : List (PathEdge (Fin 6))) : List (PathEdge (Fin 6)) :=
  edges.filter (·.fact = 2) ++ edges.filter (·.fact ≠ 2)

theorem mem_secondFirst {edges : List (PathEdge (Fin 6))} {edge : PathEdge (Fin 6)} :
    edge ∈ secondFirst edges ↔ edge ∈ edges := by
  simp only [secondFirst, List.mem_append, List.mem_filter, decide_eq_true_eq]
  constructor
  · rintro (⟨member, _⟩ | ⟨member, _⟩) <;> exact member
  · intro member
    by_cases second : edge.fact = 2
    · exact .inl ⟨member, second⟩
    · exact .inr ⟨member, second⟩

/-- If fact 1 goes first, the exit is there before the long way has come to the call,
and method 1 is returned from. If fact 2 goes first, the call is there before the
exit, and method 2 is returned from. -/
theorem sharedStart_outcomes_differ :
    sharedStartFlows.Within sharedStart (List.range 7) (List.finRange 6) ∧
      ∃ taken table other last, Ends sharedStart sharedStartFlows taken table ∧
        Ends sharedStart sharedStartFlows other last ∧
        ⟨5, 0, 4⟩ ∈ table.edges ∧ ⟨5, 0, 4⟩ ∉ last.edges ∧
        ⟨5, 0, 5⟩ ∉ table.edges ∧ ⟨5, 0, 5⟩ ∈ last.edges := by
  have begun : Runs sharedStart sharedStartFlows [] (start sharedStartFlows) := .seeds
  obtain ⟨taken, runs, _⟩ := begun.arranged id (fun _ _ => Iff.rfl) 20
  obtain ⟨other, further, _⟩ := begun.arranged secondFirst (fun _ _ => mem_secondFirst) 20
  exact ⟨sharedStart_within, taken, _, other, _, ⟨runs, by decide⟩, ⟨further, by decide⟩,
    by decide, by decide, by decide, by decide⟩

end SeqSlice
