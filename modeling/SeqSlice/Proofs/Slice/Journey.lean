import SeqSlice.Proofs.Solver.Path
import SeqSlice.Slice.BottomUp
import SeqSlice.Slice.TopDown

/-! Paths of the two passes without their facts. A journey is a path on which every
return answers its call, together with a list of calls. Going forward, the list is
what is left of a match; going backward, it is what has been built. Only steps past
a call change it. -/

set_option autoImplicit false
namespace SeqSlice

/-- The path begins at `first` with the given list. `passing` says what a step past
a call makes of the list, by the statements before and behind it. -/
inductive Journey (graph : InterGraph)
    (passing : PointId → PointId → List PointId → List PointId → Prop)
    (first : PointId) (given : List PointId) : List Frame → PointId → List PointId → Prop where
  | start : Journey graph passing first given [] first given
  | normal {stack : List Frame} {point next : PointId} {calls : List PointId} :
      Journey graph passing first given stack point calls →
      graph.isCall point = false → next ∈ graph.succs point →
      Journey graph passing first given stack next calls
  | enter {stack : List Frame} {site start : PointId} {callee : MethodId} {calls : List PointId} :
      Journey graph passing first given stack site calls →
      graph.isCall site = true → callee ∈ graph.callees site → start ∈ graph.starts callee →
      Journey graph passing first given (⟨site, callee⟩ :: stack) start calls
  | leave {stack : List Frame} {site exit next : PointId} {callee : MethodId}
      {calls : List PointId} :
      Journey graph passing first given (⟨site, callee⟩ :: stack) exit calls →
      graph.isCall exit = false → graph.isExit exit = true → next ∈ graph.returnSites site →
      Journey graph passing first given stack next calls
  | around {stack : List Frame} {site next : PointId} {calls after : List PointId} :
      Journey graph passing first given stack site calls →
      graph.isCall site = true → next ∈ graph.returnSites site → passing site next calls after →
      Journey graph passing first given stack next after

/-- The call that is waited for is taken off; any other call changes nothing. -/
def TakesOff (site _next : PointId) (waiting rest : List PointId) : Prop :=
  if waiting.head? = some site then rest = waiting.tail else rest = waiting

/-- The call that is passed backwards may be put before the others. -/
def PutsBefore (_site next : PointId) (calls longer : List PointId) : Prop :=
  longer = calls ∨ longer = next :: calls

namespace Journey

variable {graph : InterGraph} {first : PointId} {given : List PointId} {stack : List Frame}
  {point : PointId} {calls : List PointId}

theorem suffix (journey : Journey graph TakesOff first given stack point calls) :
    calls <:+ given := by
  induction journey with
  | start => exact List.suffix_refl _
  | normal _ _ _ ih => exact ih
  | enter _ _ _ _ ih => exact ih
  | leave _ _ _ _ ih => exact ih
  | around _ _ _ takes ih =>
      unfold TakesOff at takes
      split at takes
      · subst takes
        exact (List.tail_suffix _).trans ih
      · exact takes ▸ ih

theorem forward_of_restricted {graph : Supergraph} {allowed : PointId → Bool}
    {passing : PointId → PointId → List PointId → List PointId → Prop}
    (journey : Journey (graph.forwardWhere allowed).toInterGraph passing first given stack point
      calls) :
    Journey graph.forward.toInterGraph passing first given stack point calls := by
  have wider {source next : PointId} (member : next ∈ (graph.succs source).filter allowed) :
      next ∈ (graph.succs source).filter fun _ => true := by
    simpa using (List.mem_filter.mp member).1
  induction journey with
  | start => exact .start
  | normal _ noCall follows ih => exact .normal ih noCall (wider follows)
  | enter _ isCall called starts ih => exact .enter ih isCall called starts
  | leave _ noCall isExit returns ih => exact .leave ih noCall isExit (wider returns)
  | around _ isCall returns passes ih => exact .around ih isCall (wider returns) passes

end Journey

def Fact.left : List PointId → Fact
  | [] => .epsilon
  | rest => .seq rest

theorem Fact.left_ne_zero (rest : List PointId) : Fact.left rest ≠ .zero := by
  cases rest <;> simp [left, zero]

theorem Fact.left_of_ne_nil {rest : List PointId} (some : rest ≠ []) : Fact.left rest = .seq rest := by
  cases rest with
  | nil => exact absurd rfl some
  | cons first others => rfl

theorem TopDown.pop_left (call : PointId) (rest : List PointId) :
    pop call (Fact.left rest) = Fact.left (if rest.head? = some call then rest.tail else rest) := by
  match rest with
  | [] => rfl
  | [first] =>
      by_cases same : first = call <;>
        simp [pop, Fact.left, Fact.head?, Fact.points, Fact.removeHead, same]
  | first :: second :: others =>
      by_cases same : first = call <;>
        simp [pop, Fact.left, Fact.head?, Fact.points, Fact.removeHead, same]

theorem FlowProblem.mem_apply_of_ne {D : Type} [DecidableEq D] {problem : FlowProblem D}
    {flow : D → List D} {fact image : D} (proper : fact ≠ problem.zero) :
    image ∈ problem.apply flow fact ↔ image ∈ flow fact := by
  rw [mem_apply]
  exact or_iff_left fun both => proper both.1

namespace TopDown

variable {graph : Supergraph} {criteria : Criteria} {config : Config} {first : PointId}
  {seeds : List Fact} {region : List PointId}

theorem journey_step (asTheyAre : criteria.hasExtension = false) {given rest : List PointId}
    (points : ∀ call ∈ given, criteria.isPoint call = true) {stack : List Frame} {point : PointId}
    {next : PathState Fact}
    (journey : Journey (graph.restricted region).toInterGraph TakesOff first given stack point rest)
    (taken : PathStep (graph.restricted region).toInterGraph
      (problem graph criteria config first seeds) ⟨stack, point, Fact.left rest⟩ next) :
    ∃ after, next.fact = Fact.left after ∧
      Journey (graph.restricted region).toInterGraph TakesOff first given next.stack next.point
        after := by
  have proper : Fact.left rest ≠ (problem graph criteria config first seeds).zero :=
    Fact.left_ne_zero rest
  cases taken with
  | normal noCall follows flows =>
      rw [FlowProblem.mem_apply_of_ne proper] at flows
      exact ⟨rest, List.mem_singleton.mp flows, .normal journey noCall follows⟩
  | enter isCall called starts flows =>
      rw [FlowProblem.mem_apply_of_ne proper] at flows
      simp only [problem, callFlow, asTheyAre] at flows
      exact ⟨rest, List.mem_singleton.mp flows, .enter journey isCall called starts⟩
  | leave noCall isExit returns flows =>
      rw [FlowProblem.mem_apply_of_ne proper] at flows
      exact ⟨rest, List.mem_singleton.mp flows, .leave journey noCall isExit returns⟩
  | around isCall returns flows =>
      rw [FlowProblem.mem_apply_of_ne proper] at flows
      simp only [problem, aroundFlow] at flows
      split at flows
      · rw [List.mem_singleton, pop_left] at flows
        refine ⟨_, flows, .around journey isCall returns ?_⟩
        unfold TakesOff
        split <;> rfl
      · -- No call of the match is passed here, since all of them are points of criteria.
        next notPoint =>
          split at flows
          · simp at flows
          · refine ⟨rest, List.mem_singleton.mp flows, .around journey isCall returns ?_⟩
            unfold TakesOff
            rw [if_neg]
            intro head
            have member := journey.suffix.subset (List.mem_of_mem_head? head)
            exact notPoint (points _ member)

theorem zero_step (asTheyAre : criteria.hasExtension = false) {stack : List Frame}
    {point : PointId} {next : PathState Fact}
    (taken : PathStep (graph.restricted region).toInterGraph
      (problem graph criteria config first seeds) ⟨stack, point, .zero⟩ next) :
    next.fact = .zero := by
  have pop_zero (call : PointId) : pop call .zero = .zero := rfl
  cases taken with
  | normal _ _ flows => simpa [FlowProblem.mem_apply, problem] using flows
  | enter _ _ _ flows => simpa [FlowProblem.mem_apply, problem, callFlow, asTheyAre] using flows
  | leave _ _ _ flows => simpa [FlowProblem.mem_apply, problem] using flows
  | around _ _ flows =>
      rcases FlowProblem.mem_apply.mp flows with flowed | ⟨_, rfl⟩
      · simp only [problem, aroundFlow, pop_zero] at flowed
        grind
      · rfl

theorem journey_of_path (asTheyAre : criteria.hasExtension = false) {given : List PointId}
    (points : ∀ call ∈ given, criteria.isPoint call = true) {state : PathState Fact}
    (path : Relation.ReflTransGen (PathStep (graph.restricted region).toInterGraph
      (problem graph criteria config first seeds)) ⟨[], first, Fact.left given⟩ state) :
    ∃ rest, state.fact = Fact.left rest ∧
      Journey (graph.restricted region).toInterGraph TakesOff first given state.stack state.point
        rest := by
  induction path with
  | refl => exact ⟨given, rfl, .start⟩
  | @tail middle last _ taken ih =>
      obtain ⟨rest, same, journey⟩ := ih
      obtain ⟨stack, point, fact⟩ := middle
      subst same
      exact journey_step asTheyAre points journey taken

theorem zero_of_path (asTheyAre : criteria.hasExtension = false) {state : PathState Fact}
    (path : Relation.ReflTransGen (PathStep (graph.restricted region).toInterGraph
      (problem graph criteria config first seeds)) ⟨[], first, .zero⟩ state) :
    state.fact = .zero := by
  induction path with
  | refl => rfl
  | @tail middle last _ taken ih =>
      obtain ⟨stack, point, fact⟩ := middle
      subst ih
      exact zero_step asTheyAre taken

end TopDown

namespace BottomUp

variable {graph : Supergraph} {criteria : Criteria}

theorem mem_aroundFlow (asTheyAre : criteria.hasExtension = false) {call : PointId}
    {calls : List PointId} {image : Fact}
    (flows : image ∈ aroundFlow criteria call (.seq calls)) :
    image = .seq calls ∨ image = .seq (call :: calls) := by
  simp only [aroundFlow, extends?, asTheyAre, Fact.isEmpty, Fact.addHead, Fact.points] at flows
  cases calls <;> grind

theorem journey_step (asTheyAre : criteria.hasExtension = false) {last : PointId}
    {stack : List Frame} {point : PointId} {calls : List PointId} {next : PathState Fact}
    (journey : Journey graph.backward.toInterGraph PutsBefore last [] stack point calls)
    (taken : PathStep graph.backward.toInterGraph (problem graph criteria)
      ⟨stack, point, .seq calls⟩ next) :
    ∃ after, next.fact = .seq after ∧
      Journey graph.backward.toInterGraph PutsBefore last [] next.stack next.point after := by
  -- Zero is kept everywhere, and it is the empty list.
  have kept {flow : Fact → List Fact} {image : Fact} (same : ∀ result ∈ flow (.seq calls),
      result = .seq calls) (flows : image ∈ (problem graph criteria).apply flow (.seq calls)) :
      image = .seq calls := by
    rcases FlowProblem.mem_apply.mp flows with flowed | ⟨isZero, rfl⟩
    · exact same image flowed
    · exact isZero.symm
  cases taken with
  | normal noCall follows flows =>
      exact ⟨calls, kept (by simp [problem]) flows, .normal journey noCall follows⟩
  | enter isCall called starts flows =>
      exact ⟨calls, kept (by simp [problem]) flows, .enter journey isCall called starts⟩
  | leave noCall isExit returns flows =>
      refine ⟨calls, kept ?_ flows, .leave journey noCall isExit returns⟩
      intro result member
      simp only [problem, returnFlow, extended, extends?, asTheyAre] at member
      grind
  | @around _ _ onto _ image isCall returns flows =>
      have grown : image = .seq calls ∨ image = .seq (onto :: calls) := by
        rcases FlowProblem.mem_apply.mp flows with flowed | ⟨isZero, rfl⟩
        · exact mem_aroundFlow asTheyAre flowed
        · exact .inl isZero.symm
      rcases grown with same | longer
      · exact ⟨calls, same, .around journey isCall returns (.inl rfl)⟩
      · exact ⟨onto :: calls, longer, .around journey isCall returns (.inr rfl)⟩

theorem journey_of_path (asTheyAre : criteria.hasExtension = false) {last : PointId}
    {state : PathState Fact}
    (path : Relation.ReflTransGen (PathStep graph.backward.toInterGraph (problem graph criteria))
      ⟨[], last, .zero⟩ state) :
    ∃ calls, state.fact = .seq calls ∧
      Journey graph.backward.toInterGraph PutsBefore last [] state.stack state.point calls := by
  induction path with
  | refl => exact ⟨[], rfl, .start⟩
  | @tail middle _ _ taken ih =>
      obtain ⟨calls, same, journey⟩ := ih
      obtain ⟨stack, point, fact⟩ := middle
      subst same
      exact journey_step asTheyAre journey taken

end BottomUp
end SeqSlice
