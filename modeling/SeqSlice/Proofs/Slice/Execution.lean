import SeqSlice.Proofs.Slice.Bound

/-! Executions of a supergraph, and how the two passes follow them. An execution
enters callees and comes back from them, or steps around a call whose callees are not
looked into. The backward pass can go back along each of its steps and puts the calls
that are stepped around before what it has built. The forward pass can follow each
step and takes these calls off again. -/

set_option autoImplicit false
namespace SeqSlice

/-- A call that has not returned yet, and where control goes on then. -/
structure OpenCall where
  site : PointId
  callee : MethodId
  next : PointId
  deriving DecidableEq, Repr

structure ExecState where
  stack : List OpenCall
  point : PointId
  deriving DecidableEq, Repr

/-- A statement that is left, and whether it is a call that is stepped around. -/
structure Move where
  point : PointId
  around : Bool
  deriving DecidableEq, Repr

section
variable (graph : Supergraph) (criteria : Criteria) (config : Config)

/-- A call is stepped around if it is a call of a criterion, or if it enters nothing
but static initializers. Calls that are entered know their callers. -/
inductive ExecStep : ExecState → Bool → ExecState → Prop where
  | normal {stack : List OpenCall} {point next : PointId} :
      graph.isCall point = false → next ∈ graph.succs point →
      ExecStep ⟨stack, point⟩ false ⟨stack, next⟩
  | leave {stack : List OpenCall} {site exit next : PointId} {callee : MethodId} :
      graph.isCall exit = false → graph.isEnd exit = true →
      ExecStep ⟨⟨site, callee, next⟩ :: stack, exit⟩ false ⟨stack, next⟩
  | enter {stack : List OpenCall} {site start next : PointId} {callee : MethodId} :
      graph.isCall site = true → callee ∈ graph.callees site → site ∈ graph.callers callee →
      start ∈ graph.program.starts callee → next ∈ graph.succs site →
      ExecStep ⟨stack, site⟩ false ⟨⟨site, callee, next⟩ :: stack, start⟩
  | around {stack : List OpenCall} {site next : PointId} :
      graph.isCall site = true → next ∈ graph.succs site →
      (criteria.isPoint site = true ∨ ∀ callee ∈ graph.callees site,
        graph.program.hasBody callee = true →
          config.isStaticInitializer (graph.program.methodName callee) = true) →
      ExecStep ⟨stack, site⟩ true ⟨stack, next⟩

inductive Executes : ExecState → List Move → ExecState → Prop where
  | done {state : ExecState} : Executes state [] state
  | step {state next final : ExecState} {around : Bool} {moves : List Move} :
      ExecStep graph criteria config state around next → Executes next moves final →
      Executes state (⟨state.point, around⟩ :: moves) final

end

def passed (moves : List Move) : List PointId := (moves.filter (·.around)).map (·.point)

def Supergraph.StartsApart (graph : Supergraph) : Prop :=
  ∀ method, ∀ start ∈ graph.program.starts method, graph.isReturnSite start = false

theorem Supergraph.startsApart_iff {graph : Supergraph} :
    graph.StartsApart ↔ ∀ method ∈ graph.program.methodIds,
      ∀ start ∈ graph.program.starts method, graph.isReturnSite start = false := by
  refine ⟨fun apart method _ => apart method, fun listed method start member => ?_⟩
  have inBody := Program.mem_body_of_mem_starts member
  exact listed method (Program.mem_methodIds_of_mem_body inBody) start member

instance (graph : Supergraph) : Decidable graph.StartsApart :=
  decidable_of_iff' _ Supergraph.startsApart_iff

/-- The open calls are calls of the graph, and each was made by the method that the
next one in the stack has entered. -/
def Supergraph.Stacked (graph : Supergraph) : List OpenCall → PointId → Prop
  | [], _ => True
  | call :: stack, point =>
      graph.methodOf point = call.callee ∧ graph.isCall call.site = true ∧
        call.callee ∈ graph.callees call.site ∧ call.next ∈ graph.succs call.site ∧
        graph.Stacked stack call.next

theorem Supergraph.Stacked.move {graph : Supergraph} {stack : List OpenCall} {point next : PointId}
    (stacked : graph.Stacked stack point) (same : graph.methodOf next = graph.methodOf point) :
    graph.Stacked stack next := by
  cases stack with
  | nil => trivial
  | cons call others => exact ⟨same.trans stacked.1, stacked.2⟩

variable {graph : Supergraph} {criteria : Criteria} {config : Config}

theorem ExecStep.stacked (linked : graph.Linked) {state next : ExecState} {around : Bool}
    (step : ExecStep graph criteria config state around next)
    (stacked : graph.Stacked state.stack state.point) : graph.Stacked next.stack next.point := by
  cases step with
  | normal _ follows => exact stacked.move (linked.methodOf_eq follows)
  | leave _ _ => exact stacked.2.2.2.2
  | enter isCall called _ starts follows =>
      have inCallee := Supergraph.methodOf_of_mem_body (Program.mem_body_of_mem_starts starts)
      exact ⟨inCallee, isCall, called, follows, stacked.move (linked.methodOf_eq follows)⟩
  | around _ follows _ => exact stacked.move (linked.methodOf_eq follows)

/-! ## Backwards -/

namespace BottomUp

/-- The open calls as the backward pass sees them: entered from where they return. -/
def frames (stack : List OpenCall) : List Frame := stack.map fun call => ⟨call.next, call.callee⟩

theorem isReturnSite_of_call (linked : graph.Linked) {site next : PointId}
    (isCall : graph.isCall site = true) (follows : next ∈ graph.succs site) :
    graph.isReturnSite next = true :=
  List.any_eq_true.mpr ⟨site, linked.mem_succs_iff.mp follows, isCall⟩

/-- Back along an edge, where a call before the statement makes it a return site. -/
theorem step_back (linked : graph.Linked) {stack : List Frame} {point next : PointId}
    (follows : next ∈ graph.succs point) (fact : Fact) :
    PathStep graph.backward.toInterGraph (problem graph criteria) ⟨stack, next, fact⟩
      ⟨stack, point, fact⟩ := by
  have before : point ∈ graph.preds next := linked.mem_succs_iff.mp follows
  by_cases isSite : graph.isReturnSite next = true
  · exact .around isSite before (FlowProblem.mem_apply.mpr (.inl (self_mem_aroundFlow point fact)))
  · have noCall : graph.backward.isCall next = false := Bool.eq_false_iff.mpr isSite
    refine .normal noCall before (FlowProblem.mem_apply.mpr (.inl ?_))
    simp [problem]

theorem keeps_step (linked : graph.Linked) (apart : graph.StartsApart)
    (asTheyAre : criteria.hasExtension = false) {state next : ExecState} {around : Bool}
    (step : ExecStep graph criteria config state around next)
    (stacked : graph.Stacked state.stack state.point) (fact : Fact) :
    PathStep graph.backward.toInterGraph (problem graph criteria)
      ⟨frames next.stack, next.point, fact⟩ ⟨frames state.stack, state.point, fact⟩ := by
  cases step with
  | normal _ follows => exact step_back linked follows fact
  | around _ follows _ => exact step_back linked follows fact
  | @leave _ site exit next callee noCall isEnd =>
      -- The return is an entry of the callee from its end.
      obtain ⟨inCallee, isCall, called, follows, _⟩ := stacked
      have entered : callee ∈ graph.calleesBefore next := by
        refine List.mem_eraseDups.mpr (List.mem_flatMap.mpr ⟨site, ?_, called⟩)
        exact List.mem_filter.mpr ⟨linked.mem_succs_iff.mp follows, isCall⟩
      have ends : exit ∈ graph.program.ends callee := by
        simpa [Supergraph.isEnd, inCallee] using isEnd
      refine .enter (isReturnSite_of_call linked isCall follows) entered ends
        (FlowProblem.mem_apply.mpr (.inl ?_))
      simp [problem]
  | @enter _ site start next callee isCall called known starts follows =>
      -- The entry is the return, and only callers of the method are returned to.
      have isStart : graph.isStart start = true := by
        have inCallee : graph.methodOf start = callee :=
          Supergraph.methodOf_of_mem_body (Program.mem_body_of_mem_starts starts)
        simpa [Supergraph.isStart, inCallee] using starts
      refine .leave (apart callee start starts) isStart (linked.mem_succs_iff.mp follows)
        (FlowProblem.mem_apply.mpr (.inl ?_))
      simp [problem, returnFlow, known, extended, extends?, asTheyAre]

theorem grows_step (linked : graph.Linked) {state next : ExecState}
    (step : ExecStep graph criteria config state true next) {criterion : Fact}
    (member : criterion ∈ criteria.sequences) {calls : List PointId}
    (ends : state.point :: calls <:+ criterion.points) :
    PathStep graph.backward.toInterGraph (problem graph criteria)
      ⟨frames next.stack, next.point, .seq calls⟩
      ⟨frames state.stack, state.point, .seq (state.point :: calls)⟩ := by
  cases step with
  | @around _ site next isCall follows _ =>
      have isPoint : criteria.isPoint site = true :=
        Criteria.isPoint_of_mem member (ends.subset List.mem_cons_self)
      refine .around (isReturnSite_of_call linked isCall follows) (linked.mem_succs_iff.mp follows)
        (FlowProblem.mem_apply.mpr (.inl ?_))
      cases calls with
      | nil =>
          have isTail := Criteria.isTail_iff.mpr ⟨criterion, member, ends⟩
          simp [problem, aroundFlow, isPoint, Fact.isEmpty, Fact.points, isTail]
      | cons call others =>
          have fits := Criteria.canAddHead_iff.mpr ⟨by simp, criterion, member, ends⟩
          simp [problem, aroundFlow, isPoint, Fact.isEmpty, Fact.points, fits, Fact.addHead]

end BottomUp

/-! ## Forwards -/

def Move.takeOff (move : Move) (rest : List PointId) : List PointId :=
  if move.around = true ∧ rest.head? = some move.point then rest.tail else rest

theorem Move.takeOff_suffix (move : Move) (rest : List PointId) : move.takeOff rest <:+ rest := by
  unfold takeOff
  split
  · exact List.tail_suffix rest
  · exact List.suffix_refl rest

namespace TopDown

def frames (stack : List OpenCall) : List Frame := stack.map fun call => ⟨call.site, call.callee⟩

variable {first : PointId} {seeds : List Fact} {region : List PointId}

theorem follows_step (asTheyAre : criteria.hasExtension = false) {state next : ExecState}
    {around : Bool} (step : ExecStep graph criteria config state around next)
    (stacked : graph.Stacked state.stack state.point) (allowed : next.point ∈ region)
    {rest : List PointId} (points : ∀ call ∈ rest, criteria.isPoint call = true) :
    PathStep (graph.restricted region).toInterGraph (problem graph criteria config first seeds)
      ⟨frames state.stack, state.point, Fact.left rest⟩
      ⟨frames next.stack, next.point, Fact.left (Move.takeOff ⟨state.point, around⟩ rest)⟩ := by
  have onto {source target : PointId} (follows : target ∈ graph.succs source)
      (inRegion : target ∈ region) : target ∈ (graph.succs source).filter region.contains :=
    List.mem_filter.mpr ⟨follows, by simpa using inRegion⟩
  cases step with
  | normal noCall follows =>
      refine .normal noCall (onto follows allowed) (FlowProblem.mem_apply.mpr (.inl ?_))
      simp [problem, Move.takeOff]
  | leave noCall isEnd =>
      obtain ⟨_, _, _, follows, _⟩ := stacked
      refine .leave noCall isEnd (onto follows allowed) (FlowProblem.mem_apply.mpr (.inl ?_))
      simp [problem, Move.takeOff]
  | enter isCall called _ starts _ =>
      refine .enter isCall called starts (FlowProblem.mem_apply.mpr (.inl ?_))
      simp [problem, callFlow, asTheyAre, Move.takeOff]
  | @around _ site next isCall follows skipped =>
      refine .around isCall (onto follows allowed) (FlowProblem.mem_apply.mpr (.inl ?_))
      by_cases isPoint : criteria.isPoint site = true
      · simp [problem, aroundFlow, isPoint, pop_left, Move.takeOff]
      · -- The call is none of the match, and nothing is entered there.
        have enters : entersCallee graph config site = false := by
          rw [entersCallee, List.any_eq_false]
          intro callee called
          have skipped := skipped.resolve_left isPoint callee called
          simpa using skipped
        have other : rest.head? ≠ some site := fun head =>
          isPoint (points site (List.mem_of_mem_head? head))
        simp [problem, aroundFlow, isPoint, enters, Move.takeOff, other]

end TopDown
end SeqSlice
