import SeqSlice.Proofs.Solver.Derived

/-! Every edge of the tabulation stands for paths.

Each edge has an origin, a seed or a start that a call enters, from which a path
without open calls leads to the edge. An edge forgets which start of its method it
came from; since a call enters all starts of a method with the same facts, any of
them will do. Seeds are kept apart from entered methods by the condition that no call
enters the method of a seed. -/

set_option autoImplicit false
namespace SeqSlice.Tabulation

variable {D : Type} [DecidableEq D] (graph : InterGraph) (problem : FlowProblem D)

/-- Where the edges of a method that belong to an entry fact begin. -/
inductive Origin : MethodId → D → PointId → D → Prop where
  | seed {point : PointId} {fact : D} : (point, fact) ∈ problem.seeds →
      Origin (graph.methodOf point) problem.zero point fact
  | entered {site start : PointId} {callee : MethodId} {fact entry : D} :
      Realizable graph problem site fact → graph.isCall site = true →
      callee ∈ graph.callees site → start ∈ graph.starts callee →
      entry ∈ problem.apply (problem.call site callee) fact →
      Origin callee entry start entry

def Justified (edge : PathEdge D) : Prop :=
  ∃ origin fact, Origin graph problem (graph.methodOf edge.point) edge.entry origin fact ∧
    SameLevel graph problem origin fact edge.point edge.fact

variable {graph problem}

theorem Origin.reaches {method : MethodId} {entry fact : D} {origin : PointId}
    (begins : Origin graph problem method entry origin fact) : Realizable graph problem origin fact := by
  cases begins with
  | seed member => exact ⟨[], _, member, .refl⟩
  | entered reached isCall called starts entered =>
      obtain ⟨stack, before⟩ := reached
      exact ⟨_, ReachesWith.step before (PathStep.enter isCall called starts entered)⟩

theorem Justified.realizable {edge : PathEdge D} (justified : Justified graph problem edge) :
    Realizable graph problem edge.point edge.fact := by
  obtain ⟨origin, fact, begins, path⟩ := justified
  obtain ⟨stack, reached⟩ := begins.reaches
  exact ⟨stack, reached.extend path⟩

theorem Justified.step {edge : PathEdge D} {next : PointId} {image : D}
    (justified : Justified graph problem edge)
    (inside : graph.methodOf next = graph.methodOf edge.point)
    (path : SameLevel graph problem edge.point edge.fact next image) :
    Justified graph problem ⟨next, edge.entry, image⟩ := by
  obtain ⟨origin, fact, begins, before⟩ := justified
  refine ⟨origin, fact, ?_, before.trans path⟩
  rw [inside]
  exact begins

theorem Justified.enter (isLocal : graph.Local) {edge : PathEdge D} {callee : MethodId}
    {start : PointId} {entry : D} (justified : Justified graph problem edge)
    (isCall : graph.isCall edge.point = true)
    (entered : (callee, start, entry) ∈ entries graph problem edge) :
    Justified graph problem ⟨start, entry, entry⟩ := by
  obtain ⟨called, starts, carried⟩ := mem_entries.mp entered
  refine ⟨start, entry, ?_, .refl start entry⟩
  rw [isLocal.starts callee start starts]
  exact .entered justified.realizable isCall called starts carried

/-- Through a callee: what a call carries in meets what an exit makes of it. -/
theorem Justified.through (isLocal : graph.Local) (uncalled : problem.SeedsUncalled graph)
    {caller leaving : PathEdge D} {next : PointId} {image : D}
    (justified : Justified graph problem caller) (inside : Justified graph problem leaving)
    (isCall : graph.isCall caller.point = true)
    (called : graph.methodOf leaving.point ∈ graph.callees caller.point)
    (carried : leaving.entry ∈
      problem.apply (problem.call caller.point (graph.methodOf leaving.point)) caller.fact)
    (noCall : graph.isCall leaving.point = false) (isExit : graph.isExit leaving.point = true)
    (returns : next ∈ graph.returnSites caller.point)
    (left : image ∈ problem.apply
      (problem.ret caller.point (graph.methodOf leaving.point) leaving.point next) leaving.fact) :
    Justified graph problem ⟨next, caller.entry, image⟩ := by
  obtain ⟨origin, fact, begins, path⟩ := inside
  refine justified.step (isLocal.returnSites _ _ returns) ?_
  generalize methodEq : graph.methodOf leaving.point = method at begins called carried left
  generalize entryEq : leaving.entry = entry at begins carried
  cases begins with
  | seed member =>
      -- The callee holds a seed, so no call can enter it.
      exact absurd called (uncalled _ member _ isCall)
  | entered _ _ _ starts _ => exact .through isCall called starts carried path noCall isExit returns left

theorem Derived.justified (isLocal : graph.Local) (uncalled : problem.SeedsUncalled graph)
    {edge : PathEdge D} (derived : Derived graph problem edge) : Justified graph problem edge := by
  induction derived with
  | @seed seed listed => exact ⟨seed.1, seed.2, .seed listed, .refl seed.1 seed.2⟩
  | follow _ noCall member justified =>
      obtain ⟨point, follows, image, flowed, rfl⟩ := mem_normalEdges.mp member
      exact justified.step (isLocal.succs _ _ follows)
        fun _ => .single (.normal noCall follows flowed)
  | enter _ isCall member justified =>
      obtain ⟨callee, start, entry, entered, rfl⟩ := mem_entryEdges.mp member
      exact justified.enter isLocal isCall entered
  | pass _ isCall member justified =>
      obtain ⟨point, returns, image, flowed, rfl⟩ := mem_aroundEdges.mp member
      exact justified.step (isLocal.returnSites _ _ returns)
        fun _ => .single (.around isCall returns flowed)
  | leave _ _ isCall noCall isExit answers returned justified inside =>
      obtain ⟨start, entered⟩ := answers
      obtain ⟨next, returns, image, left, rfl⟩ := returned
      obtain ⟨called, _, carried⟩ := mem_entries.mp entered
      exact justified.through isLocal uncalled inside isCall called carried noCall isExit returns left

/-- Whatever the number of steps, a fact in the table is reached by a path. -/
theorem realizable_of_holds (isLocal : graph.Local) (uncalled : problem.SeedsUncalled graph)
    {steps : Nat} {point : PointId} {fact : D}
    (found : (run graph problem steps (start problem)).holds point fact = true) :
    Realizable graph problem point fact := by
  obtain ⟨entry, member⟩ := holds_iff.mp found
  obtain ⟨taken, runs, _⟩ := runs_run graph problem steps
  exact (((runs.traced isLocal.startsOwned).edges _ member).justified isLocal uncalled).realizable

end SeqSlice.Tabulation
