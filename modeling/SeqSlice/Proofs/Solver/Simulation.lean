import SeqSlice.Proofs.Solver.Order

/-! Two problems over one graph, the second of which can follow the first: each flow of
the first takes a fact to one that the same flow of the second reaches from a matching
fact. Everything that the first problem derives then has a match in the second.

A return asks for more than a match of its two edges: the fact at the exit must have
been derived from the one fact that the call of the second problem carries in. So the
match is found for every fact with which the second problem may have entered. -/

set_option autoImplicit false
namespace SeqSlice

def FlowsMatch {D E : Type} (related : D → E → Prop) (first : D → List D) (second : E → List E) :
    Prop :=
  ∀ fact other, related fact other → ∀ image ∈ first fact, ∃ reply ∈ second other, related image reply

theorem FlowsMatch.identity {D E : Type} {related : D → E → Prop} :
    FlowsMatch related (fun fact => [fact]) (fun other => [other]) :=
  fun _ other agree _ member =>
    ⟨other, List.mem_singleton_self other, List.mem_singleton.mp member ▸ agree⟩

structure FlowProblem.Follows {D E : Type} (graph : InterGraph) (related : D → E → Prop)
    (first : FlowProblem D) (second : FlowProblem E) : Prop where
  zero : related first.zero second.zero
  isZero : ∀ fact other, related fact other → (fact = first.zero ↔ other = second.zero)
  seeds : ∀ seed ∈ first.seeds, ∃ reply, (seed.1, reply) ∈ second.seeds ∧ related seed.2 reply
  normal : ∀ point next, FlowsMatch related (first.normal point next) (second.normal point next)
  call : ∀ site, ∀ callee ∈ graph.callees site,
    FlowsMatch related (first.call site callee) (second.call site callee)
  ret : ∀ site callee exit next,
    FlowsMatch related (first.ret site callee exit next) (second.ret site callee exit next)
  around : ∀ site next, FlowsMatch related (first.around site next) (second.around site next)

section
variable {D E : Type} [DecidableEq D] [DecidableEq E] {graph : InterGraph} {related : D → E → Prop}
  {first : FlowProblem D} {second : FlowProblem E}

/-- Zero is no exception, since it is matched by zero only. -/
theorem FlowProblem.Follows.apply (follows : first.Follows graph related second)
    {flow : D → List D} {reply : E → List E} (flows : FlowsMatch related flow reply) :
    FlowsMatch related (first.apply flow) (second.apply reply) := by
  intro fact other matched image member
  rcases FlowProblem.mem_apply.mp member with flowed | ⟨isZero, rfl⟩
  · obtain ⟨found, replied, agree⟩ := flows fact other matched image flowed
    exact ⟨found, FlowProblem.mem_apply.mpr (.inl replied), agree⟩
  · have same := (follows.isZero fact other matched).mp isZero
    exact ⟨second.zero, FlowProblem.mem_apply.mpr (.inr ⟨same, rfl⟩), follows.zero⟩

namespace Tabulation

/-- Facts of the problem may have entered the method with this one: it is zero, or it
is derived at each of the starts. -/
def Enters (graph : InterGraph) (problem : FlowProblem E) (method : MethodId) (entry : E) : Prop :=
  entry = problem.zero ∨ ∀ start ∈ graph.starts method, Derived graph problem ⟨start, entry, entry⟩

theorem Enters.of_call {caller : PathEdge E} {callee : MethodId} {entry : E}
    (derived : Derived graph second caller) (isCall : graph.isCall caller.point = true)
    (called : callee ∈ graph.callees caller.point)
    (carried : entry ∈ second.apply (second.call caller.point callee) caller.fact) :
    ∀ start ∈ graph.starts callee, Derived graph second ⟨start, entry, entry⟩ :=
  fun start starts => .enter derived isCall
    (mem_entryEdges.mpr ⟨callee, start, entry, mem_entries.mpr ⟨called, starts, carried⟩, rfl⟩)

/-- The second problem has a match of the edge: some fact that entered matches, and from
each of those that do the fact of the edge is matched. -/
structure Matched (graph : InterGraph) (related : D → E → Prop) (second : FlowProblem E)
    (edge : PathEdge D) : Prop where
  entered : ∃ entry, related edge.entry entry ∧ Enters graph second (graph.methodOf edge.point) entry
  replied : ∀ entry, related edge.entry entry → Enters graph second (graph.methodOf edge.point) entry →
    ∃ fact, related edge.fact fact ∧ Derived graph second ⟨edge.point, entry, fact⟩

omit [DecidableEq D] in
theorem Matched.step {edge : PathEdge D} {next : PointId} {image : D}
    (matched : Matched graph related second edge)
    (inside : graph.methodOf next = graph.methodOf edge.point)
    (steps : ∀ entry fact, related edge.fact fact → Derived graph second ⟨edge.point, entry, fact⟩ →
      ∃ reply, related image reply ∧ Derived graph second ⟨next, entry, reply⟩) :
    Matched graph related second ⟨next, edge.entry, image⟩ := by
  constructor
  · rw [inside]
    exact matched.entered
  · intro entry agrees enters
    obtain ⟨fact, found, derived⟩ := matched.replied entry agrees (inside ▸ enters)
    exact steps entry fact found derived

omit [DecidableEq D] in
theorem Matched.exists {edge : PathEdge D} (matched : Matched graph related second edge) :
    ∃ entry fact, related edge.fact fact ∧ Derived graph second ⟨edge.point, entry, fact⟩ := by
  obtain ⟨entry, agrees, enters⟩ := matched.entered
  exact ⟨entry, matched.replied entry agrees enters⟩

theorem Matched.enter (isLocal : graph.Local) (follows : first.Follows graph related second)
    {edge : PathEdge D} {callee : MethodId} {start : PointId} {entry : D}
    (matched : Matched graph related second edge) (isCall : graph.isCall edge.point = true)
    (entered : (callee, start, entry) ∈ entries graph first edge) :
    Matched graph related second ⟨start, entry, entry⟩ := by
  obtain ⟨called, starts, carried⟩ := mem_entries.mp entered
  have method : graph.methodOf start = callee := isLocal.starts callee start starts
  obtain ⟨origin, fact, found, derived⟩ := matched.exists
  obtain ⟨reply, replied, agrees⟩ :=
    follows.apply (follows.call _ callee called) _ _ found entry carried
  have begins := Enters.of_call derived isCall called replied
  refine ⟨⟨reply, agrees, .inr (method.symm ▸ begins)⟩, fun other agree enters => ?_⟩
  rcases enters with rfl | derivedAt
  · -- Only zero is matched by zero, and then the reply is zero as well.
    have isZero := (follows.isZero entry _ agree).mpr rfl
    have same := (follows.isZero entry reply agrees).mp isZero
    exact ⟨second.zero, agree, same ▸ begins start starts⟩
  · exact ⟨other, agree, derivedAt start (method.symm ▸ starts)⟩

theorem Matched.leave (isLocal : graph.Local) (follows : first.Follows graph related second)
    {caller leaving next : PathEdge D} (matched : Matched graph related second caller)
    (inner : Matched graph related second leaving) (isCall : graph.isCall caller.point = true)
    (noCall : graph.isCall leaving.point = false) (isExit : graph.isExit leaving.point = true)
    (answers : Answers graph first caller leaving)
    (returned : Returned graph first caller leaving next) : Matched graph related second next := by
  obtain ⟨start, entered⟩ := answers
  obtain ⟨called, starts, carried⟩ := mem_entries.mp entered
  obtain ⟨site, returns, image, left, rfl⟩ := returned
  refine matched.step (isLocal.returnSites _ _ returns) fun origin fact found derived => ?_
  -- What the second problem carries in here is a fact that may have entered, so the exit
  -- is matched from it.
  obtain ⟨entry, replied, agrees⟩ :=
    follows.apply (follows.call _ _ called) _ _ found leaving.entry carried
  obtain ⟨last, agree, leavingToo⟩ :=
    inner.replied entry agrees (.inr (Enters.of_call derived isCall called replied))
  obtain ⟨reply, came, same⟩ := follows.apply (follows.ret _ _ _ _) _ _ agree image left
  exact ⟨reply, same, .leave derived leavingToo isCall noCall isExit
    ⟨start, mem_entries.mpr ⟨called, starts, replied⟩⟩ ⟨site, returns, reply, came, rfl⟩⟩

theorem Derived.matched (isLocal : graph.Local) (follows : first.Follows graph related second)
    {edge : PathEdge D} (derived : Derived graph first edge) : Matched graph related second edge := by
  -- By induction on the derivation, since a return has two of them before it.
  induction derived with
  | @seed seed listed =>
      -- Seeds are entered with zero, and zero is matched by zero only.
      refine ⟨⟨second.zero, follows.zero, .inl rfl⟩, fun entry agrees _ => ?_⟩
      obtain ⟨reply, seeded, same⟩ := follows.seeds seed listed
      rw [(follows.isZero _ entry agrees).mp rfl]
      exact ⟨reply, same, .seed seeded⟩
  | follow _ noCall member matched =>
      obtain ⟨point, leads, image, flowed, rfl⟩ := mem_normalEdges.mp member
      refine matched.step (isLocal.succs _ _ leads) fun entry fact found derived => ?_
      obtain ⟨reply, replied, same⟩ := follows.apply (follows.normal _ _) _ _ found image flowed
      exact ⟨reply, same,
        .follow derived noCall (mem_normalEdges.mpr ⟨point, leads, reply, replied, rfl⟩)⟩
  | enter _ isCall member matched =>
      obtain ⟨callee, start, entry, entered, rfl⟩ := mem_entryEdges.mp member
      exact matched.enter isLocal follows isCall entered
  | pass _ isCall member matched =>
      obtain ⟨point, returns, image, flowed, rfl⟩ := mem_aroundEdges.mp member
      refine matched.step (isLocal.returnSites _ _ returns) fun entry fact found derived => ?_
      obtain ⟨reply, replied, same⟩ := follows.apply (follows.around _ _) _ _ found image flowed
      exact ⟨reply, same,
        .pass derived isCall (mem_aroundEdges.mpr ⟨point, returns, reply, replied, rfl⟩)⟩
  | leave _ _ isCall noCall isExit answers returned matched inner =>
      exact matched.leave isLocal follows inner isCall noCall isExit answers returned

/-- What the solver holds for the first problem has a match in what it holds for the
second. -/
theorem holds_of_follows (isLocal : graph.Local) (follows : first.Follows graph related second)
    {points : List PointId} {facts : List D} {others : List E} {pointCount factCount otherCount : Nat}
    (within : first.Within graph points facts) (withinToo : second.Within graph points others)
    (fewPoints : points.length ≤ pointCount) (fewFacts : facts.length ≤ factCount)
    (fewOthers : others.length ≤ otherCount) {point : PointId} {fact : D}
    (found : (solve graph first pointCount factCount).holds point fact = true) :
    ∃ other, related fact other ∧
      (solve graph second pointCount otherCount).holds point other = true := by
  obtain ⟨_, ended⟩ := ends_solve within fewPoints fewFacts
  obtain ⟨_, endedToo⟩ := ends_solve withinToo fewPoints fewOthers
  obtain ⟨entry, known⟩ := holds_iff.mp found
  have derived := (ended.mem_edges_iff isLocal.startsOwned).mp known
  obtain ⟨origin, other, matched, derivedToo⟩ := (derived.matched isLocal follows).exists
  exact ⟨other, matched,
    holds_iff.mpr ⟨origin, (endedToo.mem_edges_iff isLocal.startsOwned).mpr derivedToo⟩⟩

end Tabulation
end
end SeqSlice
