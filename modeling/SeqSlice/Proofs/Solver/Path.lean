import Mathlib.Logic.Relation
import SeqSlice.Solver.Tabulation

/-! Paths on which every return answers the call that it belongs to.

A path carries the calls that are still open. It takes a fact along: each step
maps the fact by the flow of the edge, and zero is kept by every flow. What the
tabulation computes is stated against these paths. -/

set_option autoImplicit false
namespace SeqSlice

/-- A call that has not returned yet. -/
structure Frame where
  site : PointId
  callee : MethodId
  deriving DecidableEq, Repr

/-- Where a path stands: the open calls, the innermost first, and a fact at a
statement. -/
structure PathState (D : Type) where
  stack : List Frame
  point : PointId
  fact : D

section
variable {D : Type} [DecidableEq D] (graph : InterGraph) (problem : FlowProblem D)

/-- One edge of the exploded graph. A call statement is never left as an exit. -/
inductive PathStep : PathState D → PathState D → Prop where
  | normal {stack : List Frame} {point next : PointId} {fact image : D} :
      graph.isCall point = false → next ∈ graph.succs point →
      image ∈ problem.apply (problem.normal point next) fact →
      PathStep ⟨stack, point, fact⟩ ⟨stack, next, image⟩
  | enter {stack : List Frame} {site start : PointId} {callee : MethodId} {fact image : D} :
      graph.isCall site = true → callee ∈ graph.callees site → start ∈ graph.starts callee →
      image ∈ problem.apply (problem.call site callee) fact →
      PathStep ⟨stack, site, fact⟩ ⟨⟨site, callee⟩ :: stack, start, image⟩
  | leave {stack : List Frame} {site exit next : PointId} {callee : MethodId} {fact image : D} :
      graph.isCall exit = false → graph.isExit exit = true → next ∈ graph.returnSites site →
      image ∈ problem.apply (problem.ret site callee exit next) fact →
      PathStep ⟨⟨site, callee⟩ :: stack, exit, fact⟩ ⟨stack, next, image⟩
  | around {stack : List Frame} {site next : PointId} {fact image : D} :
      graph.isCall site = true → next ∈ graph.returnSites site →
      image ∈ problem.apply (problem.around site next) fact →
      PathStep ⟨stack, site, fact⟩ ⟨stack, next, image⟩

def ReachesWith (stack : List Frame) (point : PointId) (fact : D) : Prop :=
  ∃ seed ∈ problem.seeds,
    Relation.ReflTransGen (PathStep graph problem) ⟨[], seed.1, seed.2⟩ ⟨stack, point, fact⟩

def Realizable (point : PointId) (fact : D) : Prop :=
  ∃ stack, ReachesWith graph problem stack point fact

/-- A path that returns from every call it makes and does not look at the calls
that were open before. -/
def SameLevel (point : PointId) (fact : D) (target : PointId) (image : D) : Prop :=
  ∀ stack, Relation.ReflTransGen (PathStep graph problem) ⟨stack, point, fact⟩ ⟨stack, target, image⟩

end

/-- Steps and returns stay in a method, and methods start inside themselves. -/
structure InterGraph.Local (graph : InterGraph) : Prop where
  succs : ∀ point, ∀ next ∈ graph.succs point, graph.methodOf next = graph.methodOf point
  returnSites : ∀ point, ∀ next ∈ graph.returnSites point,
    graph.methodOf next = graph.methodOf point
  starts : ∀ method, ∀ start ∈ graph.starts method, graph.methodOf start = method

structure FlowProblem.Within {D : Type} (problem : FlowProblem D) (graph : InterGraph)
    (points : List PointId) (facts : List D) : Prop where
  zero : problem.zero ∈ facts
  seeds : ∀ seed ∈ problem.seeds, seed.1 ∈ points ∧ seed.2 ∈ facts
  succs : ∀ point ∈ points, ∀ next ∈ graph.succs point, next ∈ points
  returnSites : ∀ point ∈ points, ∀ next ∈ graph.returnSites point, next ∈ points
  starts : ∀ site ∈ points, ∀ callee ∈ graph.callees site, ∀ start ∈ graph.starts callee,
    start ∈ points
  normal : ∀ point next, ∀ fact ∈ facts, ∀ image ∈ problem.normal point next fact, image ∈ facts
  call : ∀ site callee, ∀ fact ∈ facts, ∀ image ∈ problem.call site callee fact, image ∈ facts
  ret : ∀ site callee exit next, ∀ fact ∈ facts,
    ∀ image ∈ problem.ret site callee exit next fact, image ∈ facts
  around : ∀ site next, ∀ fact ∈ facts, ∀ image ∈ problem.around site next fact, image ∈ facts

def FlowProblem.SeedsUncalled {D : Type} (problem : FlowProblem D) (graph : InterGraph) : Prop :=
  ∀ seed ∈ problem.seeds, ∀ site, graph.isCall site = true →
    graph.methodOf seed.1 ∉ graph.callees site

section
variable {D : Type} [DecidableEq D] {graph : InterGraph} {problem : FlowProblem D}

theorem FlowProblem.mem_apply {flow : D → List D} {fact image : D} :
    image ∈ problem.apply flow fact ↔
      image ∈ flow fact ∨ (fact = problem.zero ∧ image = problem.zero) := by
  unfold apply
  split
  · next isZero => simp [isZero, or_comm]
  · next notZero => simp [notZero]

theorem FlowProblem.apply_closed {flow : D → List D} {facts : List D} {fact image : D}
    (zero : problem.zero ∈ facts) (closed : ∀ fact ∈ facts, ∀ image ∈ flow fact, image ∈ facts)
    (inside : fact ∈ facts) (member : image ∈ problem.apply flow fact) : image ∈ facts := by
  rcases mem_apply.mp member with flowed | ⟨_, rfl⟩
  · exact closed fact inside image flowed
  · exact zero

theorem SameLevel.refl (point : PointId) (fact : D) :
    SameLevel graph problem point fact point fact := fun _ => .refl

theorem SameLevel.trans {point middle target : PointId} {fact between image : D}
    (first : SameLevel graph problem point fact middle between)
    (second : SameLevel graph problem middle between target image) :
    SameLevel graph problem point fact target image :=
  fun stack => (first stack).trans (second stack)

theorem SameLevel.through {site start exit next : PointId} {callee : MethodId}
    {fact entry result image : D}
    (isCall : graph.isCall site = true) (called : callee ∈ graph.callees site)
    (starts : start ∈ graph.starts callee)
    (entered : entry ∈ problem.apply (problem.call site callee) fact)
    (inside : SameLevel graph problem start entry exit result)
    (noCall : graph.isCall exit = false) (isExit : graph.isExit exit = true)
    (returns : next ∈ graph.returnSites site)
    (left : image ∈ problem.apply (problem.ret site callee exit next) result) :
    SameLevel graph problem site fact next image := by
  intro stack
  have enter : PathStep graph problem ⟨stack, site, fact⟩ ⟨⟨site, callee⟩ :: stack, start, entry⟩ :=
    .enter isCall called starts entered
  have leave : PathStep graph problem ⟨⟨site, callee⟩ :: stack, exit, result⟩ ⟨stack, next, image⟩ :=
    .leave noCall isExit returns left
  exact ((Relation.ReflTransGen.single enter).trans (inside _)).tail leave

theorem ReachesWith.extend {stack : List Frame} {point target : PointId} {fact image : D}
    (reached : ReachesWith graph problem stack point fact)
    (path : SameLevel graph problem point fact target image) :
    ReachesWith graph problem stack target image := by
  obtain ⟨seed, member, before⟩ := reached
  exact ⟨seed, member, before.trans (path stack)⟩

theorem ReachesWith.step {state next : PathState D}
    (reached : ReachesWith graph problem state.stack state.point state.fact)
    (taken : PathStep graph problem state next) :
    ReachesWith graph problem next.stack next.point next.fact := by
  obtain ⟨seed, member, before⟩ := reached
  exact ⟨seed, member, before.tail taken⟩

end
end SeqSlice
