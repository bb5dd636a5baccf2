import Mathlib.Data.List.Perm.Subperm
import Mathlib.Data.List.ProdSigma
import SeqSlice.Proofs.Solver.Derived

/-! The tabulation drains, and when nothing waits its edges follow every path.

The invariant speaks of finished edges, those that no longer wait. Each of them
has its consequences in the tables, and of a finished call and a finished exit
that answers it, the later one has found the earlier. The number of steps
suffices because every step finishes one edge and there are no more edges than
triples of a statement and two facts. -/

set_option autoImplicit false
namespace SeqSlice.Tabulation

variable {D : Type} [DecidableEq D] (graph : InterGraph) (problem : FlowProblem D)

def Finished (table : Tabulation D) (edge : PathEdge D) : Prop :=
  edge ∈ table.edges ∧ edge ∉ table.pending

structure Saturated (table : Tabulation D) : Prop where
  pending : ∀ edge ∈ table.pending, edge ∈ table.edges
  entered : ∀ edge, Finished table edge → graph.isCall edge.point = true →
    (∀ record ∈ entryRecords graph problem edge, record ∈ table.incoming) ∧
      (∀ next ∈ entryEdges graph problem edge ++ aroundEdges graph problem edge,
        next ∈ table.edges)
  left : ∀ edge, Finished table edge → graph.isCall edge.point = false →
    graph.isExit edge.point = true → ∀ record ∈ exitRecords graph edge, record ∈ table.summaries
  followed : ∀ edge, Finished table edge → graph.isCall edge.point = false →
    ∀ next ∈ normalEdges graph problem edge, next ∈ table.edges
  returned : ∀ caller leaving, Finished table caller → Finished table leaving →
    graph.isCall caller.point = true → graph.isCall leaving.point = false →
    graph.isExit leaving.point = true → Answers graph problem caller leaving →
    ∀ edge, Returned graph problem caller leaving edge → edge ∈ table.edges

variable {graph problem}

theorem finished_before {table : Tabulation D} {edge other : PathEdge D}
    {order : List (PathEdge D)}
    (finished : Finished ((recorded graph problem table edge).propagateAll order) other) :
    Finished table other := by
  obtain ⟨member, done⟩ := finished
  rcases propagateAll_new member with known | waits
  · rw [edges_recorded] at known
    refine ⟨known, fun waits => done (mem_pending_propagateAll ?_)⟩
    rw [pending_recorded]
    exact waits
  · exact absurd waits done

theorem made_entered {table : Tabulation D} {edge next : PathEdge D}
    (isCall : graph.isCall edge.point = true)
    (member : next ∈ entryEdges graph problem edge ++ aroundEdges graph problem edge) :
    next ∈ made graph problem table edge := by
  rcases List.mem_append.mp member with entering | passing
  · exact mem_made.mpr (.inl ⟨isCall, .inl entering⟩)
  · exact mem_made.mpr (.inl ⟨isCall, .inr (.inr passing)⟩)

/-- A call finds the exits that were processed before it. -/
theorem made_by_call {table : Tabulation D} {caller leaving edge : PathEdge D}
    (isCall : graph.isCall caller.point = true) (answers : Answers graph problem caller leaving)
    (recorded : ∀ record ∈ exitRecords graph leaving, record ∈ table.summaries)
    (returned : Returned graph problem caller leaving edge) :
    edge ∈ made graph problem table caller := by
  obtain ⟨start, entered⟩ := answers
  obtain ⟨next, returns, image, left, rfl⟩ := returned
  have starts := (mem_entries.mp entered).2.1
  have known := recorded _ (mem_exitRecords.mpr ⟨start, starts, rfl⟩)
  have found : ⟨next, caller.entry, image⟩ ∈ summaryEdges graph problem table.summaries caller :=
    mem_summaryEdges.mpr ⟨_, _, known, entered, next, returns, image, left, rfl⟩
  exact mem_made.mpr (.inl ⟨isCall, .inr (.inl found)⟩)

/-- An exit finds the calls that were processed before it, with every fact with
which the method of the call was entered. -/
theorem made_by_exit {table : Tabulation D} {caller leaving edge : PathEdge D}
    (noCall : graph.isCall leaving.point = false) (isExit : graph.isExit leaving.point = true)
    (answers : Answers graph problem caller leaving) (held : caller ∈ table.edges)
    (recorded : ∀ record ∈ entryRecords graph problem caller, record ∈ table.incoming)
    (returned : Returned graph problem caller leaving edge) :
    edge ∈ made graph problem table leaving := by
  obtain ⟨start, entered⟩ := answers
  obtain ⟨next, returns, image, left, rfl⟩ := returned
  have starts := (mem_entries.mp entered).2.1
  have known := recorded _ (mem_entryRecords.mpr ⟨_, start, _, entered, rfl⟩)
  have found : ⟨next, caller.entry, image⟩ ∈ returnEdges graph problem table leaving :=
    mem_returnEdges.mpr
      ⟨_, known, starts, rfl, caller, held, rfl, rfl, next, returns, image, left, rfl⟩
  exact mem_made.mpr (.inr ⟨noCall, .inl ⟨isExit, found⟩⟩)

theorem Saturated.step {table later : Tabulation D} {edge : PathEdge D}
    (saturated : Saturated graph problem table) (taken : Step graph problem table edge later) :
    Saturated graph problem later := by
  cases taken with
  | @take rest order _ waiting due spread =>
  obtain rfl := spread.eq_propagateAll
  have held : edge ∈ table.edges := saturated.pending edge (waiting ▸ List.mem_cons_self)
  have mem_edges {other : PathEdge D} :
      other ∈ ((recorded graph problem { table with pending := rest } edge).propagateAll
          order).edges ↔ other ∈ table.edges ∨ other ∈ order := by
    rw [mem_edges_propagateAll, edges_recorded]
  have kept {other : PathEdge D} (known : other ∈ table.edges) := mem_edges.mpr (.inl known)
  have fresh {other : PathEdge D}
      (new : other ∈ made graph problem { table with pending := rest } edge) :=
    mem_edges.mpr (.inr (due other new))
  -- A finished edge is the one taken up or was finished before.
  have earlier {other : PathEdge D}
      (finished : Finished ((recorded graph problem { table with pending := rest }
        edge).propagateAll order) other) : other = edge ∨ Finished table other := by
    obtain ⟨known, done⟩ := finished_before finished
    by_cases same : other = edge
    · exact .inl same
    · refine .inr ⟨known, fun waits => ?_⟩
      rw [waiting] at waits
      exact done ((List.mem_cons.mp waits).resolve_left same)
  constructor
  · intro other waits
    rcases of_mem_pending_propagateAll waits with before | new
    · rw [pending_recorded] at before
      exact kept (saturated.pending other (waiting ▸ List.mem_cons_of_mem _ before))
    · exact mem_edges.mpr (.inr new)
  · intro other finished isCall
    rw [incoming_propagateAll]
    rcases earlier finished with rfl | before
    · exact ⟨fun record made => mem_incoming_recorded.mpr (.inr ⟨isCall, made⟩),
        fun next member => fresh (made_entered isCall member)⟩
    · obtain ⟨records, edges⟩ := saturated.entered other before isCall
      exact ⟨fun record made => mem_incoming_recorded.mpr (.inl (records record made)),
        fun next member => kept (edges next member)⟩
  · intro other finished noCall isExit record made
    rw [summaries_propagateAll]
    rcases earlier finished with rfl | before
    · exact mem_summaries_recorded.mpr (.inr ⟨noCall, isExit, made⟩)
    · exact mem_summaries_recorded.mpr
        (.inl (saturated.left other before noCall isExit record made))
  · intro other finished noCall next member
    rcases earlier finished with rfl | before
    · exact fresh (mem_made.mpr (.inr ⟨noCall, .inr member⟩))
    · exact kept (saturated.followed other before noCall next member)
  · intro caller leaving callerDone leavingDone isCall noCall isExit answers next returned
    -- Whichever of the two is taken up last finds the other one recorded.
    rcases earlier callerDone with rfl | callerBefore
    · rcases earlier leavingDone with rfl | leavingBefore
      · rw [isCall] at noCall
        cases noCall
      · exact fresh (made_by_call isCall answers
          (saturated.left leaving leavingBefore noCall isExit) returned)
    · rcases earlier leavingDone with rfl | leavingBefore
      · exact fresh (made_by_exit noCall isExit answers callerBefore.1
          (saturated.entered caller callerBefore isCall).1 returned)
      · exact kept (saturated.returned caller leaving callerBefore leavingBefore isCall noCall isExit
          answers next returned)

theorem saturated_start : Saturated graph problem (start problem) := by
  have waits {edge : PathEdge D} (finished : Finished (start problem) edge) : False := by
    obtain ⟨member, done⟩ := finished
    rcases propagateAll_new member with known | waits
    · simp [empty] at known
    · exact done waits
  constructor
  · intro edge member
    rcases of_mem_pending_propagateAll member with none | seed
    · simp [empty] at none
    · exact mem_edges_propagateAll.mpr (.inr seed)
  · exact fun _ finished => (waits finished).elim
  · exact fun _ finished => (waits finished).elim
  · exact fun _ finished => (waits finished).elim
  · exact fun _ _ finished => (waits finished).elim

theorem Runs.saturated {taken : List (PathEdge D)} {table : Tabulation D}
    (runs : Runs graph problem taken table) : Saturated graph problem table := by
  induction runs with
  | seeds => exact saturated_start
  | step _ taking ih => exact ih.step taking

/-- The open calls of a path are known to the table: each was made with a fact
from which the entry fact of the method above it comes. -/
def Supported (graph : InterGraph) (problem : FlowProblem D) (table : Tabulation D) :
    List Frame → MethodId → D → Prop
  | [], _, _ => True
  | frame :: stack, method, entry =>
      frame.callee = method ∧ graph.isCall frame.site = true ∧
        ∃ caller ∈ table.edges, caller.point = frame.site ∧
          (∃ start, (method, start, entry) ∈ entries graph problem caller) ∧
          Supported graph problem table stack (graph.methodOf frame.site) caller.entry

def Covers (graph : InterGraph) (problem : FlowProblem D) (table : Tabulation D)
    (state : PathState D) : Prop :=
  ∃ entry, ⟨state.point, entry, state.fact⟩ ∈ table.edges ∧
    Supported graph problem table state.stack (graph.methodOf state.point) entry

theorem Covers.step (isLocal : graph.Local) {table : Tabulation D}
    (saturated : Saturated graph problem table) (drained : table.pending = [])
    {state next : PathState D} (covered : Covers graph problem table state)
    (taken : PathStep graph problem state next) : Covers graph problem table next := by
  have finished {edge : PathEdge D} (known : edge ∈ table.edges) : Finished table edge :=
    ⟨known, by simp [drained]⟩
  obtain ⟨entry, known, support⟩ := covered
  cases taken with
  | normal noCall follows flowed =>
      refine ⟨entry, ?_, ?_⟩
      · exact saturated.followed _ (finished known) noCall _
          (mem_normalEdges.mpr ⟨_, follows, _, flowed, rfl⟩)
      · rw [isLocal.succs _ _ follows]
        exact support
  | around isCall returns flowed =>
      refine ⟨entry, ?_, ?_⟩
      · refine (saturated.entered _ (finished known) isCall).2 _ (List.mem_append_right _ ?_)
        exact mem_aroundEdges.mpr ⟨_, returns, _, flowed, rfl⟩
      · rw [isLocal.returnSites _ _ returns]
        exact support
  | @enter stack site start callee fact image isCall called starts entered =>
      have member : (callee, start, image) ∈ entries graph problem ⟨site, entry, fact⟩ :=
        mem_entries.mpr ⟨called, starts, entered⟩
      refine ⟨image, ?_, ?_⟩
      · refine (saturated.entered _ (finished known) isCall).2 _ (List.mem_append_left _ ?_)
        exact mem_entryEdges.mpr ⟨_, _, _, member, rfl⟩
      · rw [isLocal.starts callee start starts]
        exact ⟨rfl, isCall, _, known, rfl, ⟨start, member⟩, support⟩
  | @leave stack site exit point callee fact image noCall isExit returns flowed =>
      -- The edge that the open call was made from is known, and it gets the fact back.
      obtain ⟨same, isCall, caller, held, sameSite, answers, rest⟩ := support
      dsimp only at same isCall sameSite answers rest
      subst same sameSite
      refine ⟨caller.entry, ?_, ?_⟩
      · exact saturated.returned caller _ (finished held) (finished known) isCall noCall isExit
          answers _ ⟨_, returns, _, flowed, rfl⟩
      · rw [isLocal.returnSites _ _ returns]
        exact rest

theorem Covers.path (isLocal : graph.Local) {table : Tabulation D}
    (saturated : Saturated graph problem table) (drained : table.pending = [])
    {state last : PathState D} (covered : Covers graph problem table state)
    (path : Relation.ReflTransGen (PathStep graph problem) state last) :
    Covers graph problem table last := by
  induction path with
  | refl => exact covered
  | tail _ taken ih => exact ih.step isLocal saturated drained taken

theorem holds_of_realizable (isLocal : graph.Local) {steps : Nat}
    (drained : (run graph problem steps (start problem)).pending = [])
    {point : PointId} {fact : D} (realizable : Realizable graph problem point fact) :
    (run graph problem steps (start problem)).holds point fact = true := by
  obtain ⟨stack, seed, listed, path⟩ := realizable
  obtain ⟨taken, runs, _⟩ := runs_run graph problem steps
  have first : Covers graph problem (run graph problem steps (start problem))
      ⟨[], seed.1, seed.2⟩ := ⟨problem.zero, runs.seeded listed, trivial⟩
  obtain ⟨entry, known, _⟩ := first.path isLocal runs.saturated drained path
  exact holds_iff.mpr ⟨entry, known⟩

/-! ## The number of steps -/

def edgesWithin (points : List PointId) (facts : List D) : List (PathEdge D) :=
  (points ×ˢ (facts ×ˢ facts)).map fun (point, entry, fact) => ⟨point, entry, fact⟩

omit [DecidableEq D] in
theorem mem_edgesWithin {points : List PointId} {facts : List D} {edge : PathEdge D} :
    edge ∈ edgesWithin points facts ↔
      edge.point ∈ points ∧ edge.entry ∈ facts ∧ edge.fact ∈ facts := by
  simp only [edgesWithin, List.mem_map, Prod.exists, List.mem_product]
  constructor
  · rintro ⟨point, entry, fact, inside, rfl⟩
    exact inside
  · intro inside
    exact ⟨_, _, _, inside, rfl⟩

omit [DecidableEq D] in
theorem length_edgesWithin (points : List PointId) (facts : List D) :
    (edgesWithin points facts).length = points.length * (facts.length * facts.length) := by
  simp [edgesWithin, List.length_product]

theorem made_within {points : List PointId} {facts : List D}
    (within : problem.Within graph points facts) {table : Tabulation D} {edge next : PathEdge D}
    (inside : ∀ other ∈ table.edges, other ∈ edgesWithin points facts)
    (held : edge ∈ edgesWithin points facts)
    (summaries : ∀ record ∈ table.summaries, record.fact ∈ facts)
    (member : next ∈ made graph problem table edge) : next ∈ edgesWithin points facts := by
  obtain ⟨atPoint, atEntry, atFact⟩ := mem_edgesWithin.mp held
  rcases mem_made.mp member with ⟨_, entering | returning | passing⟩ | ⟨_, ⟨_, back⟩ | following⟩
  · obtain ⟨callee, start, entry, entered, rfl⟩ := mem_entryEdges.mp entering
    obtain ⟨called, starts, carried⟩ := mem_entries.mp entered
    have entryIn := FlowProblem.apply_closed within.zero (within.call _ _) atFact carried
    exact mem_edgesWithin.mpr ⟨within.starts _ atPoint _ called _ starts, entryIn, entryIn⟩
  · obtain ⟨callee, summary, known, _, point, returns, image, left, rfl⟩ :=
      mem_summaryEdges.mp returning
    exact mem_edgesWithin.mpr ⟨within.returnSites _ atPoint _ returns, atEntry,
      FlowProblem.apply_closed within.zero (within.ret _ _ _ _) (summaries _ known) left⟩
  · obtain ⟨point, returns, image, flowed, rfl⟩ := mem_aroundEdges.mp passing
    exact mem_edgesWithin.mpr ⟨within.returnSites _ atPoint _ returns, atEntry,
      FlowProblem.apply_closed within.zero (within.around _ _) atFact flowed⟩
  · obtain ⟨record, _, _, _, caller, known, sameSite, _, point, returns, image, left, rfl⟩ :=
      mem_returnEdges.mp back
    -- The edge belongs to what the method of the call had been entered with.
    obtain ⟨callerPoint, callerEntry, _⟩ := mem_edgesWithin.mp (inside caller known)
    rw [← sameSite] at returns
    exact mem_edgesWithin.mpr ⟨within.returnSites _ callerPoint _ returns, callerEntry,
      FlowProblem.apply_closed within.zero (within.ret _ _ _ _) atFact left⟩
  · obtain ⟨point, follows, image, flowed, rfl⟩ := mem_normalEdges.mp following
    exact mem_edgesWithin.mpr ⟨within.succs _ atPoint _ follows, atEntry,
      FlowProblem.apply_closed within.zero (within.normal _ _) atFact flowed⟩

structure Bounded (points : List PointId) (facts : List D) (table : Tabulation D) : Prop where
  pending : ∀ edge ∈ table.pending, edge ∈ edgesWithin points facts
  edges : ∀ edge ∈ table.edges, edge ∈ edgesWithin points facts
  summaries : ∀ record ∈ table.summaries, record.fact ∈ facts

omit [DecidableEq D] in
theorem bounded_empty (points : List PointId) (facts : List D) : Bounded points facts empty := by
  constructor <;> simp [empty]

theorem Bounded.propagate {points : List PointId} {facts : List D} {table : Tabulation D}
    {edge : PathEdge D} (bounded : Bounded points facts table)
    (inside : edge ∈ edgesWithin points facts) : Bounded points facts (table.propagate edge) := by
  constructor
  · intro other waits
    rcases of_mem_pending_propagate waits with before | rfl
    · exact bounded.pending other before
    · exact inside
  · intro other member
    rcases mem_edges_propagate.mp member with known | rfl
    · exact bounded.edges other known
    · exact inside
  · rw [summaries_propagate]
    exact bounded.summaries

theorem Bounded.step {points : List PointId} {facts : List D}
    (within : problem.Within graph points facts) {table later : Tabulation D} {edge : PathEdge D}
    (bounded : Bounded points facts table) (taken : Step graph problem table edge later) :
    Bounded points facts later := by
  have held := bounded.pending edge taken.waits
  refine taken.keeps (Bounded points facts) (fun rest waiting => ⟨?_, ?_, ?_⟩)
    fun _ _ member kept => kept.propagate (made_within within kept.edges held kept.summaries member)
  · intro other waits
    rw [pending_recorded] at waits
    exact bounded.pending other (waiting ▸ List.mem_cons_of_mem _ waits)
  · intro other known
    rw [edges_recorded] at known
    exact bounded.edges other known
  · intro record member
    rcases mem_summaries_recorded.mp member with known | ⟨_, _, new⟩
    · exact bounded.summaries record known
    · obtain ⟨start, _, rfl⟩ := mem_exitRecords.mp new
      exact (mem_edgesWithin.mp held).2.2

theorem Runs.bounded {points : List PointId} {facts : List D}
    (within : problem.Within graph points facts) {taken : List (PathEdge D)} {table : Tabulation D}
    (runs : Runs graph problem taken table) : Bounded points facts table := by
  induction runs with
  | seeds =>
      refine propagateAll_keeps (bounded_empty points facts) fun _ edge listed kept => ?_
      obtain ⟨seed, member, rfl⟩ := List.mem_map.mp listed
      obtain ⟨atPoint, atFact⟩ := within.seeds seed member
      exact kept.propagate (mem_edgesWithin.mpr ⟨atPoint, within.zero, atFact⟩)
  | step _ taking ih => exact ih.step within taking

/-- A run takes up no more edges than there are triples, and what waits counts too. -/
theorem Runs.length_le {points : List PointId} {facts : List D}
    (within : problem.Within graph points facts) {taken : List (PathEdge D)} {table : Tabulation D}
    (runs : Runs graph problem taken table) :
    taken.length + table.pending.length ≤ points.length * (facts.length * facts.length) := by
  have few := (List.subperm_of_subset runs.accounts.unique (runs.bounded within).edges).length_le
  rwa [length_edgesWithin, ← runs.accounts.split.length_eq, List.length_append] at few

theorem pending_solve {points : List PointId} {facts : List D} {pointCount factCount : Nat}
    (within : problem.Within graph points facts) (fewPoints : points.length ≤ pointCount)
    (fewFacts : facts.length ≤ factCount) :
    (solve graph problem pointCount factCount).pending = [] := by
  unfold solve
  by_contra waits
  obtain ⟨taken, runs, counted⟩ := runs_run graph problem (pointCount * (factCount * factCount))
  have all := counted waits
  -- All steps have taken up an edge, and more of them wait: too many for the triples.
  have few := runs.length_le within
  have product : points.length * (facts.length * facts.length) ≤
      pointCount * (factCount * factCount) :=
    Nat.mul_le_mul fewPoints (Nat.mul_le_mul fewFacts fewFacts)
  have some := List.length_pos_of_ne_nil waits
  omega

theorem Runs.mem_of_holds {points : List PointId} {facts : List D}
    (within : problem.Within graph points facts) {taken : List (PathEdge D)} {table : Tabulation D}
    (runs : Runs graph problem taken table) {point : PointId} {fact : D}
    (found : table.holds point fact = true) : fact ∈ facts := by
  obtain ⟨entry, known⟩ := holds_iff.mp found
  exact (mem_edgesWithin.mp ((runs.bounded within).edges _ known)).2.2

theorem mem_of_holds {points : List PointId} {facts : List D} {pointCount factCount : Nat}
    (within : problem.Within graph points facts) {point : PointId} {fact : D}
    (found : (solve graph problem pointCount factCount).holds point fact = true) : fact ∈ facts := by
  obtain ⟨taken, runs, _⟩ := runs_run graph problem (pointCount * (factCount * factCount))
  exact runs.mem_of_holds within found

end SeqSlice.Tabulation
