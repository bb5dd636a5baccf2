import SeqSlice.Proofs.Solver.Schedule

/-! The edges that the rules of the tabulation call for.

They are the least set that holds the seeds and is closed under steps, calls and
returns; no order and no table occurs in it. If no statement is a start of two
methods, no run makes another edge: a call and an exit that meet at a start then
speak of the same method, whichever of them finds the other. -/

set_option autoImplicit false
namespace SeqSlice

def InterGraph.StartsOwned (graph : InterGraph) : Prop :=
  ∀ first second, ∀ start ∈ graph.starts first, start ∈ graph.starts second → first = second

theorem InterGraph.Local.startsOwned {graph : InterGraph} (isLocal : graph.Local) :
    graph.StartsOwned :=
  fun first second start one other =>
    (isLocal.starts first start one).symm.trans (isLocal.starts second start other)

namespace Tabulation

variable {D : Type} [DecidableEq D] (graph : InterGraph) (problem : FlowProblem D)

/-- The call carries the fact into the method that the exit stands in. -/
def Answers (caller leaving : PathEdge D) : Prop :=
  ∃ start, (graph.methodOf leaving.point, start, leaving.entry) ∈ entries graph problem caller

def Returned (caller leaving edge : PathEdge D) : Prop :=
  ∃ next ∈ graph.returnSites caller.point,
    ∃ image ∈ problem.apply
        (problem.ret caller.point (graph.methodOf leaving.point) leaving.point next) leaving.fact,
      edge = ⟨next, caller.entry, image⟩

inductive Derived : PathEdge D → Prop where
  | seed {seed : PointId × D} : seed ∈ problem.seeds → Derived ⟨seed.1, problem.zero, seed.2⟩
  | follow {edge next : PathEdge D} : Derived edge → graph.isCall edge.point = false →
      next ∈ normalEdges graph problem edge → Derived next
  | enter {edge next : PathEdge D} : Derived edge → graph.isCall edge.point = true →
      next ∈ entryEdges graph problem edge → Derived next
  | pass {edge next : PathEdge D} : Derived edge → graph.isCall edge.point = true →
      next ∈ aroundEdges graph problem edge → Derived next
  | leave {caller leaving next : PathEdge D} : Derived caller → Derived leaving →
      graph.isCall caller.point = true → graph.isCall leaving.point = false →
      graph.isExit leaving.point = true → Answers graph problem caller leaving →
      Returned graph problem caller leaving next → Derived next

def Summarized (record : Summary D) : Prop :=
  graph.isCall record.exit = false ∧ graph.isExit record.exit = true ∧
    record.start ∈ graph.starts (graph.methodOf record.exit) ∧
    Derived graph problem ⟨record.exit, record.entry, record.fact⟩

/-- The record of a call tells a call and what it carries into a method. -/
def Genuine (record : Incoming D) : Prop :=
  graph.isCall record.site = true ∧
    ∃ callee ∈ graph.callees record.site, record.start ∈ graph.starts callee ∧
      record.entry ∈ problem.apply (problem.call record.site callee) record.fact

structure Traced (table : Tabulation D) : Prop where
  edges : ∀ edge ∈ table.edges, Derived graph problem edge
  pending : ∀ edge ∈ table.pending, Derived graph problem edge
  incoming : ∀ record ∈ table.incoming, Genuine graph problem record
  summaries : ∀ record ∈ table.summaries, Summarized graph problem record

variable {graph problem}

theorem derived_of_made (owned : graph.StartsOwned) {table : Tabulation D} {edge next : PathEdge D}
    (traced : Traced graph problem table) (derived : Derived graph problem edge)
    (member : next ∈ made graph problem table edge) : Derived graph problem next := by
  rcases mem_made.mp member with ⟨isCall, entering | returning | passing⟩ |
    ⟨noCall, ⟨isExit, back⟩ | following⟩
  · exact .enter derived isCall entering
  · obtain ⟨callee, summary, known, entered, rest⟩ := mem_summaryEdges.mp returning
    -- The exit came first; its summary belongs to the method that is entered.
    obtain ⟨noCall, isExit, starts, inside⟩ := traced.summaries summary known
    have same := owned _ _ _ (mem_entries.mp entered).2.1 starts
    subst same
    exact .leave derived inside isCall noCall isExit ⟨_, entered⟩ rest
  · exact .pass derived isCall passing
  · obtain ⟨record, known, starts, sameEntry, caller, held, sameSite, sameFact, rest⟩ :=
      mem_returnEdges.mp back
    -- The call came first; the exit serves each edge that it was made from.
    obtain ⟨isCall, callee, called, begins, carried⟩ := traced.incoming record known
    have same := owned _ _ _ begins starts
    subst same
    rw [← sameSite] at isCall called carried rest
    rw [← sameFact, sameEntry] at carried
    exact .leave (traced.edges caller held) derived isCall noCall isExit
      ⟨_, mem_entries.mpr ⟨called, begins, carried⟩⟩ rest
  · exact .follow derived noCall following

theorem Traced.propagate {table : Tabulation D} {edge : PathEdge D}
    (traced : Traced graph problem table) (derived : Derived graph problem edge) :
    Traced graph problem (table.propagate edge) := by
  constructor
  · intro other member
    rcases mem_edges_propagate.mp member with known | rfl
    · exact traced.edges other known
    · exact derived
  · intro other waits
    rcases of_mem_pending_propagate waits with before | rfl
    · exact traced.pending other before
    · exact derived
  · rw [incoming_propagate]
    exact traced.incoming
  · rw [summaries_propagate]
    exact traced.summaries

theorem Traced.recorded {table : Tabulation D} {edge : PathEdge D} {rest : List (PathEdge D)}
    (traced : Traced graph problem table) (waiting : table.pending = edge :: rest) :
    Traced graph problem (recorded graph problem { table with pending := rest } edge) := by
  have derived := traced.pending edge (waiting ▸ List.mem_cons_self)
  constructor
  · intro other known
    rw [edges_recorded] at known
    exact traced.edges other known
  · intro other waits
    rw [pending_recorded] at waits
    exact traced.pending other (waiting ▸ List.mem_cons_of_mem _ waits)
  · intro record member
    rcases mem_incoming_recorded.mp member with known | ⟨isCall, new⟩
    · exact traced.incoming record known
    · obtain ⟨callee, start, entry, entered, rfl⟩ := mem_entryRecords.mp new
      obtain ⟨called, starts, carried⟩ := mem_entries.mp entered
      exact ⟨isCall, callee, called, starts, carried⟩
  · intro record member
    rcases mem_summaries_recorded.mp member with known | ⟨noCall, isExit, new⟩
    · exact traced.summaries record known
    · obtain ⟨start, starts, rfl⟩ := mem_exitRecords.mp new
      exact ⟨noCall, isExit, starts, derived⟩

theorem Runs.traced (owned : graph.StartsOwned) {taken : List (PathEdge D)} {table : Tabulation D}
    (runs : Runs graph problem taken table) : Traced graph problem table := by
  induction runs with
  | seeds =>
      refine propagateAll_keeps ⟨?_, ?_, ?_, ?_⟩ ?_
      · simp [empty]
      · simp [empty]
      · simp [empty]
      · simp [empty]
      · intro table edge listed kept
        obtain ⟨seed, member, rfl⟩ := List.mem_map.mp listed
        exact kept.propagate (.seed member)
  | @step _ edge _ _ _ taking ih =>
      refine taking.keeps (Traced graph problem) (fun rest => ih.recorded) ?_
      intro later other member kept
      exact kept.propagate (derived_of_made owned kept (ih.pending edge taking.waits) member)

end Tabulation
end SeqSlice
