import SeqSlice.Proofs.Solver.Table

/-! Runs of the tabulation in any order.

Waiting edges are taken up in the order in which they came. But the results of a
flow, the summaries of a start, the callers that entered it and the facts with which
their methods were entered are sets, and a run may go through each of them as it
likes. What it then propagates comes in another order, and may rest on edges that the
same step has propagated before. -/

set_option autoImplicit false
namespace SeqSlice.Tabulation

section
variable {D : Type} [DecidableEq D] (graph : InterGraph) (problem : FlowProblem D)

/-- Edges are propagated one by one. Each of them is one that processing `edge` makes
from the tables as they are by then. -/
inductive Spreads (edge : PathEdge D) :
    List (PathEdge D) → Tabulation D → Tabulation D → Prop where
  | done {table : Tabulation D} : Spreads edge [] table table
  | next {table last : Tabulation D} {first : PathEdge D} {rest : List (PathEdge D)} :
      first ∈ made graph problem table edge → Spreads edge rest (table.propagate first) last →
      Spreads edge (first :: rest) table last

/-- The oldest waiting edge is taken up. The edges that it makes come in any order, and
none is left out that is due when the step begins. -/
inductive Step (table : Tabulation D) : PathEdge D → Tabulation D → Prop where
  | take {edge : PathEdge D} {rest order : List (PathEdge D)} {next : Tabulation D} :
      table.pending = edge :: rest →
      (∀ due ∈ made graph problem { table with pending := rest } edge, due ∈ order) →
      Spreads graph problem edge order
        (recorded graph problem { table with pending := rest } edge) next →
      Step table edge next

/-- Some run from the seeds takes up these edges, one after the other, and leaves the
table. -/
inductive Runs : List (PathEdge D) → Tabulation D → Prop where
  | seeds : Runs [] (start problem)
  | step {taken : List (PathEdge D)} {edge : PathEdge D} {table next : Tabulation D} :
      Runs taken table → Step graph problem table edge next → Runs (taken ++ [edge]) next

def runBy (arrange : List (PathEdge D) → List (PathEdge D)) : Nat → Tabulation D → Tabulation D
  | 0, table => table
  | steps + 1, table =>
      match table.pending with
      | [] => table
      | edge :: rest =>
          runBy arrange steps
            ((recorded graph problem { table with pending := rest } edge).propagateAll
              (arrange (made graph problem { table with pending := rest } edge)))

end

section
variable {D : Type} [DecidableEq D] {graph : InterGraph} {problem : FlowProblem D}

theorem Spreads.eq_propagateAll {edge : PathEdge D} {order : List (PathEdge D)}
    {table next : Tabulation D} (spread : Spreads graph problem edge order table next) :
    next = table.propagateAll order := by
  induction spread with
  | done => rfl
  | next _ _ ih => exact ih

theorem Step.waits {table next : Tabulation D} {edge : PathEdge D}
    (taken : Step graph problem table edge next) : edge ∈ table.pending := by
  cases taken with
  | take waiting => exact waiting ▸ List.mem_cons_self

theorem Spreads.keeps {Holds : Tabulation D → Prop} {edge : PathEdge D}
    {order : List (PathEdge D)} {table next : Tabulation D}
    (spread : Spreads graph problem edge order table next)
    (spreads : ∀ table, ∀ other ∈ made graph problem table edge, Holds table →
      Holds (table.propagate other))
    (first : Holds table) : Holds next := by
  induction spread with
  | done => exact first
  | next member _ ih => exact ih (spreads _ _ member first)

/-- What the records of a step establish and every propagated edge keeps holds after
the step. -/
theorem Step.keeps {table next : Tabulation D} {edge : PathEdge D}
    (taken : Step graph problem table edge next) (Holds : Tabulation D → Prop)
    (begins : ∀ rest, table.pending = edge :: rest →
      Holds (recorded graph problem { table with pending := rest } edge))
    (spreads : ∀ table, ∀ other ∈ made graph problem table edge, Holds table →
      Holds (table.propagate other)) : Holds next := by
  cases taken with
  | take waiting _ spread => exact spread.keeps spreads (begins _ waiting)

theorem propagateAll_keeps {Holds : Tabulation D → Prop} {table : Tabulation D}
    {edges : List (PathEdge D)} (first : Holds table)
    (keeps : ∀ table, ∀ edge ∈ edges, Holds table → Holds (table.propagate edge)) :
    Holds (table.propagateAll edges) :=
  List.foldlRecOn _ _ first fun table kept edge listed => keeps table edge listed kept

/-! ## The solver is one of these runs -/

structure Grows (table later : Tabulation D) : Prop where
  edges : ∀ edge ∈ table.edges, edge ∈ later.edges
  incoming : ∀ record ∈ table.incoming, record ∈ later.incoming
  summaries : ∀ record ∈ table.summaries, record ∈ later.summaries

theorem grows_propagate (table : Tabulation D) (edge : PathEdge D) :
    Grows table (table.propagate edge) where
  edges _ known := mem_edges_propagate.mpr (.inl known)
  incoming _ known := by rwa [incoming_propagate]
  summaries _ known := by rwa [summaries_propagate]

theorem grows_recorded (table : Tabulation D) (edge : PathEdge D) :
    Grows table (recorded graph problem table edge) where
  edges other known := by rwa [edges_recorded]
  incoming _ known := mem_incoming_recorded.mpr (.inl known)
  summaries _ known := mem_summaries_recorded.mpr (.inl known)

theorem Grows.made {table later : Tabulation D} (grows : Grows table later)
    {edge next : PathEdge D} (member : next ∈ made graph problem table edge) :
    next ∈ Tabulation.made graph problem later edge := by
  rw [mem_made] at member ⊢
  rcases member with ⟨isCall, entering | returning | passing⟩ | ⟨noCall, ⟨isExit, back⟩ | following⟩
  · exact .inl ⟨isCall, .inl entering⟩
  · obtain ⟨callee, summary, known, rest⟩ := mem_summaryEdges.mp returning
    exact .inl ⟨isCall, .inr (.inl
      (mem_summaryEdges.mpr ⟨callee, summary, grows.summaries _ known, rest⟩))⟩
  · exact .inl ⟨isCall, .inr (.inr passing)⟩
  · obtain ⟨record, known, starts, entry, caller, held, rest⟩ := mem_returnEdges.mp back
    exact .inr ⟨noCall, .inl ⟨isExit, mem_returnEdges.mpr
      ⟨record, grows.incoming _ known, starts, entry, caller, grows.edges _ held, rest⟩⟩⟩
  · exact .inr ⟨noCall, .inr following⟩

theorem spreads_propagateAll {edge : PathEdge D} {order : List (PathEdge D)}
    {table : Tabulation D} (due : ∀ other ∈ order, other ∈ made graph problem table edge) :
    Spreads graph problem edge order table (table.propagateAll order) := by
  induction order generalizing table with
  | nil => exact .done
  | cons first rest ih =>
      refine .next (due first List.mem_cons_self) (ih fun other member => ?_)
      exact (grows_propagate table first).made (due other (List.mem_cons_of_mem _ member))

theorem step_of_arrangement {table : Tabulation D} {edge : PathEdge D}
    {rest order : List (PathEdge D)} (waiting : table.pending = edge :: rest)
    (members : ∀ other, other ∈ order ↔
      other ∈ made graph problem { table with pending := rest } edge) :
    Step graph problem table edge
      ((recorded graph problem { table with pending := rest } edge).propagateAll order) := by
  refine .take waiting (fun due member => (members due).mpr member) (spreads_propagateAll ?_)
  exact fun other member => (grows_recorded _ _).made ((members other).mp member)

theorem runBy_id (steps : Nat) (table : Tabulation D) :
    runBy graph problem id steps table = run graph problem steps table := by
  induction steps generalizing table with
  | zero => rfl
  | succ steps ih =>
      cases waiting : table.pending with
      | nil => simp only [runBy, run, waiting]
      | cons edge rest =>
          simp only [runBy, run, step, waiting, id]
          rw [ih, process_eq]

theorem Runs.arranged (arrange : List (PathEdge D) → List (PathEdge D))
    (members : ∀ edges other, other ∈ arrange edges ↔ other ∈ edges) (steps : Nat)
    {taken : List (PathEdge D)} {table : Tabulation D} (runs : Runs graph problem taken table) :
    ∃ later, Runs graph problem (taken ++ later) (runBy graph problem arrange steps table) ∧
      ((runBy graph problem arrange steps table).pending ≠ [] → later.length = steps) := by
  induction steps generalizing taken table with
  | zero => exact ⟨[], by simpa [runBy] using runs, fun _ => rfl⟩
  | succ steps ih =>
      unfold runBy
      split
      · next drained => exact ⟨[], by simpa using runs, fun waits => absurd drained waits⟩
      · next edge rest waiting =>
          have taking := step_of_arrangement waiting (members (made graph problem _ edge))
          obtain ⟨later, further, counted⟩ := ih (runs.step taking)
          refine ⟨edge :: later, by simpa using further, fun waits => ?_⟩
          rw [List.length_cons, counted waits]

theorem runs_run (graph : InterGraph) (problem : FlowProblem D) (steps : Nat) :
    ∃ taken, Runs graph problem taken (run graph problem steps (start problem)) ∧
      ((run graph problem steps (start problem)).pending ≠ [] → taken.length = steps) := by
  have begun : Runs graph problem [] (start problem) := .seeds
  have runs := begun.arranged id (fun _ _ => Iff.rfl) steps
  rwa [runBy_id] at runs

theorem exists_step {table : Tabulation D} (waits : table.pending ≠ []) :
    ∃ edge next, Step graph problem table edge next := by
  cases waiting : table.pending with
  | nil => exact absurd waiting waits
  | cons edge rest => exact ⟨edge, _, step_of_arrangement waiting fun _ => Iff.rfl⟩

/-! ## What has been taken up -/

/-- Every known edge has been taken up or waits, and no edge is known twice. -/
structure Accounts (taken : List (PathEdge D)) (table : Tabulation D) : Prop where
  split : (taken ++ table.pending).Perm table.edges
  unique : table.edges.Nodup

theorem Accounts.propagate {taken : List (PathEdge D)} {table : Tabulation D}
    (accounts : Accounts taken table) (edge : PathEdge D) :
    Accounts taken (table.propagate edge) := by
  unfold Tabulation.propagate
  split
  · exact accounts
  · next fresh =>
      refine ⟨?_, List.nodup_cons.mpr ⟨fresh, accounts.unique⟩⟩
      have last : (taken ++ (table.pending ++ [edge])).Perm (edge :: (taken ++ table.pending)) := by
        rw [← List.append_assoc]
        exact List.perm_append_singleton edge _
      exact last.trans (accounts.split.cons edge)

theorem Runs.accounts {taken : List (PathEdge D)} {table : Tabulation D}
    (runs : Runs graph problem taken table) : Accounts taken table := by
  induction runs with
  | seeds =>
      exact propagateAll_keeps ⟨.nil, List.nodup_nil⟩ fun _ edge _ kept => kept.propagate edge
  | step _ taking ih =>
      refine taking.keeps (Accounts _) ?_ fun _ other _ kept => kept.propagate other
      intro rest waiting
      have split := ih.split
      rw [waiting] at split
      exact ⟨by simpa using split, by simpa using ih.unique⟩

theorem Runs.seeded {taken : List (PathEdge D)} {table : Tabulation D}
    (runs : Runs graph problem taken table) {seed : PointId × D} (listed : seed ∈ problem.seeds) :
    ⟨seed.1, problem.zero, seed.2⟩ ∈ table.edges := by
  induction runs with
  | seeds => exact mem_edges_start.mpr ⟨seed, listed, rfl⟩
  | step _ taking ih =>
      refine taking.keeps (⟨seed.1, problem.zero, seed.2⟩ ∈ ·.edges) ?_ ?_
      · intro rest _
        rwa [edges_recorded]
      · exact fun table other _ known => (grows_propagate table other).edges _ known

end
end SeqSlice.Tabulation
