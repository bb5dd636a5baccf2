import SeqSlice.Proofs.Solver.Path

/-! What one step of the tabulation adds to its tables.

Edges are never taken back, an edge is new exactly if it starts to wait, and each
kind of edge that a step makes is described by where it comes from. -/

set_option autoImplicit false
namespace SeqSlice.Tabulation

section
variable {D : Type} [DecidableEq D]

theorem mem_edges_propagate {table : Tabulation D} {edge other : PathEdge D} :
    other ∈ (table.propagate edge).edges ↔ other ∈ table.edges ∨ other = edge := by
  unfold propagate
  split
  · next known => exact ⟨.inl, fun either => either.elim id fun same => same ▸ known⟩
  · simp [or_comm]

theorem mem_pending_propagate {table : Tabulation D} {edge other : PathEdge D}
    (waits : other ∈ table.pending) : other ∈ (table.propagate edge).pending := by
  unfold propagate
  split
  · exact waits
  · exact List.mem_append_left _ waits

theorem propagate_new {table : Tabulation D} {edge other : PathEdge D}
    (member : other ∈ (table.propagate edge).edges) :
    other ∈ table.edges ∨ other ∈ (table.propagate edge).pending := by
  unfold propagate at member ⊢
  split at member
  · exact .inl member
  · next fresh =>
      rcases List.mem_cons.mp member with rfl | known
      · exact .inr (by simp [fresh])
      · exact .inl known

theorem of_mem_pending_propagate {table : Tabulation D} {edge other : PathEdge D}
    (waits : other ∈ (table.propagate edge).pending) : other ∈ table.pending ∨ other = edge := by
  unfold propagate at waits
  split at waits
  · exact .inl waits
  · simpa using waits

@[simp] theorem incoming_propagate (table : Tabulation D) (edge : PathEdge D) :
    (table.propagate edge).incoming = table.incoming := by
  unfold propagate
  split <;> rfl

@[simp] theorem summaries_propagate (table : Tabulation D) (edge : PathEdge D) :
    (table.propagate edge).summaries = table.summaries := by
  unfold propagate
  split <;> rfl

theorem propagateAll_cons (table : Tabulation D) (first : PathEdge D) (rest : List (PathEdge D)) :
    table.propagateAll (first :: rest) = (table.propagate first).propagateAll rest := rfl

@[simp] theorem incoming_propagateAll (table : Tabulation D) (edges : List (PathEdge D)) :
    (table.propagateAll edges).incoming = table.incoming := by
  induction edges generalizing table with
  | nil => rfl
  | cons first rest ih => rw [propagateAll_cons, ih, incoming_propagate]

@[simp] theorem summaries_propagateAll (table : Tabulation D) (edges : List (PathEdge D)) :
    (table.propagateAll edges).summaries = table.summaries := by
  induction edges generalizing table with
  | nil => rfl
  | cons first rest ih => rw [propagateAll_cons, ih, summaries_propagate]

theorem mem_edges_propagateAll {table : Tabulation D} {edges : List (PathEdge D)}
    {other : PathEdge D} :
    other ∈ (table.propagateAll edges).edges ↔ other ∈ table.edges ∨ other ∈ edges := by
  induction edges generalizing table with
  | nil => simp [propagateAll]
  | cons first rest ih => rw [propagateAll_cons, ih, mem_edges_propagate, List.mem_cons, or_assoc]

theorem mem_pending_propagateAll {table : Tabulation D} {edges : List (PathEdge D)}
    {other : PathEdge D} (waits : other ∈ table.pending) :
    other ∈ (table.propagateAll edges).pending := by
  induction edges generalizing table with
  | nil => exact waits
  | cons first rest ih => exact ih (mem_pending_propagate waits)

theorem propagateAll_new {table : Tabulation D} {edges : List (PathEdge D)} {other : PathEdge D}
    (member : other ∈ (table.propagateAll edges).edges) :
    other ∈ table.edges ∨ other ∈ (table.propagateAll edges).pending := by
  induction edges generalizing table with
  | nil => exact .inl member
  | cons first rest ih =>
      rw [propagateAll_cons] at member ⊢
      rcases ih member with known | waits
      · rcases propagate_new known with known | waits
        · exact .inl known
        · exact .inr (mem_pending_propagateAll waits)
      · exact .inr waits

theorem of_mem_pending_propagateAll {table : Tabulation D} {edges : List (PathEdge D)}
    {other : PathEdge D} (waits : other ∈ (table.propagateAll edges).pending) :
    other ∈ table.pending ∨ other ∈ edges := by
  induction edges generalizing table with
  | nil => exact .inl waits
  | cons first rest ih =>
      rw [propagateAll_cons] at waits
      rcases ih waits with before | member
      · rcases of_mem_pending_propagate before with before | rfl
        · exact .inl before
        · exact .inr List.mem_cons_self
      · exact .inr (List.mem_cons_of_mem _ member)

private theorem mem_foldl_insert {α : Type} [DecidableEq α] {values known : List α} {value : α} :
    value ∈ values.foldl (fun known entry => if entry ∈ known then known else entry :: known) known ↔
      value ∈ known ∨ value ∈ values := by
  induction values generalizing known with
  | nil => simp
  | cons first rest ih =>
      rw [List.foldl_cons, ih, List.mem_cons]
      split
      · next present =>
          constructor
          · rintro (old | new)
            · exact .inl old
            · exact .inr (.inr new)
          · rintro (old | rfl | new)
            · exact .inl old
            · exact .inl present
            · exact .inr new
      · rw [List.mem_cons, or_left_comm, or_assoc]

theorem mem_recordIncoming {table : Tabulation D} {entries : List (Incoming D)}
    {entry : Incoming D} :
    entry ∈ (table.recordIncoming entries).incoming ↔ entry ∈ table.incoming ∨ entry ∈ entries :=
  mem_foldl_insert

theorem mem_recordSummaries {table : Tabulation D} {entries : List (Summary D)}
    {entry : Summary D} :
    entry ∈ (table.recordSummaries entries).summaries ↔
      entry ∈ table.summaries ∨ entry ∈ entries :=
  mem_foldl_insert

end

section
variable {D : Type} [DecidableEq D] {graph : InterGraph} {problem : FlowProblem D}

theorem mem_normalEdges {edge made : PathEdge D} :
    made ∈ normalEdges graph problem edge ↔
      ∃ next ∈ graph.succs edge.point,
        ∃ image ∈ problem.apply (problem.normal edge.point next) edge.fact,
          made = ⟨next, edge.entry, image⟩ := by
  simp only [normalEdges, List.mem_flatMap, List.mem_map, eq_comm]

theorem mem_aroundEdges {edge made : PathEdge D} :
    made ∈ aroundEdges graph problem edge ↔
      ∃ next ∈ graph.returnSites edge.point,
        ∃ image ∈ problem.apply (problem.around edge.point next) edge.fact,
          made = ⟨next, edge.entry, image⟩ := by
  simp only [aroundEdges, List.mem_flatMap, List.mem_map, eq_comm]

theorem mem_entries {edge : PathEdge D} {callee : MethodId} {start : PointId} {entry : D} :
    (callee, start, entry) ∈ entries graph problem edge ↔
      callee ∈ graph.callees edge.point ∧ start ∈ graph.starts callee ∧
        entry ∈ problem.apply (problem.call edge.point callee) edge.fact := by
  simp only [entries, List.mem_flatMap, List.mem_map, Prod.mk.injEq]
  constructor
  · rintro ⟨_, called, _, starts, _, entered, rfl, rfl, rfl⟩
    exact ⟨called, starts, entered⟩
  · rintro ⟨called, starts, entered⟩
    exact ⟨callee, called, start, starts, entry, entered, rfl, rfl, rfl⟩

theorem mem_entryEdges {edge made : PathEdge D} :
    made ∈ entryEdges graph problem edge ↔
      ∃ callee start entry, (callee, start, entry) ∈ entries graph problem edge ∧
        made = ⟨start, entry, entry⟩ := by
  simp only [entryEdges, List.mem_map, Prod.exists, eq_comm]

theorem mem_entryRecords {edge : PathEdge D} {made : Incoming D} :
    made ∈ entryRecords graph problem edge ↔
      ∃ callee start entry, (callee, start, entry) ∈ entries graph problem edge ∧
        made = ⟨start, edge.point, entry, edge.fact⟩ := by
  simp only [entryRecords, List.mem_map, Prod.exists, eq_comm]

theorem mem_summaryEdges {summaries : List (Summary D)} {edge made : PathEdge D} :
    made ∈ summaryEdges graph problem summaries edge ↔
      ∃ callee, ∃ summary ∈ summaries,
        (callee, summary.start, summary.entry) ∈ entries graph problem edge ∧
        ∃ next ∈ graph.returnSites edge.point,
          ∃ image ∈ problem.apply (problem.ret edge.point callee summary.exit next) summary.fact,
            made = ⟨next, edge.entry, image⟩ := by
  simp only [summaryEdges, List.mem_flatMap, List.mem_filter, List.mem_map, Prod.exists,
    decide_eq_true_eq]
  constructor
  · rintro ⟨callee, _, _, entered, summary, ⟨known, rfl, rfl⟩, next, returns, image, left, rfl⟩
    exact ⟨callee, summary, known, entered, next, returns, image, left, rfl⟩
  · rintro ⟨callee, summary, known, entered, next, returns, image, left, rfl⟩
    exact ⟨callee, _, _, entered, summary, ⟨known, rfl, rfl⟩, next, returns, image, left, rfl⟩

omit [DecidableEq D] in
theorem mem_exitRecords {edge : PathEdge D} {made : Summary D} :
    made ∈ exitRecords graph edge ↔
      ∃ start ∈ graph.starts (graph.methodOf edge.point),
        made = ⟨start, edge.point, edge.entry, edge.fact⟩ := by
  simp only [exitRecords, List.mem_map, eq_comm]

theorem mem_returnEdges {table : Tabulation D} {edge made : PathEdge D} :
    made ∈ returnEdges graph problem table edge ↔
      ∃ record ∈ table.incoming, record.start ∈ graph.starts (graph.methodOf edge.point) ∧
        record.entry = edge.entry ∧
        ∃ caller ∈ table.edges, caller.point = record.site ∧ caller.fact = record.fact ∧
        ∃ next ∈ graph.returnSites record.site,
          ∃ image ∈ problem.apply
              (problem.ret record.site (graph.methodOf edge.point) edge.point next) edge.fact,
            made = ⟨next, caller.entry, image⟩ := by
  simp only [returnEdges, List.mem_flatMap, List.mem_filter, List.mem_map, decide_eq_true_eq]
  constructor
  · rintro ⟨_, starts, record, ⟨known, rfl, entry⟩, next, returns, caller, ⟨held, site, fact⟩, image,
      left, rfl⟩
    exact ⟨record, known, starts, entry, caller, held, site, fact, next, returns, image, left, rfl⟩
  · rintro ⟨record, known, starts, entry, caller, held, site, fact, next, returns, image, left, rfl⟩
    exact ⟨_, starts, record, ⟨known, rfl, entry⟩, next, returns, caller, ⟨held, site, fact⟩, image,
      left, rfl⟩

def made (graph : InterGraph) (problem : FlowProblem D) (table : Tabulation D)
    (edge : PathEdge D) : List (PathEdge D) :=
  if graph.isCall edge.point then
    entryEdges graph problem edge ++ summaryEdges graph problem table.summaries edge ++
      aroundEdges graph problem edge
  else if graph.isExit edge.point then
    returnEdges graph problem table edge ++ normalEdges graph problem edge
  else normalEdges graph problem edge

theorem mem_made {table : Tabulation D} {edge next : PathEdge D} :
    next ∈ made graph problem table edge ↔
      (graph.isCall edge.point = true ∧
        (next ∈ entryEdges graph problem edge ∨
          next ∈ summaryEdges graph problem table.summaries edge ∨
          next ∈ aroundEdges graph problem edge)) ∨
      (graph.isCall edge.point = false ∧
        ((graph.isExit edge.point = true ∧ next ∈ returnEdges graph problem table edge) ∨
          next ∈ normalEdges graph problem edge)) := by
  unfold made
  cases graph.isCall edge.point with
  | true => simp
  | false => cases graph.isExit edge.point <;> simp

def recorded (graph : InterGraph) (problem : FlowProblem D) (table : Tabulation D)
    (edge : PathEdge D) : Tabulation D :=
  if graph.isCall edge.point then table.recordIncoming (entryRecords graph problem edge)
  else if graph.isExit edge.point then table.recordSummaries (exitRecords graph edge)
  else table

theorem process_eq (table : Tabulation D) (edge : PathEdge D) :
    process graph problem table edge =
      (recorded graph problem table edge).propagateAll (made graph problem table edge) := by
  unfold process recorded made
  split
  · rfl
  · split <;> rfl

@[simp] theorem edges_recorded (table : Tabulation D) (edge : PathEdge D) :
    (recorded graph problem table edge).edges = table.edges := by
  unfold recorded
  split
  · rfl
  · split <;> rfl

@[simp] theorem pending_recorded (table : Tabulation D) (edge : PathEdge D) :
    (recorded graph problem table edge).pending = table.pending := by
  unfold recorded
  split
  · rfl
  · split <;> rfl

theorem mem_incoming_recorded {table : Tabulation D} {edge : PathEdge D} {record : Incoming D} :
    record ∈ (recorded graph problem table edge).incoming ↔
      record ∈ table.incoming ∨
        (graph.isCall edge.point = true ∧ record ∈ entryRecords graph problem edge) := by
  unfold recorded
  split
  · next isCall => simp [mem_recordIncoming, isCall]
  · next noCall => split <;> simp [recordSummaries, noCall]

theorem mem_summaries_recorded {table : Tabulation D} {edge : PathEdge D} {record : Summary D} :
    record ∈ (recorded graph problem table edge).summaries ↔
      record ∈ table.summaries ∨
        (graph.isCall edge.point = false ∧ graph.isExit edge.point = true ∧
          record ∈ exitRecords graph edge) := by
  unfold recorded
  split
  · next isCall => simp [recordIncoming, isCall]
  · next noCall =>
      split
      · next isExit => simp [mem_recordSummaries, noCall, isExit]
      · next noExit => simp [noCall, noExit]

theorem holds_iff {table : Tabulation D} {point : PointId} {fact : D} :
    table.holds point fact = true ↔ ∃ entry, ⟨point, entry, fact⟩ ∈ table.edges := by
  simp only [holds, List.any_eq_true, Bool.and_eq_true, beq_iff_eq, decide_eq_true_eq]
  constructor
  · rintro ⟨edge, member, rfl, rfl⟩
    exact ⟨edge.entry, member⟩
  · rintro ⟨entry, member⟩
    exact ⟨_, member, rfl, rfl⟩

theorem mem_edges_start {edge : PathEdge D} :
    edge ∈ (start problem).edges ↔
      ∃ seed ∈ problem.seeds, edge = ⟨seed.1, problem.zero, seed.2⟩ := by
  rw [start, mem_edges_propagateAll]
  simp only [empty, List.not_mem_nil, false_or, List.mem_map, eq_comm]

end
end SeqSlice.Tabulation
