import Mathlib
import SeqSlice.Proofs.Flow.LoopOrder

/-! Cutting loops: every back edge is taken out and its source is led to the exits
of the loop. Nothing gets lost, because back edges are not needed to reach a node.
If every cycle has a back edge, then no cycle is left, however loops are nested:
each added edge leaves some loop around its source beside a forward edge. -/

set_option autoImplicit false
namespace SeqSlice

namespace Digraph

inductive Walk (graph : Digraph) : Nat → List (Nat × Nat) → Nat → Prop where
  | nil (node : Nat) : Walk graph node [] node
  | cons {source middle target : Nat} {rest : List (Nat × Nat)} : graph.Edge source middle →
      Walk graph middle rest target → Walk graph source ((source, middle) :: rest) target

def Acyclic (graph : Digraph) : Prop := ∀ node edges, graph.Walk node edges node → edges = []

theorem exists_walk {graph : Digraph} {keeps : Nat → Nat → Prop} {first last : Nat}
    (walk : Relation.ReflTransGen keeps first last)
    (inGraph : ∀ source target, keeps source target → graph.Edge source target) :
    ∃ edges, graph.Walk first edges last ∧ ∀ edge ∈ edges, keeps edge.1 edge.2 := by
  induction walk using Relation.ReflTransGen.head_induction_on with
  | refl => exact ⟨[], .nil last, by simp⟩
  | @head source middle along _ ih =>
      obtain ⟨edges, rest, kept⟩ := ih
      refine ⟨(source, middle) :: edges, .cons (inGraph _ _ along) rest, ?_⟩
      simpa using ⟨along, fun first second member => kept (first, second) member⟩

theorem Walk.related {graph : Digraph} (relation : Nat → Nat → Prop)
    (trans : ∀ first middle last, relation first middle → relation middle last →
      relation first last)
    {first last : Nat} {edges : List (Nat × Nat)} (walk : graph.Walk first edges last)
    (each : ∀ source target, (source, target) ∈ edges → graph.Edge source target →
      relation source target) : edges = [] ∨ relation first last := by
  induction walk with
  | nil _ => exact .inl rfl
  | @cons source middle target rest step later ih =>
      right
      have now := each source middle List.mem_cons_self step
      cases later with
      | nil _ => exact now
      | cons _ _ =>
          have others := ih fun source target member => each source target (List.mem_cons_of_mem _ member)
          exact trans _ _ _ now (others.resolve_left (by simp))

theorem acyclic_of_growing {graph : Digraph} {place : Nat → List Nat}
    (grows : ∀ source target, graph.Edge source target → place source < place target) :
    graph.Acyclic := by
  intro node edges walk
  have either := walk.related (fun source target => place source < place target)
    (fun _ _ _ => List.lt_trans) fun source target _ => grows source target
  exact either.resolve_right (List.lt_irrefl _)

end Digraph

namespace FlowGraph

def cut (flow : FlowGraph) (loops : MethodLoops) : Digraph where
  nodes := flow.nodes
  edges :=
    flow.graph.edges.filter (fun edge => !loops.backEdges.contains ⟨edge.1, edge.2⟩) ++
      loops.redirections.flatMap fun (edge, exits) => exits.map fun exit => (edge.source, exit)

/-- Every cycle has a back edge. -/
def Reducible (flow : FlowGraph) (loops : MethodLoops) : Prop :=
  ∀ node edges, flow.graph.Walk node edges node → edges ≠ [] →
    ∃ edge ∈ edges, ⟨edge.1, edge.2⟩ ∈ loops.backEdges

variable {flow : FlowGraph} {root : PointId} {dominance : Dominance}

theorem reducible_of_ranked {loops : MethodLoops} (rank : Nat → Nat)
    (ranked : ∀ edge ∈ flow.graph.edges,
      ⟨edge.1, edge.2⟩ ∈ loops.backEdges ∨ rank edge.1 < rank edge.2) : flow.Reducible loops := by
  intro node edges walk some
  by_contra never
  have higher (source target : Nat) (member : (source, target) ∈ edges)
      (along : flow.graph.Edge source target) : rank source < rank target :=
    (ranked _ along).resolve_left fun back => never ⟨_, member, back⟩
  have either := walk.related (fun source target => rank source < rank target)
    (fun _ _ _ => Nat.lt_trans) higher
  exact Nat.lt_irrefl _ (either.resolve_left some)

theorem mem_directExits {nodes : List PointId} {point : PointId} :
    point ∈ flow.directExits nodes ↔
      point ∉ nodes ∧ ∃ node ∈ nodes, flow.graph.Edge node point := by
  simp only [directExits, mem_ascending, List.mem_filter, List.mem_flatMap, List.contains_eq_mem,
    Bool.not_eq_true', decide_eq_false_iff_not]
  exact ⟨fun ⟨⟨node, inside, follows⟩, outside⟩ =>
      ⟨outside, node, inside, flow.graph.mem_succs.mp follows⟩,
    fun ⟨outside, node, inside, along⟩ =>
      ⟨⟨node, inside, flow.graph.mem_succs.mpr along⟩, outside⟩⟩

theorem mem_exitsOf {table : List (PointId × List PointId)} {header point : PointId}
    {nodes : List PointId} (member : point ∈ flow.exitsOf dominance table header nodes) :
    (point ∈ flow.directExits nodes ∧ ¬ dominance.dominates point header = true) ∨
      ∃ outer ∈ flow.directExits nodes, dominance.dominates outer header = true ∧
        ∃ exits, (outer, exits) ∈ table ∧ point ∈ exits := by
  simp only [exitsOf, mem_ascending, List.mem_append, List.mem_filter, List.mem_flatMap,
    Bool.not_eq_true'] at member
  rcases member with ⟨direct, notAbove⟩ | ⟨outer, ⟨direct, above⟩, listed⟩
  · exact .inl ⟨direct, by simp [notAbove]⟩
  · refine .inr ⟨outer, direct, above, ?_⟩
    cases found : table.lookup outer with
    | none => simp [found] at listed
    | some exits =>
        obtain ⟨before, after, rfl, _⟩ := List.lookup_eq_some_iff.mp found
        exact ⟨exits, by simp, by simpa [found] using listed⟩

end FlowGraph

namespace Program

variable (program : Program) (flow : FlowGraph) (dominance : Dominance)

def regularEdges : List BackEdge :=
  (flow.backEdges dominance).filter fun edge => !program.isCatchEntry edge.header

def loopHeaders : List PointId :=
  flow.nodes.filter fun node => ((program.regularEdges flow dominance).map (·.header)).contains node

def loopAt (header : PointId) : List PointId :=
  flow.loopOf (program.regularEdges flow dominance) header

def loopExits : List (PointId × List PointId) :=
  flow.exitTable dominance ((program.loopHeaders flow dominance).map fun header =>
    (header, program.loopAt flow dominance header))

/-- The exit lies behind a loop around the loop of the header, and a forward edge
of that loop leads to it. -/
def Leaves (root header exit : PointId) : Prop :=
  ∃ outer ∈ program.loopHeaders flow dominance,
    (∀ node ∈ program.loopAt flow dominance header, node ∈ program.loopAt flow dominance outer) ∧
      exit ∉ program.loopAt flow dominance outer ∧
      ∃ gate ∈ program.loopAt flow dominance outer, Forward flow.graph.Edge root gate exit

variable {program flow dominance} {root : PointId}

theorem mem_regularEdges {edge : BackEdge} :
    edge ∈ program.regularEdges flow dominance ↔
      edge ∈ flow.backEdges dominance ∧ program.isCatchEntry edge.header = false := by
  simp [regularEdges]

theorem mem_loopHeaders (analysed : flow.Analysed root dominance) {header : PointId} :
    header ∈ program.loopHeaders flow dominance ↔
      ∃ edge ∈ program.regularEdges flow dominance, edge.header = header := by
  simp only [loopHeaders, List.mem_filter, List.contains_eq_mem, decide_eq_true_eq, List.mem_map]
  constructor
  · exact fun member => member.2
  · rintro ⟨edge, regular, rfl⟩
    have back := (FlowGraph.mem_backEdges analysed).mp (mem_regularEdges.mp regular).1
    exact ⟨analysed.rooted.target _ _ back.1, edge, regular, rfl⟩

theorem loopAt_isLoop (analysed : flow.Analysed root dominance) {header : PointId}
    (member : header ∈ program.loopHeaders flow dominance) :
    IsLoop flow.graph.Edge root header (program.loopAt flow dominance header) := by
  refine FlowGraph.loopOf_isLoop analysed (fun edge regular => (mem_regularEdges.mp regular).1) ?_
  obtain ⟨edge, regular, same⟩ := (mem_loopHeaders analysed).mp member
  exact List.mem_map.mpr ⟨edge, regular, same⟩

theorem source_mem_loopAt (analysed : flow.Analysed root dominance) {edge : BackEdge}
    (regular : edge ∈ program.regularEdges flow dominance) :
    edge.source ∈ program.loopAt flow dominance edge.header := by
  have back := (mem_regularEdges.mp regular).1
  exact FlowGraph.mem_loopOf.mpr
    ⟨edge, regular, rfl, FlowGraph.source_mem_naturalLoop analysed back⟩

/-- A loop that is left to a header above it lies in the loop of that header. -/
theorem loopAt_subset_of_exit (analysed : flow.Analysed root dominance) {header outer : PointId}
    (member : header ∈ program.loopHeaders flow dominance)
    (outerMember : outer ∈ program.loopHeaders flow dominance)
    (exits : outer ∈ flow.directExits (program.loopAt flow dominance header))
    (above : Dominates flow.graph.Edge root outer header) :
    ∀ node ∈ program.loopAt flow dominance header, node ∈ program.loopAt flow dominance outer := by
  have inner := loopAt_isLoop analysed member
  obtain ⟨outside, gate, inside, along⟩ := FlowGraph.mem_directExits.mp exits
  obtain ⟨known, regular, same⟩ := (mem_loopHeaders analysed).mp outerMember
  -- The edge by which the loop is left closes the outer one.
  have back : (⟨gate, outer⟩ : BackEdge) ∈ program.regularEdges flow dominance := by
    refine mem_regularEdges.mpr ⟨(FlowGraph.mem_backEdges analysed).mpr ⟨along, ?_⟩, ?_⟩
    · exact above.trans (inner.dominated gate inside)
    · exact same ▸ (mem_regularEdges.mp regular).2
  have different : outer ≠ header := fun same => outside (same ▸ inner.header_mem)
  exact (loopAt_isLoop analysed outerMember).nested inner above different
    (source_mem_loopAt analysed back) inside

theorem leaves_of_mem_exitsOf (analysed : flow.Analysed root dominance)
    {table : List (PointId × List PointId)} {header exit : PointId}
    (known : ∀ entry ∈ table, entry.1 ∈ program.loopHeaders flow dominance ∧
      ∀ exit ∈ entry.2, program.Leaves flow dominance root entry.1 exit)
    (member : header ∈ program.loopHeaders flow dominance)
    (listed : exit ∈ flow.exitsOf dominance table header (program.loopAt flow dominance header)) :
    program.Leaves flow dominance root header exit := by
  rcases FlowGraph.mem_exitsOf listed with ⟨direct, notAbove⟩ | ⟨outer, direct, above, exits, entry, inExits⟩
  · rw [analysed.dominates_iff] at notAbove
    obtain ⟨outside, gate, inside, along⟩ := FlowGraph.mem_directExits.mp direct
    have passes := (loopAt_isLoop analysed member).leaves_forward along inside outside notAbove
    exact ⟨header, member, fun _ => id, outside, gate, inside, passes⟩
  · -- The exits of the outer header are known, and its loop lies around this one.
    obtain ⟨outerMember, leaves⟩ := known _ entry
    obtain ⟨around, aroundMember, subset, outside, gate, inside, passes⟩ := leaves exit inExits
    have nested := loopAt_subset_of_exit analysed member outerMember direct
      ((analysed.dominates_iff _ _).mp above)
    exact ⟨around, aroundMember, fun node inner => subset node (nested node inner), outside, gate,
      inside, passes⟩

theorem leaves_of_mem_loopExits (analysed : flow.Analysed root dominance) :
    ∀ entry ∈ program.loopExits flow dominance,
      entry.1 ∈ program.loopHeaders flow dominance ∧
        ∀ exit ∈ entry.2, program.Leaves flow dominance root entry.1 exit := by
  have fold (headers : List PointId)
      (members : ∀ header ∈ headers, header ∈ program.loopHeaders flow dominance)
      (table : List (PointId × List PointId))
      (known : ∀ entry ∈ table, entry.1 ∈ program.loopHeaders flow dominance ∧
        ∀ exit ∈ entry.2, program.Leaves flow dominance root entry.1 exit) :
      ∀ entry ∈ (headers.map fun header => (header, program.loopAt flow dominance header)).foldl
        (fun table loop =>
          table ++ [(loop.1, flow.exitsOf dominance table loop.1 loop.2)]) table,
        entry.1 ∈ program.loopHeaders flow dominance ∧
          ∀ exit ∈ entry.2, program.Leaves flow dominance root entry.1 exit := by
    induction headers generalizing table with
    | nil => exact known
    | cons header rest ih =>
        have member := members header List.mem_cons_self
        refine ih (fun other inside => members other (List.mem_cons_of_mem _ inside)) _ ?_
        intro entry listed
        rcases List.mem_append.mp listed with old | new
        · exact known entry old
        · rw [List.mem_singleton.mp new]
          exact ⟨member, fun exit => leaves_of_mem_exitsOf analysed known member⟩
  exact fold _ (fun _ => id) [] (by simp)

theorem redirections_loopsOf : (program.loopsOf flow dominance).redirections =
    (flow.backEdges dominance).map fun edge =>
      (edge, if program.isCatchEntry edge.header then []
        else ((program.loopExits flow dominance).lookup edge.header).getD []) := rfl

theorem leaves_of_mem_lookup (analysed : flow.Analysed root dominance) {header exit : PointId}
    (member : exit ∈ ((program.loopExits flow dominance).lookup header).getD []) :
    header ∈ program.loopHeaders flow dominance ∧
      program.Leaves flow dominance root header exit := by
  cases found : (program.loopExits flow dominance).lookup header with
  | none => simp [found] at member
  | some exits =>
      obtain ⟨before, after, same, _⟩ := List.lookup_eq_some_iff.mp found
      have listed : (header, exits) ∈ program.loopExits flow dominance := by simp [same]
      obtain ⟨isHeader, leaves⟩ := leaves_of_mem_loopExits analysed _ listed
      exact ⟨isHeader, leaves exit (by simpa [found] using member)⟩

/-- Back edges are only led out of the loops that they close. -/
theorem leaves_of_redirected (analysed : flow.Analysed root dominance) {edge : BackEdge}
    {exits : List PointId} {exit : PointId}
    (listed : (edge, exits) ∈ (program.loopsOf flow dominance).redirections)
    (member : exit ∈ exits) :
    edge.source ∈ program.loopAt flow dominance edge.header ∧
      program.Leaves flow dominance root edge.header exit := by
  rw [redirections_loopsOf] at listed
  obtain ⟨known, back, same⟩ := List.mem_map.mp listed
  obtain ⟨rfl, rfl⟩ := Prod.mk.inj same
  by_cases handler : program.isCatchEntry known.header = true
  · simp [handler] at member
  · have regular : known ∈ program.regularEdges flow dominance :=
      mem_regularEdges.mpr ⟨back, by simpa using handler⟩
    refine ⟨source_mem_loopAt analysed regular, ?_⟩
    rw [if_neg handler] at member
    exact (leaves_of_mem_lookup analysed member).2

theorem beside_of_cut (analysed : flow.Analysed root dominance) {source target : PointId}
    (along : (flow.cut (program.loopsOf flow dominance)).Edge source target) :
    ∃ gate, Forward flow.graph.Edge root gate target ∧
      Beside (program.loopHeaders flow dominance) (program.loopAt flow dominance) source gate
        target := by
  rcases List.mem_append.mp along with kept | added
  · -- An edge that is kept is beside itself.
    obtain ⟨inGraph, notBack⟩ := List.mem_filter.mp kept
    refine ⟨source, ⟨inGraph, fun above => ?_⟩, .inl rfl⟩
    have back : (⟨source, target⟩ : BackEdge) ∈ flow.backEdges dominance :=
      (FlowGraph.mem_backEdges analysed).mpr ⟨inGraph, above⟩
    simp [loopsOf, back] at notBack
  · obtain ⟨⟨edge, exits⟩, listed, led⟩ := List.mem_flatMap.mp added
    obtain ⟨exit, member, same⟩ := List.mem_map.mp led
    obtain ⟨rfl, rfl⟩ := Prod.mk.inj same
    obtain ⟨inLoop, outer, outerMember, subset, outside, gate, inside, passes⟩ :=
      leaves_of_redirected analysed listed member
    exact ⟨gate, passes, .inr ⟨outer, outerMember, subset _ inLoop, inside, outside⟩⟩

/-- If all cycles have a back edge, then forward edges have none. -/
theorem forward_acyclic (analysed : flow.Analysed root dominance)
    (reducible : flow.Reducible (program.loopsOf flow dominance)) (node : PointId) :
    ¬ Relation.TransGen (Forward flow.graph.Edge root) node node := by
  intro cycle
  obtain ⟨next, along, rest⟩ := Relation.TransGen.head'_iff.mp cycle
  have onEdges (source target : Nat) (step : Forward flow.graph.Edge root source target) :
      flow.graph.Edge source target := step.1
  obtain ⟨edges, walk, forward⟩ := Digraph.exists_walk rest onEdges
  obtain ⟨edge, member, back⟩ := reducible node ((node, next) :: edges) (.cons along.1 walk) (by simp)
  have above := ((FlowGraph.mem_backEdges analysed).mp back).2
  rcases List.mem_cons.mp member with rfl | later
  · exact along.2 above
  · exact (forward edge later).2 above

theorem cut_acyclic (analysed : flow.Analysed root dominance)
    (reducible : flow.Reducible (program.loopsOf flow dominance)) :
    (flow.cut (program.loopsOf flow dominance)).Acyclic := by
  obtain ⟨rank, ranked⟩ := exists_rank analysed.source (forward_acyclic analysed reducible)
  -- One order of all headers, so that the loops around a node are met outermost first.
  let headers := (program.loopHeaders flow dominance).mergeSort fun first second =>
    decide (rank first ≤ rank second)
  have mem_headers {header : PointId} :
      header ∈ headers ↔ header ∈ program.loopHeaders flow dominance := List.mem_mergeSort
  have nest : LoopNest flow.graph.Edge root headers (program.loopAt flow dominance) rank := by
    refine ⟨fun header member => loopAt_isLoop analysed (mem_headers.mp member), ranked, ?_⟩
    refine (List.pairwise_mergeSort ?_ ?_ _).imp of_decide_eq_true
    · intro first second third before after
      simp only [decide_eq_true_eq] at before after ⊢
      omega
    · intro first second
      simp only [Bool.or_eq_true, decide_eq_true_eq]
      omega
  have grows (source target : PointId)
      (along : (flow.cut (program.loopsOf flow dominance)).Edge source target) :
      place headers (program.loopAt flow dominance) rank source <
        place headers (program.loopAt flow dominance) rank target := by
    obtain ⟨gate, passes, beside⟩ := beside_of_cut analysed along
    refine nest.place_lt passes (beside.imp id ?_)
    rintro ⟨header, member, shared⟩
    exact ⟨header, mem_headers.mpr member, shared⟩
  exact Digraph.acyclic_of_growing grows

theorem cut_reaches (analysed : flow.Analysed root dominance) {node : PointId}
    (member : node ∈ flow.nodes) :
    ∃ edges, (flow.cut (program.loopsOf flow dominance)).Walk root edges node := by
  have forward := reached_forward (analysed.reached node member)
  have kept (source target : PointId) (step : Forward flow.graph.Edge root source target) :
      (flow.cut (program.loopsOf flow dominance)).Edge source target := by
    refine List.mem_append_left _ (List.mem_filter.mpr ⟨step.1, ?_⟩)
    have notBack : (⟨source, target⟩ : BackEdge) ∉ flow.backEdges dominance :=
      fun back => step.2 ((FlowGraph.mem_backEdges analysed).mp back).2
    simpa [loopsOf] using notBack
  obtain ⟨edges, walk, _⟩ := Digraph.exists_walk forward kept
  exact ⟨edges, walk⟩

theorem methodLoops_of_no_head {method : MethodId} (found : program.flowHead? method = none) :
    program.methodLoops method = .empty := by
  simp [methodLoops, FlowGraph.dominance?, flowGraph, found]

theorem methodLoops_of_head {method : MethodId} {head : PointId}
    (found : program.flowHead? method = some head) :
    program.methodLoops method = program.loopsOf (program.flowGraph method)
      ((program.flowGraph method).graph.dominance head) := by
  simp [methodLoops, FlowGraph.dominance?, flowGraph, found]

/-- Cutting the loops of a method keeps all of its statements in reach and leaves no
cycle, provided that every cycle had a back edge. -/
theorem loops_cut (program : Program) (method : MethodId) :
    (∀ node ∈ (program.flowGraph method).nodes, ∃ head,
      (program.flowGraph method).head = some head ∧ ∃ edges,
        ((program.flowGraph method).cut (program.methodLoops method)).Walk head edges node) ∧
      ((program.flowGraph method).Reducible (program.methodLoops method) →
        ((program.flowGraph method).cut (program.methodLoops method)).Acyclic) := by
  cases found : program.flowHead? method with
  | none =>
      have none := flowNodes_of_no_head found
      refine ⟨fun node member => absurd member (none node), fun _ node edges walk => ?_⟩
      cases walk with
      | nil _ => rfl
      | cons step _ =>
          rw [methodLoops_of_no_head found] at step
          rcases List.mem_append.mp step with kept | added
          · exact absurd (mem_flowEdges.mp (List.mem_filter.mp kept).1).1 (none _)
          · simp [MethodLoops.empty] at added
  | some head =>
      have analysed := flowGraph_analysed found
      rw [methodLoops_of_head found]
      exact ⟨fun node member => ⟨head, found, cut_reaches analysed member⟩, cut_acyclic analysed⟩

end Program

/-- A loop in a loop: 3 leads back to 2, and 2 back to 1. -/
def nestedListing : Listing where
  entry := some 0
  classes := [⟨0, "Main", none, [], false, false⟩]
  methods := [⟨0, 0, "main", "", true, false, [0, 1, 2, 3, 4]⟩]
  points := (List.range 5).map fun point => ⟨point, 0, 1, .plain, ""⟩
  edges := [⟨0, 1, false⟩, ⟨1, 2, false⟩, ⟨2, 3, false⟩, ⟨3, 2, false⟩, ⟨2, 1, false⟩, ⟨1, 4, false⟩]
  calls := []
  allocSites := []
  pointsTo := []

def nestedProgram : Program := ⟨nestedListing, 0, rfl, by decide⟩

theorem nestedProgram_cut :
    (nestedProgram.methodLoops 0).redirections = [(⟨2, 1⟩, [4]), (⟨3, 2⟩, [4])] ∧
      (nestedProgram.flowGraph 0).Reducible (nestedProgram.methodLoops 0) ∧
      ((nestedProgram.flowGraph 0).cut (nestedProgram.methodLoops 0)).Acyclic := by
  have ranked : ∀ edge ∈ (nestedProgram.flowGraph 0).graph.edges,
      ⟨edge.1, edge.2⟩ ∈ (nestedProgram.methodLoops 0).backEdges ∨ id edge.1 < id edge.2 := by
    have edges : (nestedProgram.flowGraph 0).graph.edges =
        [(0, 1), (1, 2), (1, 4), (2, 3), (2, 1), (3, 2)] := by cbv
    have back : (nestedProgram.methodLoops 0).backEdges = [⟨2, 1⟩, ⟨3, 2⟩] := by cbv
    rw [edges, back]
    decide
  have reducible := FlowGraph.reducible_of_ranked id ranked
  exact ⟨by cbv, reducible, (nestedProgram.loops_cut 0).2 reducible⟩

end SeqSlice
