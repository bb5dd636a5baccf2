import SeqSlice.Proofs.Supergraph.Recursion
import SeqSlice.Proofs.Tag.Table

/-! Tags of cycles. A walk of the call graph stops at methods that have the tag. This is
right because between two walks the tagged methods are closed under calls: so in the end
exactly those are tagged that a cycle, or a call in a loop, leads to. -/

set_option autoImplicit false
namespace SeqSlice

/-! ## Statements on loops -/

/-- The statement is on the natural loop of an edge that leads back to a node above its
source: the header of the loop itself, or from the statement there is a way to the source
that does not pass the header. Loops headed by the entry of a handler do not count. -/
def Program.OnLoop (program : Program) (method : MethodId) (point : PointId) : Prop :=
  ∃ head source header, (program.flowGraph method).head = some head ∧
    (program.flowGraph method).graph.Edge source header ∧
    Dominates (program.flowGraph method).graph.Edge head header source ∧
    program.isCatchEntry header = false ∧
    (point = header ∨ ∃ nodes,
      Path (program.flowGraph method).graph.Edge point nodes source ∧ header ∉ nodes)

namespace Program

variable {program : Program} {method : MethodId} {point : PointId}

theorem mem_loopNodes {flow : FlowGraph} {dominance : Dominance} {root : PointId}
    (analysed : flow.Analysed root dominance) :
    point ∈ (program.loopsOf flow dominance).loopNodes ↔
      ∃ edge ∈ program.regularEdges flow dominance, point ∈ flow.naturalLoop edge := by
  have nodes : (program.loopsOf flow dominance).loopNodes =
      ascending (((program.loopHeaders flow dominance).map fun header =>
        (header, program.loopAt flow dominance header)).flatMap (·.2)) := rfl
  simp only [nodes, mem_ascending, List.mem_flatMap, List.mem_map, mem_loopHeaders analysed]
  constructor
  · rintro ⟨_, ⟨header, _, rfl⟩, inside⟩
    obtain ⟨edge, regular, _, member⟩ := FlowGraph.mem_loopOf.mp inside
    exact ⟨edge, regular, member⟩
  · rintro ⟨edge, regular, member⟩
    exact ⟨_, ⟨edge.header, ⟨edge, regular, rfl⟩, rfl⟩,
      FlowGraph.mem_loopOf.mpr ⟨edge, regular, rfl, member⟩⟩

theorem mem_methodLoops :
    point ∈ (program.methodLoops method).loopNodes ↔ program.OnLoop method point := by
  cases found : program.flowHead? method with
  | none =>
      have headless : (program.flowGraph method).head = none := found
      simp [methodLoops_of_no_head found, MethodLoops.empty, MethodLoops.loopNodes, mem_ascending,
        OnLoop, headless]
  | some head =>
      have analysed := flowGraph_analysed found
      rw [methodLoops_of_head found, mem_loopNodes analysed]
      constructor
      · rintro ⟨edge, regular, member⟩
        obtain ⟨back, plain⟩ := mem_regularEdges.mp regular
        obtain ⟨along, above⟩ := (FlowGraph.mem_backEdges analysed).mp back
        exact ⟨head, edge.source, edge.header, found, along, above, plain,
          (FlowGraph.mem_naturalLoop_iff_path analysed back).mp member⟩
      · rintro ⟨root, source, header, isHead, along, above, plain, inside⟩
        obtain rfl : head = root := Option.some.inj (found.symm.trans isHead)
        have back : ⟨source, header⟩ ∈ (program.flowGraph method).backEdges _ :=
          (FlowGraph.mem_backEdges analysed).mpr ⟨along, above⟩
        exact ⟨⟨source, header⟩, mem_regularEdges.mpr ⟨back, plain⟩,
          (FlowGraph.mem_naturalLoop_iff_path analysed back).mpr inside⟩

theorem OnLoop.owner (onLoop : program.OnLoop method point) :
    program.methodOf? point = some method ∧ method ∈ program.methodsWithBodies := by
  obtain ⟨head, source, header, found, along, above, _, inside⟩ := onLoop
  have analysed := flowGraph_analysed found
  have back : ⟨source, header⟩ ∈ (program.flowGraph method).backEdges _ :=
    (FlowGraph.mem_backEdges analysed).mpr ⟨along, above⟩
  have member := (FlowGraph.mem_naturalLoop_iff_path analysed back).mpr inside
  exact ⟨methodOf?_of_mem_flowNodes (FlowGraph.mem_nodes_of_mem_naturalLoop analysed back member),
    mem_methodsWithBodies (flowHead_mem_body found)⟩

end Program

theorem Supergraph.mem_loopPoints {graph : Supergraph} {point : PointId} :
    point ∈ graph.loopPoints ↔ ∃ method,
      graph.program.methodOf? point = some method ∧ graph.program.OnLoop method point := by
  simp only [loopPoints, List.mem_flatMap, Program.mem_methodLoops]
  constructor
  · rintro ⟨method, _, onLoop⟩
    exact ⟨method, onLoop.owner.1, onLoop⟩
  · rintro ⟨method, _, onLoop⟩
    exact ⟨method, onLoop.owner.2, onLoop⟩

namespace TagTable

/-! ## Walks that stop at tagged methods -/

section
variable {calls : Digraph} {methods : List MethodId} {tag other : Tag} {table : TagTable}
  {start method : MethodId}

theorem methodHas_spread :
    (spread calls methods tag table start).methodHas method other = true ↔
      table.methodHas method other = true ∨ (Graph.Reach calls.succs
        (methods.filter fun method => !table.methodHas method tag) [start] method ∧ other = tag) := by
  rw [spread, methodHas_tagMethods, Graph.mem_visit]

theorem points_spread : (spread calls methods tag table start).points = table.points :=
  points_tagMethods _

theorem points_foldl_spread (starts : List MethodId) :
    (starts.foldl (spread calls methods tag) table).points = table.points :=
  List.foldlRecOn (motive := fun tagged : TagTable => tagged.points = table.points) _ _ rfl
    fun _ same _ _ => points_spread.trans same

theorem methodHas_foldl_spread_of_ne (different : other ≠ tag) (starts : List MethodId) :
    (starts.foldl (spread calls methods tag) table).methodHas method other = true ↔
      table.methodHas method other = true :=
  List.foldlRecOn (motive := fun tagged : TagTable => tagged.methodHas method other = true ↔
    table.methodHas method other = true) _ _ Iff.rfl
    fun _ same _ _ => by rw [methodHas_spread, same]; simp [different]

theorem methodHas_foldl_spread_of_methodHas {starts : List MethodId}
    (has : table.methodHas method other = true) :
    (starts.foldl (spread calls methods tag) table).methodHas method other = true :=
  List.foldlRecOn (motive := fun tagged : TagTable => tagged.methodHas method other = true) _ _ has
    fun _ kept _ _ => methodHas_spread.mpr (.inl kept)

theorem methodHas_foldl_spread_of_mem {starts : List MethodId} (member : start ∈ starts)
    (known : start ∈ methods) :
    (starts.foldl (spread calls methods tag) table).methodHas start tag = true := by
  induction starts generalizing table with
  | nil => cases member
  | cons first rest ih =>
      rw [List.foldl_cons]
      rcases List.mem_cons.mp member with rfl | later
      · refine methodHas_foldl_spread_of_methodHas (methodHas_spread.mpr ?_)
        refine or_iff_not_imp_left.mpr fun untagged => ⟨.source ?_ List.mem_cons_self, rfl⟩
        exact List.mem_filter.mpr ⟨known, by simpa using untagged⟩
      · exact ih later

def Closed (calls : Digraph) (tag : Tag) (table : TagTable) : Prop :=
  ∀ caller callee, table.methodHas caller tag = true → calls.Edge caller callee →
    table.methodHas callee tag = true

section
variable (inside : ∀ caller callee, calls.Edge caller callee → callee ∈ methods)
include inside

/-- The walk does not miss what lies behind a tagged method: it has the tag already. -/
theorem Closed.methodHas_spread (closed : table.Closed calls tag) (known : start ∈ methods) :
    (spread calls methods tag table start).methodHas method tag = true ↔
      table.methodHas method tag = true ∨ Reached calls.Edge start method := by
  rw [TagTable.methodHas_spread, and_iff_left rfl]
  have entered {method : MethodId} (listed : method ∈ methods)
      (untagged : ¬ table.methodHas method tag = true) :
      method ∈ methods.filter fun method => !table.methodHas method tag :=
    List.mem_filter.mpr ⟨listed, by simpa using untagged⟩
  constructor
  · refine Or.imp_right fun reach => ?_
    induction reach with
    | source _ first => exact List.mem_singleton.mp first ▸ .refl
    | step _ _ child ih => exact ih.tail (calls.mem_succs.mp child)
  · rintro (old | reached)
    · exact .inl old
    · induction reached with
      | refl => exact or_iff_not_imp_left.mpr fun fresh =>
          .source (entered known fresh) (List.mem_singleton_self _)
      | @tail caller callee _ along ih =>
          rcases ih with old | reach
          -- The walk does not enter a tagged caller, but what it calls has the tag already.
          · exact .inl (closed caller callee old along)
          · exact or_iff_not_imp_left.mpr fun fresh =>
              .step reach (entered (inside _ _ along) fresh) (calls.mem_succs.mpr along)

theorem Closed.spread (closed : table.Closed calls tag) (known : start ∈ methods) :
    (TagTable.spread calls methods tag table start).Closed calls tag := by
  intro caller callee tagged along
  rw [closed.methodHas_spread inside known] at tagged ⊢
  exact tagged.imp (closed caller callee · along) (·.tail along)

theorem Closed.methodHas_foldl_spread (closed : table.Closed calls tag) {starts : List MethodId}
    (known : ∀ start ∈ starts, start ∈ methods) :
    (starts.foldl (TagTable.spread calls methods tag) table).methodHas method tag = true ↔
      table.methodHas method tag = true ∨ ∃ start ∈ starts, Reached calls.Edge start method := by
  induction starts generalizing table with
  | nil => simp
  | cons start rest ih =>
      have here := known start List.mem_cons_self
      rw [List.foldl_cons, ih (closed.spread inside here) fun other member =>
        known other (List.mem_cons_of_mem _ member), closed.methodHas_spread inside here]
      simp [or_assoc]

end
end

/-! ## Loops -/

section
variable {graph : Supergraph} {table : TagTable} {tag : Tag} {point : PointId} {method : MethodId}

theorem mem_addLoopPoint {entry : PointId × Tag} :
    entry ∈ (addLoopPoint graph graph.callGraph table point).points ↔
      entry ∈ table.points ∨ entry = (point, .intraCycle) := by
  unfold addLoopPoint
  by_cases present : table.pointHas point .intraCycle = true
  · rw [if_pos present]
    refine ⟨.inl, ?_⟩
    rintro (old | rfl)
    · exact old
    · exact pointHas_iff.mp present
  · rw [if_neg present]
    by_cases isCall : graph.isCall point = true
    · rw [if_pos isCall, points_foldl_spread, mem_tagPoint]
    · rw [if_neg isCall, mem_tagPoint]

theorem methodHas_addLoopPoint_of_ne (different : tag ≠ .intraCycle) :
    (addLoopPoint graph graph.callGraph table point).methodHas method tag = true ↔
      table.methodHas method tag = true := by
  have same : (table.tagPoint point .intraCycle).methodHas method tag = true ↔
      table.methodHas method tag = true := by
    rw [methodHas_iff, methods_tagPoint, methodHas_iff]
  unfold addLoopPoint
  split
  · rfl
  · dsimp only
    split
    · exact (methodHas_foldl_spread_of_ne different _).trans same
    · exact same

/-- A method has the tag of loops just if a call with this tag leads to it. -/
def Carried (graph : Supergraph) (table : TagTable) : Prop :=
  ∀ method, table.methodHas method .intraCycle = true ↔
    ∃ call, table.pointHas call .intraCycle = true ∧ graph.isCall call = true ∧
      ∃ callee ∈ graph.callees call, Reached graph.callGraph.Edge callee method

theorem Carried.closed (carried : table.Carried graph) :
    table.Closed graph.callGraph .intraCycle := by
  intro caller callee tagged along
  obtain ⟨call, has, isCall, first, enters, reached⟩ := (carried caller).mp tagged
  exact (carried callee).mpr ⟨call, has, isCall, first, enters, reached.tail along⟩

theorem Carried.addLoopPoint (carried : table.Carried graph)
    (known : ∀ callee ∈ graph.callees point, callee ∈ graph.program.methodIds)
    (inside : ∀ caller callee, graph.callGraph.Edge caller callee →
      callee ∈ graph.program.methodIds) :
    (addLoopPoint graph graph.callGraph table point).Carried graph := by
  by_cases present : table.pointHas point .intraCycle = true
  · rwa [TagTable.addLoopPoint, if_pos present]
  have same (method : MethodId) (tag : Tag) :
      (table.tagPoint point .intraCycle).methodHas method tag = table.methodHas method tag := by
    rw [methodHas, methods_tagPoint, methodHas]
  have closed : (table.tagPoint point .intraCycle).Closed graph.callGraph .intraCycle := by
    intro caller callee
    rw [same, same]
    exact carried.closed caller callee
  intro method
  simp only [pointHas_iff, mem_addLoopPoint]
  rw [TagTable.addLoopPoint, if_neg present]
  -- A tagged call now has its callees tagged, with what they lead to; other statements lead
  -- nowhere.
  by_cases isCall : graph.isCall point = true
  · rw [if_pos isCall, closed.methodHas_foldl_spread inside known, same, carried method]
    constructor
    · rintro (⟨call, has, rest⟩ | behind)
      · exact ⟨call, .inl (pointHas_iff.mp has), rest⟩
      · exact ⟨point, .inr rfl, isCall, behind⟩
    · rintro ⟨call, has | now, rest⟩
      · exact .inl ⟨call, pointHas_iff.mpr has, rest⟩
      · obtain rfl := (Prod.mk.inj now).1
        exact .inr rest.2
  · rw [if_neg isCall, same, carried method]
    constructor
    · rintro ⟨call, has, rest⟩
      exact ⟨call, .inl (pointHas_iff.mp has), rest⟩
    · rintro ⟨call, has | now, rest⟩
      · exact ⟨call, pointHas_iff.mpr has, rest⟩
      · obtain rfl := (Prod.mk.inj now).1
        exact absurd rest.1 isCall

theorem mem_foldl_addLoopPoint {points : List PointId} {entry : PointId × Tag} :
    entry ∈ (points.foldl (TagTable.addLoopPoint graph graph.callGraph) table).points ↔
      entry ∈ table.points ∨ (entry.1 ∈ points ∧ entry.2 = .intraCycle) := by
  induction points generalizing table with
  | nil => simp
  | cons point rest ih =>
      rw [List.foldl_cons, ih, mem_addLoopPoint, List.mem_cons, Prod.ext_iff]
      grind

end

/-! ## All cycles -/

structure Fresh (table : TagTable) : Prop where
  points : ∀ point, (point, Tag.intraCycle) ∉ table.points
  methods : ∀ method, (method, Tag.interCycle) ∉ table.methods ∧
    (method, Tag.intraCycle) ∉ table.methods

theorem fresh_empty : empty.Fresh := ⟨by simp [empty], by simp [empty]⟩

theorem Fresh.addMethods {table : TagTable} (fresh : table.Fresh) (program : Program) :
    (table.addMethods program).Fresh where
  points point member := by
    rcases of_mem_addMethods member with old | branch
    · exact fresh.points point old
    · cases branch
  methods method := by
    rw [methods_addMethods]
    exact fresh.methods method

section
variable {graph : Supergraph} {table : TagTable}

theorem mem_addCycles {entry : PointId × Tag} :
    entry ∈ (table.addCycles graph).points ↔
      entry ∈ table.points ∨ (entry.1 ∈ graph.loopPoints ∧ entry.2 = .intraCycle) := by
  rw [addCycles, mem_foldl_addLoopPoint, points_foldl_spread]

theorem methodHas_addCycles_of_ne {method : MethodId} {tag : Tag} (different : tag ≠ .intraCycle) :
    (table.addCycles graph).methodHas method tag = true ↔
      (graph.callGraph.cyclicComponents.flatten.foldl
        (spread graph.callGraph graph.program.methodIds .interCycle) table).methodHas method tag = true :=
  List.foldlRecOn (motive := fun tagged : TagTable => tagged.methodHas method tag = true ↔ _) _ _
    Iff.rfl fun _ same _ _ => (methodHas_addLoopPoint_of_ne different).trans same

section
variable (finite : graph.callSource.Finite)
include finite

theorem mem_methodIds_of_mem_component {component : List MethodId} {method : MethodId}
    (cyclic : component ∈ graph.callGraph.cyclicComponents) (member : method ∈ component) :
    method ∈ graph.program.methodIds := by
  have rooted := finite.rooted .empty
  have cycle := (rooted.mem_cyclic_iff (finite.nodup_nodes _) cyclic member).mp member
  exact (Graph.mem_visit.mp (rooted.mem_of_onCycle cycle)).mem_domain

theorem methodHas_addCycles_of_onCycle {method : MethodId}
    (cycle : graph.callGraph.OnCycle method method) :
    (table.addCycles graph).methodHas method .interCycle = true := by
  obtain ⟨component, cyclic, member⟩ :=
    (finite.rooted .empty).exists_cyclic (finite.nodup_nodes _) cycle
  exact (methodHas_addCycles_of_ne (by simp)).mpr (methodHas_foldl_spread_of_mem
    (List.mem_flatten_of_mem cyclic member) (mem_methodIds_of_mem_component finite cyclic member))

end
end

variable {program : Program} {specified : List PointId} {plan : CyclePlan} {config : Config}
  {graph : Supergraph}

/-- The tags of cycles say no more and no less than this: which methods a recursion that
the entry reaches leads to, which statements are on loops, and which methods a call on a
loop leads to. -/
theorem cycles_tagged (built : Supergraph.build program specified plan config = .ok graph)
    (table : TagTable) (fresh : table.Fresh) :
    (∀ method, (table.addCycles graph).methodHas method .interCycle = true ↔
        ∃ component ∈ graph.callGraph.cyclicComponents, ∃ first ∈ component,
          Reached graph.callGraph.Edge first method) ∧
      (∀ point, (table.addCycles graph).pointHas point .intraCycle = true ↔
        ∃ method, program.methodOf? point = some method ∧ program.OnLoop method point) ∧
      ∀ method, (table.addCycles graph).methodHas method .intraCycle = true ↔
        ∃ call, (table.addCycles graph).pointHas call .intraCycle = true ∧
          program.isCall call = true ∧ ∃ callee ∈ graph.callees call,
            Reached graph.callGraph.Edge callee method := by
  have finite := Supergraph.finite_of_build built
  have inside (caller callee : MethodId) (along : graph.callGraph.Edge caller callee) :
      callee ∈ graph.program.methodIds :=
    (Graph.mem_visit.mp ((finite.rooted .empty).target _ _ along)).mem_domain
  obtain rfl := Supergraph.program_of_build built
  refine ⟨fun method => ?_, fun point => ?_, ?_⟩
  -- A fresh table has no tag that a walk could stop at.
  · have closed : table.Closed graph.callGraph .interCycle := fun caller _ tagged =>
      absurd (methodHas_iff.mp tagged) (fresh.methods caller).1
    have starts : ∀ start ∈ graph.callGraph.cyclicComponents.flatten,
        start ∈ graph.program.methodIds := by
      intro start member
      obtain ⟨component, cyclic, inComponent⟩ := List.mem_flatten.mp member
      exact mem_methodIds_of_mem_component finite cyclic inComponent
    rw [methodHas_addCycles_of_ne (by simp), closed.methodHas_foldl_spread inside starts,
      methodHas_iff, or_iff_right (fresh.methods method).1]
    constructor
    · rintro ⟨first, member, reached⟩
      obtain ⟨component, cyclic, inComponent⟩ := List.mem_flatten.mp member
      exact ⟨component, cyclic, first, inComponent, reached⟩
    · rintro ⟨component, cyclic, first, inComponent, reached⟩
      exact ⟨first, List.mem_flatten_of_mem cyclic inComponent, reached⟩
  · rw [pointHas_iff, mem_addCycles, or_iff_right (fresh.points point), and_iff_left rfl,
      Supergraph.mem_loopPoints]
  · have callees (call : PointId) (callee : MethodId) (enters : callee ∈ graph.callees call) :
        callee ∈ graph.program.methodIds :=
      Supergraph.mem_methodIds_of_mem_callees (Supergraph.initializerCalls_known built) enters
    have start : (graph.callGraph.cyclicComponents.flatten.foldl
        (spread graph.callGraph graph.program.methodIds .interCycle) table).Carried graph := by
      intro method
      rw [methodHas_foldl_spread_of_ne (by simp), methodHas_iff]
      simp [(fresh.methods method).2, pointHas, points_foldl_spread, fresh.points]
    -- Every statement of a loop keeps methods tagged just where calls carry the tag.
    exact List.foldlRecOn (motive := Carried graph) _ _ start fun _ carried call _ =>
      carried.addLoopPoint (callees call) inside

end TagTable

/-- The entry has a loop with a call, and calls a method that calls itself. Two more
methods are never reached: a loop that calls a method, and this one calls another. -/
def windingListing : Listing where
  entry := some 0
  classes := [⟨0, "Main", none, [], false, false⟩]
  methods := [⟨0, 0, "main", "", true, false, [0, 1, 2, 3]⟩, ⟨1, 0, "step", "", true, false, [4]⟩,
    ⟨2, 0, "again", "", true, false, [5]⟩, ⟨3, 0, "leaf", "", true, false, [6]⟩,
    ⟨4, 0, "apart", "", true, false, [7, 8]⟩, ⟨5, 0, "helper", "", true, false, [9]⟩,
    ⟨6, 0, "rest", "", true, false, [10]⟩]
  points := [⟨0, 0, 1, .plain, ""⟩, ⟨1, 0, 2, .call ⟨1, .static, none, [], none⟩, ""⟩,
    ⟨2, 0, 3, .plain, ""⟩, ⟨3, 0, 4, .call ⟨2, .static, none, [], none⟩, ""⟩,
    ⟨4, 1, 5, .call ⟨3, .static, none, [], none⟩, ""⟩,
    ⟨5, 2, 6, .call ⟨2, .static, none, [], none⟩, ""⟩, ⟨6, 3, 7, .plain, ""⟩,
    ⟨7, 4, 8, .call ⟨5, .static, none, [], none⟩, ""⟩, ⟨8, 4, 9, .plain, ""⟩,
    ⟨9, 5, 10, .call ⟨6, .static, none, [], none⟩, ""⟩, ⟨10, 6, 11, .plain, ""⟩]
  edges := [⟨0, 1, false⟩, ⟨1, 2, false⟩, ⟨2, 1, false⟩, ⟨2, 3, false⟩, ⟨7, 8, false⟩, ⟨8, 7, false⟩]
  calls := [⟨1, 1⟩, ⟨3, 2⟩, ⟨4, 3⟩, ⟨5, 2⟩, ⟨7, 5⟩, ⟨9, 6⟩]
  allocSites := []
  pointsTo := []

def windingProgram : Program := ⟨windingListing, 0, rfl, by decide⟩

def windingGraph : Supergraph := .assemble windingProgram [] .empty .default

def windingTags : TagTable := (TagTable.empty.addMethods windingProgram).addCycles windingGraph

/-- The loop of the method apart is found and what it calls is tagged, but not what is
called from there, because the call graph ends where the entry does not reach. -/
theorem windingProgram_tagged :
    Supergraph.build windingProgram [] .empty .default = .ok windingGraph ∧
      (TagTable.empty.addMethods windingProgram).Fresh ∧
      (∃ component ∈ windingGraph.callGraph.cyclicComponents, ∃ first ∈ component,
        Reached windingGraph.callGraph.Edge first 2) ∧
      windingProgram.OnLoop 0 2 ∧ ¬ windingProgram.OnLoop 0 3 ∧
      (∃ call, windingTags.pointHas call .intraCycle = true ∧ windingProgram.isCall call = true ∧
        ∃ callee ∈ windingGraph.callees call, Reached windingGraph.callGraph.Edge callee 3) ∧
      windingTags.methodHas 5 .intraCycle = true ∧ windingTags.methodHas 6 .intraCycle = false := by
  have tags : windingTags = ⟨[(8, .intraCycle), (7, .intraCycle), (2, .intraCycle), (1, .intraCycle)],
      [(5, .intraCycle), (3, .intraCycle), (1, .intraCycle), (2, .interCycle)], []⟩ := by cbv
  have built : Supergraph.build windingProgram [] .empty .default = .ok windingGraph :=
    Supergraph.build_empty .default (by simp)
  have fresh := TagTable.fresh_empty.addMethods windingProgram
  obtain ⟨recursive, looped, carried⟩ := TagTable.cycles_tagged built _ fresh
  have owner : windingProgram.methodOf? 2 = some 0 ∧ windingProgram.methodOf? 3 = some 0 := by decide
  have here : windingTags.pointHas 2 .intraCycle = true ∧
      windingTags.pointHas 3 .intraCycle = false := by
    rw [tags]
    decide
  refine ⟨built, fresh, (recursive 2).mp ?_, ?_, fun onLoop => ?_, (carried 3).mp ?_, ?_, ?_⟩
  · exact congrArg (TagTable.methodHas · 2 .interCycle) tags
  · obtain ⟨method, same, onLoop⟩ := (looped 2).mp here.1
    rwa [Option.some.inj (owner.1.symm.trans same)]
  · exact Bool.false_ne_true (here.2.symm.trans ((looped 3).mpr ⟨0, owner.2, onLoop⟩))
  · exact congrArg (TagTable.methodHas · 3 .intraCycle) tags
  · rw [tags]
    decide
  · rw [tags]
    decide

end SeqSlice
