import SeqSlice.Proofs.Fact.Order
import SeqSlice.Proofs.Flow.LoopCut
import SeqSlice.Proofs.Graph.Immediate

/-! Where loops are left. An exit lies outside of the loop and does not lead back above its
header, because a header above stands for the exits of its own loop, and these lie outside
of a larger one. So the headers can be asked in any order, each asking those above it: every
question goes up the dominators, none comes back to a header that waits for an answer, and
the answers are those of the table that is filled from the outermost header on. -/

set_option autoImplicit false
namespace SeqSlice

/-- What a search for the exits of headers has found, and what it has asked: each time a
header, with those that wait for the answer. -/
structure ExitSearch where
  table : List (PointId × List PointId)
  asked : List (List PointId)

namespace ExitSearch

def ask (search : ExitSearch) (chain : List PointId) : ExitSearch :=
  { search with asked := chain :: search.asked }

def keep (search : ExitSearch) (header : PointId) (exits : List PointId) : ExitSearch :=
  { search with table := (header, exits) :: search.table }

def replaceAll (find : PointId → ExitSearch → List PointId × ExitSearch) :
    List PointId → List PointId → ExitSearch → List PointId × ExitSearch
  | [], exits, search => (exits, search)
  | outer :: rest, exits, search =>
      let found := find outer search
      replaceAll find rest (exits.filter (· != outer) ++ found.1) found.2

end ExitSearch

namespace FlowGraph

/-- Asks for the exits of a header. They are looked for once: those exits that dominate the
header are replaced, one after the other, by what is found for them in turn. A header that
waits for an answer itself has none to give. -/
def findExits (flow : FlowGraph) (dominance : Dominance) (loops : List (PointId × List PointId))
    (arrange : PointId → List PointId → List PointId) (waiting : List PointId) (header : PointId)
    (search : ExitSearch) : List PointId × ExitSearch :=
  match search.table.lookup header with
  | some exits => (exits, search.ask (header :: waiting))
  | none =>
      match _listed : loops.lookup header with
      | none => ([], search.ask (header :: waiting))
      | some nodes =>
          if _idle : header ∈ waiting then ([], search.ask (header :: waiting))
          else
            let direct := flow.directExits nodes
            let outer := arrange header (direct.filter fun point => dominance.dominates point header)
            let found := ExitSearch.replaceAll
              (flow.findExits dominance loops arrange (header :: waiting)) outer direct
              (search.ask (header :: waiting))
            (ascending found.1, found.2.keep header (ascending found.1))
termination_by loops.countP fun loop => loop.1 ∉ waiting
decreasing_by
  obtain ⟨before, after, rfl, _⟩ := List.lookup_eq_some_iff.mp _listed
  refine CallSource.countP_lt_countP ?_ (List.mem_append_right before List.mem_cons_self) ?_ ?_
  · simp
  · simpa using _idle
  · simp

def searchExits (flow : FlowGraph) (dominance : Dominance) (loops : List (PointId × List PointId))
    (arrange : PointId → List PointId → List PointId) (headers : List PointId) : ExitSearch :=
  headers.foldl (fun search header => (flow.findExits dominance loops arrange [] header search).2)
    ⟨[], []⟩

end FlowGraph

def StrictlyDominates (edge : Nat → Nat → Prop) (root upper lower : Nat) : Prop :=
  Dominates edge root upper lower ∧ upper ≠ lower

variable {edge : Nat → Nat → Prop} {root : Nat}

theorem StrictlyDominates.trans {upper middle lower : Nat}
    (first : StrictlyDominates edge root upper middle)
    (second : StrictlyDominates edge root middle lower) : StrictlyDominates edge root upper lower := by
  refine ⟨first.1.trans second.1, ?_⟩
  rintro rfl
  exact first.2 (first.1.antisymm second.1)

def exitsAt (table : List (PointId × List PointId)) (header : PointId) : List PointId :=
  (table.lookup header).getD []

structure ExitTable (flow : FlowGraph) (root : PointId) (dominance : Dominance)
    (loops table : List (PointId × List PointId)) : Prop where
  listed : ∀ header nodes, loops.lookup header = some nodes →
    table.lookup header = some (flow.exitsOf dominance table header nodes)
  unlisted : ∀ header, loops.lookup header = none → table.lookup header = none
  above : ∀ header nodes, loops.lookup header = some nodes →
    ∀ outer ∈ flow.directExits nodes, dominance.dominates outer header = true →
      StrictlyDominates flow.graph.Edge root outer header
  apart : ∀ header nodes, loops.lookup header = some nodes →
    ∀ outer ∈ flow.directExits nodes, dominance.dominates outer header = true →
    ∀ other ∈ flow.directExits nodes, dominance.dominates other header = true →
      other ∉ exitsAt table outer

namespace ExitSearch

variable (flow : FlowGraph) (root : PointId) (table : List (PointId × List PointId))

/-- What has been found is in the table, and each header that was asked dominates those that
waited for it. -/
structure Right (search : ExitSearch) : Prop where
  found : ∀ header exits, search.table.lookup header = some exits →
    table.lookup header = some exits
  climbs : ∀ chain ∈ search.asked, chain.Pairwise (StrictlyDominates flow.graph.Edge root)

structure Leads (search later : ExitSearch) : Prop where
  right : later.Right flow root table
  grows : ∀ header, (search.table.lookup header).isSome → (later.table.lookup header).isSome

variable {flow root table} {search later last : ExitSearch}

theorem Right.leads (right : search.Right flow root table) : search.Leads flow root table search :=
  ⟨right, fun _ => id⟩

theorem Leads.trans (first : search.Leads flow root table later)
    (second : later.Leads flow root table last) : search.Leads flow root table last :=
  ⟨second.right, fun header known => second.grows header (first.grows header known)⟩

theorem Right.ask (right : search.Right flow root table) {chain : List PointId}
    (climbs : chain.Pairwise (StrictlyDominates flow.graph.Edge root)) :
    search.Leads flow root table (search.ask chain) := by
  refine ⟨⟨right.found, fun other asked => ?_⟩, fun _ => id⟩
  rcases List.mem_cons.mp asked with rfl | before
  · exact climbs
  · exact right.climbs other before

theorem lookup_keep {header other : PointId} {exits : List PointId} :
    (search.keep header exits).table.lookup other =
      if other = header then some exits else search.table.lookup other := by
  rw [keep, List.lookup_cons]
  by_cases same : other = header
  · simp [same]
  · have differ : (other == header) = false := by simpa using same
    simp [same, differ]

theorem Right.keep (right : search.Right flow root table) {header : PointId}
    {exits : List PointId} (known : table.lookup header = some exits) :
    search.Leads flow root table (search.keep header exits) := by
  refine ⟨⟨fun other found listed => ?_, right.climbs⟩, fun other known => ?_⟩
  · rw [lookup_keep] at listed
    split at listed
    · next same => rw [same, known, listed]
    · exact right.found other found listed
  · rw [lookup_keep]
    split
    · rfl
    · exact known

/-- If every header gets its answer, then the exits are replaced by answers. No answer holds
one of the headers, so it is of no consequence which comes first. -/
theorem replaceAll_right {find : PointId → ExitSearch → List PointId × ExitSearch}
    {headers : List PointId} (exits : List PointId)
    (answers : ∀ outer ∈ headers, ∀ search : ExitSearch, search.Right flow root table →
      (find outer search).1 = exitsAt table outer ∧
        search.Leads flow root table (find outer search).2)
    (apart : ∀ outer ∈ headers, ∀ other ∈ headers, other ∉ exitsAt table outer)
    (right : search.Right flow root table) :
    search.Leads flow root table (replaceAll find headers exits search).2 ∧
      ∀ point, point ∈ (replaceAll find headers exits search).1 ↔
        (point ∈ exits ∧ point ∉ headers) ∨ ∃ outer ∈ headers, point ∈ exitsAt table outer := by
  induction headers generalizing exits search with
  | nil => exact ⟨right.leads, by simp [replaceAll]⟩
  | cons outer rest ih =>
      obtain ⟨same, leads⟩ := answers outer List.mem_cons_self search right
      obtain ⟨further, members⟩ := ih (exits.filter (· != outer) ++ (find outer search).1)
        (fun other inside => answers other (List.mem_cons_of_mem _ inside))
        (fun other inside point member => apart other (List.mem_cons_of_mem _ inside) point
          (List.mem_cons_of_mem _ member)) leads.right
      refine ⟨leads.trans further, fun point => (members point).trans ?_⟩
      -- What is found for this header is not taken out again.
      have stays (found : point ∈ exitsAt table outer) : point ∉ rest := fun inside =>
        apart outer List.mem_cons_self point (List.mem_cons_of_mem _ inside) found
      rw [same, List.mem_append, List.mem_filter, bne_iff_ne, List.exists_mem_cons_iff, List.mem_cons,
        not_or, or_and_right]
      constructor
      · rintro ((⟨⟨inExits, different⟩, absent⟩ | ⟨found, _⟩) | later)
        · exact .inl ⟨inExits, different, absent⟩
        · exact .inr (.inl found)
        · exact .inr (.inr later)
      · rintro (⟨inExits, different, absent⟩ | found | later)
        · exact .inl (.inl ⟨⟨inExits, different⟩, absent⟩)
        · exact .inl (.inr ⟨found, stays found⟩)
        · exact .inr later

end ExitSearch

namespace FlowGraph

variable {flow : FlowGraph} {dominance : Dominance} {loops table : List (PointId × List PointId)}
  {arrange : PointId → List PointId → List PointId}

/-- A question that goes up the dominators is answered from the table. -/
theorem findExits_right (correct : ExitTable flow root dominance loops table)
    (arranged : ∀ header heads point, point ∈ arrange header heads ↔ point ∈ heads)
    {waiting : List PointId} {header : PointId} {search : ExitSearch}
    (climbs : (header :: waiting).Pairwise (StrictlyDominates flow.graph.Edge root))
    (right : search.Right flow root table) :
    (flow.findExits dominance loops arrange waiting header search).1 = exitsAt table header ∧
      search.Leads flow root table (flow.findExits dominance loops arrange waiting header search).2 ∧
      ((loops.lookup header).isSome →
        ((flow.findExits dominance loops arrange waiting header search).2.table.lookup header).isSome) := by
  fun_induction flow.findExits dominance loops arrange waiting header search with
  | case1 waiting header search exits known =>
      refine ⟨?_, right.ask climbs, fun _ => ?_⟩
      · rw [exitsAt, right.found header exits known, Option.getD_some]
      · simp [ExitSearch.ask, known]
  | case2 waiting header search unknown noLoop =>
      refine ⟨?_, right.ask climbs, fun some => by simp [noLoop] at some⟩
      rw [exitsAt, correct.unlisted header noLoop, Option.getD_none]
  | case3 waiting header search unknown nodes listed waits =>
      -- A header that waits would have to dominate itself strictly.
      exact absurd rfl ((List.pairwise_cons.mp climbs).1 header waits).2
  | case4 waiting header search unknown nodes listed idle direct outer found ih =>
      have asked := right.ask climbs
      have mem_outer {point : PointId} : point ∈ outer ↔
          point ∈ direct ∧ dominance.dominates point header = true := by
        rw [arranged, List.mem_filter]
      -- What is asked next dominates the header, so the chain of questions still climbs.
      have higher {point : PointId} (inside : point ∈ outer) :
          StrictlyDominates flow.graph.Edge root point header :=
        correct.above header nodes listed point (mem_outer.mp inside).1 (mem_outer.mp inside).2
      have chain {point : PointId} (inside : point ∈ outer) :
          (point :: header :: waiting).Pairwise (StrictlyDominates flow.graph.Edge root) := by
        refine List.pairwise_cons.mpr ⟨fun lower member => ?_, climbs⟩
        rcases List.mem_cons.mp member with rfl | before
        · exact higher inside
        · exact (higher inside).trans ((List.pairwise_cons.mp climbs).1 lower before)
      obtain ⟨leads, members⟩ := ExitSearch.replaceAll_right direct
        (fun point inside search right => by
          have answered := ih point search (chain inside) right
          exact ⟨answered.1, answered.2.1⟩)
        (fun point inside other member => correct.apart header nodes listed point (mem_outer.mp inside).1
          (mem_outer.mp inside).2 other (mem_outer.mp member).1 (mem_outer.mp member).2)
        asked.right
      have same : table.lookup header = some (ascending found.1) := by
        rw [correct.listed header nodes listed]
        refine congrArg some (ascending_congr fun point => Iff.trans ?_ (members point).symm)
        simp only [List.mem_append, List.mem_filter, List.mem_flatMap, mem_outer, exitsAt,
          not_and, Bool.not_eq_true, Bool.not_eq_true']
        exact or_congr_left
          ⟨fun kept => ⟨kept.1, fun _ => kept.2⟩, fun kept => ⟨kept.1, kept.2 kept.1⟩⟩
      refine ⟨by rw [exitsAt, same, Option.getD_some],
        (asked.trans leads).trans (leads.right.keep same), fun _ => ?_⟩
      simp [ExitSearch.lookup_keep]

theorem searchFrom_leads (correct : ExitTable flow root dominance loops table)
    (arranged : ∀ header heads point, point ∈ arrange header heads ↔ point ∈ heads)
    (headers : List PointId) {search : ExitSearch} (right : search.Right flow root table) :
    search.Leads flow root table (headers.foldl (fun search header =>
      (flow.findExits dominance loops arrange [] header search).2) search) ∧
      ∀ header ∈ headers, (loops.lookup header).isSome →
        ((headers.foldl (fun search header =>
          (flow.findExits dominance loops arrange [] header search).2) search).table.lookup
            header).isSome := by
  induction headers generalizing search with
  | nil => exact ⟨right.leads, by simp⟩
  | cons first rest ih =>
      obtain ⟨_, leads, known⟩ := findExits_right correct arranged (List.pairwise_singleton _ first) right
      obtain ⟨further, others⟩ := ih leads.right
      refine ⟨leads.trans further, fun header inside looped => ?_⟩
      rcases List.mem_cons.mp inside with rfl | later
      · exact further.grows header (known looped)
      · exact others header later looped

theorem searchExits_right (correct : ExitTable flow root dominance loops table)
    (arranged : ∀ header heads point, point ∈ arrange header heads ↔ point ∈ heads)
    {headers : List PointId} (all : ∀ header, (loops.lookup header).isSome → header ∈ headers) :
    (∀ chain ∈ (flow.searchExits dominance loops arrange headers).asked,
      chain.Pairwise (StrictlyDominates flow.graph.Edge root)) ∧
      ∀ header, (flow.searchExits dominance loops arrange headers).table.lookup header =
        table.lookup header := by
  have begun : (⟨[], []⟩ : ExitSearch).Right flow root table := ⟨by simp, by simp⟩
  obtain ⟨leads, known⟩ := searchFrom_leads correct arranged headers begun
  refine ⟨leads.right.climbs, fun header => ?_⟩
  unfold searchExits
  cases listed : loops.lookup header with
  | none =>
      rw [correct.unlisted header listed]
      by_contra held
      obtain ⟨exits, same⟩ := Option.ne_none_iff_exists'.mp held
      cases (correct.unlisted header listed).symm.trans (leads.right.found header exits same)
  | some nodes =>
      have looped : (loops.lookup header).isSome := by simp [listed]
      obtain ⟨exits, same⟩ := Option.isSome_iff_exists.mp (known header (all header looped) looped)
      rw [same, leads.right.found header exits same]

/-! ## The table that is filled from the outermost header on -/

theorem exitsOf_congr {header : PointId} {nodes : List PointId}
    {other : List (PointId × List PointId)}
    (same : ∀ outer ∈ flow.directExits nodes, dominance.dominates outer header = true →
      table.lookup outer = other.lookup outer) :
    flow.exitsOf dominance table header nodes = flow.exitsOf dominance other header nodes := by
  refine ascending_congr fun point => ?_
  simp only [List.mem_append, List.mem_filter, List.mem_flatMap]
  refine or_congr_right (exists_congr fun outer => and_congr_right fun inside => ?_)
  rw [same outer inside.1 inside.2]

theorem exitTable_concat (loops : List (PointId × List PointId)) (header : PointId)
    (nodes : List PointId) :
    flow.exitTable dominance (loops ++ [(header, nodes)]) = flow.exitTable dominance loops ++
      [(header, flow.exitsOf dominance (flow.exitTable dominance loops) header nodes)] := by
  simp [exitTable, List.foldl_append]

theorem keys_exitTable (loops : List (PointId × List PointId)) :
    (flow.exitTable dominance loops).map (·.1) = loops.map (·.1) := by
  induction loops using List.reverseRecOn with
  | nil => rfl
  | append_singleton loops last ih =>
      obtain ⟨header, nodes⟩ := last
      simp [exitTable_concat, ih]

theorem lookup_exitTable_eq_none {header : PointId} (absent : header ∉ loops.map (·.1)) :
    (flow.exitTable dominance loops).lookup header = none := by
  rw [List.lookup_eq_none_iff]
  intro entry member
  have key : entry.1 ∈ loops.map (·.1) := keys_exitTable loops ▸ List.mem_map_of_mem member
  simpa using (ne_of_mem_of_not_mem key absent).symm

theorem lookup_exitTable (unique : (loops.map (·.1)).Nodup) (own : ∀ loop ∈ loops, loop.1 ∈ loop.2)
    (sorted : loops.Pairwise fun earlier later => ¬ dominance.dominates later.1 earlier.1 = true) :
    ∀ loop ∈ loops, (flow.exitTable dominance loops).lookup loop.1 =
      some (flow.exitsOf dominance (flow.exitTable dominance loops) loop.1 loop.2) := by
  induction loops using List.reverseRecOn with
  | nil => simp
  | append_singleton before last ih =>
      obtain ⟨last, nodes⟩ := last
      rw [List.map_append, List.nodup_append] at unique
      obtain ⟨uniqueBefore, -, fresh⟩ := unique
      obtain ⟨sortedBefore, -, lower⟩ := List.pairwise_append.mp sorted
      have different {loop : PointId × List PointId} (member : loop ∈ before) : loop.1 ≠ last :=
        fresh loop.1 (List.mem_map_of_mem member) last (by simp)
      have unknown : (flow.exitTable dominance before).lookup last = none := by
        refine lookup_exitTable_eq_none fun member => ?_
        obtain ⟨loop, inside, same⟩ := List.mem_map.mp member
        exact different inside same
      rw [exitTable_concat]
      -- The new row is found under the last header and changes nothing for the others.
      have kept (exits : List PointId) {other : PointId} (apart : other ≠ last) :
          (flow.exitTable dominance before).lookup other =
            (flow.exitTable dominance before ++ [(last, exits)]).lookup other := by
        have differ : (other == last) = false := by simpa using apart
        simp [List.lookup_append, List.lookup_cons, differ]
      intro loop member
      rcases List.mem_append.mp member with early | here
      · rw [← kept _ (different early), ih uniqueBefore
          (fun loop inside => own loop (List.mem_append_left _ inside)) sortedBefore loop early]
        refine congrArg some (exitsOf_congr fun outer _ above => kept _ ?_)
        rintro rfl
        exact lower loop early _ List.mem_cons_self above
      · obtain rfl := List.mem_singleton.mp here
        rw [List.lookup_append, unknown, Option.none_or, List.lookup_cons_self]
        refine congrArg some (exitsOf_congr fun outer direct _ => kept _ ?_)
        rintro rfl
        exact (mem_directExits.mp direct).1 (own _ member)

/-- All questions of a search go from a header up to one that dominates it, so none comes back
to a header that waits for the answer, and the exits found are those of the loops. -/
structure Settles (flow : FlowGraph) (head : PointId) (loops : MethodLoops)
    (search : ExitSearch) : Prop where
  climbs : ∀ chain ∈ search.asked, chain.Pairwise (StrictlyDominates flow.graph.Edge head)
  distinct : ∀ chain ∈ search.asked, chain.Nodup
  same : ∀ header, search.table.lookup header = loops.exits.lookup header

/-- The target of a way out of a loop: it is not in the loop, does not dominate its header,
and follows a node of the loop or of one around it. -/
structure LeavesLoop (flow : FlowGraph) (head : PointId) (loops : MethodLoops) (header : PointId)
    (nodes : List PointId) (target : PointId) : Prop where
  mem : target ∈ flow.nodes
  outside : target ∉ nodes
  notAbove : ¬ Dominates flow.graph.Edge head target header
  follows : ∃ around ∈ loops.loops, (∀ node ∈ nodes, node ∈ around.2) ∧
    ∃ gate ∈ around.2, target ∈ flow.succs gate

end FlowGraph

namespace Program

variable {program : Program} {flow : FlowGraph} {dominance : Dominance}

theorem flowNodes_sorted {method : MethodId} {head : PointId}
    (found : program.flowHead? method = some head) :
    (program.flowGraph method).nodes.Pairwise fun earlier later =>
      ¬ Dominates (program.flowGraph method).graph.Edge head later earlier := by
  have analysed := flowGraph_analysed found
  have nodes : (program.flowGraph method).nodes =
      Graph.visit .queue program.normalSuccs program.pointIds [head] := by
    change Graph.visit .queue program.normalSuccs program.pointIds
      (program.flowHead? method).toList = _
    rw [found]
    rfl
  -- A path over normal successors is one in the graph.
  have inGraph {avoided node : PointId}
      (path : Avoids (fun source target => target ∈ program.normalSuccs source) head avoided node) :
      Avoids (program.flowGraph method).graph.Edge head avoided node ∧
        node ∈ (program.flowGraph method).nodes := by
    induction path with
    | root different => exact ⟨.root different, analysed.rooted.root⟩
    | step _ follows different ih =>
        have along := mem_flowEdges.mpr ⟨ih.2, follows⟩
        exact ⟨.step ih.1 along different, analysed.rooted.target _ _ along⟩
  rw [nodes]
  refine (Dominance.pairwise_visit List.nodup_range).imp fun {earlier later} notAbove above => ?_
  refine notAbove ⟨?_, fun path => above.2 (inGraph path).1⟩
  exact Relation.ReflTransGen.mono (fun source target along => (mem_flowEdges.mp along).2) _ _ above.1

theorem Leaves.outside {header exit : PointId} (leaves : program.Leaves flow dominance root header exit) :
    exit ∉ program.loopAt flow dominance header := by
  obtain ⟨outer, _, subset, outside, _⟩ := leaves
  exact fun inside => outside (subset exit inside)

/-- A node above the header would be in the loop around it, or the edge that leads there
would go back. -/
theorem Leaves.not_above (analysed : flow.Analysed root dominance) {header exit : PointId}
    (member : header ∈ program.loopHeaders flow dominance)
    (leaves : program.Leaves flow dominance root header exit) :
    ¬ Dominates flow.graph.Edge root exit header := by
  obtain ⟨outer, outerMember, subset, outside, gate, inside, passes⟩ := leaves
  intro above
  have around := loopAt_isLoop analysed outerMember
  have inAround := subset header (loopAt_isLoop analysed member).header_mem
  rcases (around.dominated header inAround).total above with below | higher
  · exact outside (around.mem_of_dominates below above inAround)
  · exact passes.2 (higher.trans (around.dominated gate inside))

theorem lookup_loops (header : PointId) : (program.loopsOf flow dominance).loops.lookup header =
    if header ∈ program.loopHeaders flow dominance then some (program.loopAt flow dominance header)
    else none :=
  Dominance.lookup_map_self _ _ _

theorem lookup_loops_eq_some {header : PointId} {nodes : List PointId}
    (listed : (program.loopsOf flow dominance).loops.lookup header = some nodes) :
    header ∈ program.loopHeaders flow dominance ∧ nodes = program.loopAt flow dominance header := by
  rw [lookup_loops] at listed
  split at listed
  · next member => exact ⟨member, (Option.some.inj listed).symm⟩
  · cases listed

theorem exitTable_loopExits (program : Program) (analysed : flow.Analysed root dominance)
    (sorted : flow.nodes.Pairwise fun earlier later => ¬ Dominates flow.graph.Edge root later earlier) :
    ExitTable flow root dominance (program.loopsOf flow dominance).loops
      (program.loopExits flow dominance) where
  listed header nodes found := by
    obtain ⟨member, rfl⟩ := lookup_loops_eq_some found
    refine FlowGraph.lookup_exitTable ?_ ?_ ?_ (header, program.loopAt flow dominance header)
      (List.mem_map_of_mem member)
    · rw [List.map_map]
      exact (List.map_id _).symm ▸ analysed.unique.filter _
    · intro loop inside
      obtain ⟨other, otherMember, rfl⟩ := List.mem_map.mp inside
      exact (loopAt_isLoop analysed otherMember).header_mem
    · rw [List.pairwise_map]
      exact (sorted.filter _).imp fun notAbove above =>
        notAbove ((analysed.dominates_iff _ _).mp above)
  unlisted header missing := by
    refine FlowGraph.lookup_exitTable_eq_none fun member => ?_
    obtain ⟨loop, inside, rfl⟩ := List.mem_map.mp member
    obtain ⟨other, isHeader, rfl⟩ := List.mem_map.mp inside
    rw [lookup_loops, if_pos isHeader] at missing
    cases missing
  above header nodes found outer direct dominates := by
    obtain ⟨member, rfl⟩ := lookup_loops_eq_some found
    refine ⟨(analysed.dominates_iff _ _).mp dominates, ?_⟩
    rintro rfl
    exact (FlowGraph.mem_directExits.mp direct).1 (loopAt_isLoop analysed member).header_mem
  apart header nodes found outer direct dominates other _ dominatesToo listed := by
    obtain ⟨member, rfl⟩ := lookup_loops_eq_some found
    obtain ⟨outerMember, leaves⟩ := leaves_of_mem_lookup analysed listed
    have above := (analysed.dominates_iff _ _).mp dominates
    have aboveToo := (analysed.dominates_iff _ _).mp dominatesToo
    -- Between the outer header and the inner one there are nodes of the outer loop only.
    rcases above.total aboveToo with higher | lower
    · have inOuter := loopAt_subset_of_exit analysed member outerMember direct above header
        (loopAt_isLoop analysed member).header_mem
      exact leaves.outside
        ((loopAt_isLoop analysed outerMember).mem_of_dominates higher aboveToo inOuter)
    · exact leaves.not_above analysed outerMember lower

theorem Leaves.leavesLoop (analysed : flow.Analysed root dominance) {header target : PointId}
    (member : header ∈ program.loopHeaders flow dominance)
    (leaves : program.Leaves flow dominance root header target) :
    flow.LeavesLoop root (program.loopsOf flow dominance) header
      (program.loopAt flow dominance header) target := by
  obtain ⟨outer, outerMember, subset, _, gate, inside, passes⟩ := id leaves
  refine ⟨analysed.rooted.target _ _ passes.1, leaves.outside, leaves.not_above analysed member,
    (outer, program.loopAt flow dominance outer), ?_, subset, gate, inside,
    flow.graph.mem_succs.mpr passes.1⟩
  exact List.mem_map_of_mem outerMember

theorem redirected_leave (analysed : flow.Analysed root dominance)
    (correct : ExitTable flow root dominance (program.loopsOf flow dominance).loops
      (program.loopExits flow dominance)) {edge : BackEdge}
    (back : edge ∈ flow.backEdges dominance) (regular : program.isCatchEntry edge.header = false) :
    ∃ nodes targets, (program.loopsOf flow dominance).loops.lookup edge.header = some nodes ∧
      (program.loopsOf flow dominance).exits.lookup edge.header = some targets ∧
      (∀ other, (edge, other) ∈ (program.loopsOf flow dominance).redirections ↔
        other = targets) ∧
      ∀ target ∈ targets,
        flow.LeavesLoop root (program.loopsOf flow dominance) edge.header nodes target := by
  have isHeader := (mem_loopHeaders analysed).mpr ⟨edge, mem_regularEdges.mpr ⟨back, regular⟩, rfl⟩
  have loop : (program.loopsOf flow dominance).loops.lookup edge.header =
      some (program.loopAt flow dominance edge.header) := by
    rw [lookup_loops, if_pos isHeader]
  have exits := correct.listed edge.header _ loop
  refine ⟨_, _, loop, exits, fun other => ?_, fun target member => ?_⟩
  · rw [redirections_loopsOf, List.mem_map]
    constructor
    · rintro ⟨_, _, same⟩
      obtain ⟨rfl, rfl⟩ := Prod.mk.inj same
      simp [regular, exits]
    · rintro rfl
      exact ⟨edge, back, by simp [regular, exits]⟩
  · have listed : target ∈ exitsAt (program.loopExits flow dominance) edge.header := by
      rwa [exitsAt, exits, Option.getD_some]
    -- The table has been made of exits that leave the loop.
    exact (leaves_of_mem_lookup analysed listed).2.leavesLoop analysed isHeader

/-- The exits of loops are the same in whatever order they are looked for, and every question
goes up. A back edge to a regular header is led out of the loop that it closes. -/
theorem exits_leave_loops (program : Program) (method : MethodId) :
    ((program.flowGraph method).head = none → program.methodLoops method = .empty) ∧
      ∀ head, (program.flowGraph method).head = some head →
        (∀ (arrange : PointId → List PointId → List PointId) (headers : List PointId),
          (∀ header heads point, point ∈ arrange header heads ↔ point ∈ heads) →
          (∀ loop ∈ (program.methodLoops method).loops, loop.1 ∈ headers) →
          (program.flowGraph method).Settles head (program.methodLoops method)
            ((program.flowGraph method).searchExits
              ((program.flowGraph method).graph.dominance head) (program.methodLoops method).loops
              arrange headers)) ∧
        ∀ edge ∈ (program.methodLoops method).backEdges,
          program.isCatchEntry edge.header = false →
          ∃ nodes targets, (program.methodLoops method).loops.lookup edge.header = some nodes ∧
            (program.methodLoops method).exits.lookup edge.header = some targets ∧
            (∀ other, (edge, other) ∈ (program.methodLoops method).redirections ↔
              other = targets) ∧
            ∀ target ∈ targets, (program.flowGraph method).LeavesLoop head
              (program.methodLoops method) edge.header nodes target := by
  refine ⟨methodLoops_of_no_head, fun head found => ?_⟩
  rw [methodLoops_of_head found]
  have analysed := flowGraph_analysed found
  have table := program.exitTable_loopExits analysed (flowNodes_sorted found)
  refine ⟨fun arrange headers arranged all => ?_, fun edge back regular => ?_⟩
  · obtain ⟨climbs, same⟩ := FlowGraph.searchExits_right table arranged fun header looped => by
      obtain ⟨nodes, listed⟩ := Option.isSome_iff_exists.mp looped
      obtain ⟨before, after, split, _⟩ := List.lookup_eq_some_iff.mp listed
      exact all (header, nodes) (by simp [split])
    exact ⟨climbs, fun chain asked => (climbs chain asked).imp (·.2), same⟩
  · exact redirected_leave analysed table back regular

end Program

/-- Three loops in one another, left by way of 5. The innermost one leads to both of the headers
above it, and 6 and 7 lead to each other without a header. -/
def deepListing : Listing where
  entry := some 0
  classes := [⟨0, "Main", none, [], false, false⟩]
  methods := [⟨0, 0, "main", "", true, false, [0, 1, 2, 3, 4, 5, 6, 7]⟩]
  points := (List.range 8).map fun point => ⟨point, 0, 1, .plain, ""⟩
  edges := [⟨0, 1, false⟩, ⟨1, 2, false⟩, ⟨2, 3, false⟩, ⟨3, 4, false⟩, ⟨4, 3, false⟩,
    ⟨4, 2, false⟩, ⟨4, 1, false⟩, ⟨2, 1, false⟩, ⟨1, 5, false⟩, ⟨5, 6, false⟩, ⟨5, 7, false⟩,
    ⟨6, 7, false⟩, ⟨7, 6, false⟩]
  calls := []
  allocSites := []
  pointsTo := []

def deepProgram : Program := ⟨deepListing, 0, rfl, by decide⟩

theorem deepProgram_left :
    (deepProgram.flowGraph 0).head = some 0 ∧
    (⟨4, 3⟩ : BackEdge) ∈ (deepProgram.methodLoops 0).backEdges ∧
    (deepProgram.flowGraph 0).Settles 0 (deepProgram.methodLoops 0)
      ((deepProgram.flowGraph 0).searchExits ((deepProgram.flowGraph 0).graph.dominance 0)
        (deepProgram.methodLoops 0).loops (fun _ heads => heads.reverse) [3, 1, 2]) ∧
    (deepProgram.flowGraph 0).LeavesLoop 0 (deepProgram.methodLoops 0) 3 [3, 4] 5 := by
  have found : (deepProgram.flowGraph 0).head = some 0 := by cbv
  have edges : (deepProgram.methodLoops 0).backEdges = [⟨2, 1⟩, ⟨4, 3⟩, ⟨4, 2⟩, ⟨4, 1⟩] := by cbv
  have back : (⟨4, 3⟩ : BackEdge) ∈ (deepProgram.methodLoops 0).backEdges := by simp [edges]
  have loops : (deepProgram.methodLoops 0).loops = [(1, [1, 2, 3, 4]), (2, [2, 3, 4]), (3, [3, 4])] := by
    cbv
  have exits : (deepProgram.methodLoops 0).exits = [(1, [5]), (2, [5]), (3, [5])] := by cbv
  obtain ⟨settled, left⟩ := (deepProgram.exits_leave_loops 0).2 0 found
  obtain ⟨nodes, targets, inner, kept, _, leaves⟩ := left ⟨4, 3⟩ back (by cbv)
  rw [loops] at inner
  rw [exits] at kept
  obtain rfl : [3, 4] = nodes := Option.some.inj inner
  obtain rfl : [5] = targets := Option.some.inj kept
  exact ⟨found, back, settled _ _ (fun _ _ _ => List.mem_reverse) (by simp [loops]),
    leaves 5 List.mem_cons_self⟩

end SeqSlice
