import SeqSlice.Proofs.Graph.Path
import SeqSlice.Proofs.Program.Accepted
import SeqSlice.Proofs.Tag.Table

/-! The search for a constructor call. It meets what normal edges lead to, and a statement
only over statements that it has met before, so the first match is reached without another
one on the way. The tags of the methods hold what the search gives for each allocation that
its body lists. -/

set_option autoImplicit false
namespace SeqSlice

/-- What a search has met before it comes to a node leads there, and the node itself is
passed at the end only. -/
theorem Graph.exists_path_before {α : Type} {next : α → List α} {before : List α}
    {first last node : α} (reach : Graph.Reach next (before ++ [last]) [first] node) :
    (∃ nodes, Path (fun source target => target ∈ next source) first (nodes ++ [last]) last ∧
      ∀ passed ∈ nodes, passed ∈ before) ∨
    ∃ nodes, Path (fun source target => target ∈ next source) first nodes node ∧
      ∀ passed ∈ nodes, passed ∈ before := by
  induction reach with
  | @source node inside start =>
      obtain rfl := List.mem_singleton.mp start
      rcases List.mem_append.mp inside with earlier | here
      · exact .inr ⟨[node], .single node, List.forall_mem_singleton.mpr earlier⟩
      · obtain rfl := List.mem_singleton.mp here
        exact .inl ⟨[], .single node, by simp⟩
  | @step node parent _ inside follows ih =>
      rcases ih with arrived | ⟨nodes, path, met⟩
      · exact .inl arrived
      · rcases List.mem_append.mp inside with earlier | here
        · refine .inr ⟨nodes ++ [node], path.concat follows, fun passed listed => ?_⟩
          rcases List.mem_append.mp listed with old | new
          · exact met passed old
          · exact List.mem_singleton.mp new ▸ earlier
        -- The node itself is met for the first time, so the path ends here.
        · obtain rfl := List.mem_singleton.mp here
          exact .inl ⟨nodes, path.concat follows, met⟩

namespace Program

def NormalStep (program : Program) (source target : PointId) : Prop :=
  target ∈ program.normalSuccs source

def Constructs (program : Program) (var : String) (point : PointId) : Prop :=
  ∃ site method, program.callSite? point = some site ∧ site.invoke ≠ .static ∧
    site.receiver = some var ∧ program.method? site.target = some method ∧
    method.name = constructorName

/-- No constructor call on the local is found only if none is reached, and one that is
found is reached by a path that passes no other. -/
structure FirstConstructor (program : Program) (alloc : PointId) (var : String)
    (found : Option PointId) : Prop where
  none_iff : found = none ↔
    ∀ call, Reached program.NormalStep alloc call → ¬ program.Constructs var call
  first : ∀ call, found = some call → program.Constructs var call ∧
    ∃ nodes, Path program.NormalStep alloc (nodes ++ [call]) call ∧
      ∀ point ∈ nodes, ¬ program.Constructs var point

variable {program : Program} {alloc call point : PointId} {var : String} {method : MethodId}

theorem isConstructorCallOn_iff :
    program.isConstructorCallOn var point = true ↔ program.Constructs var point := by
  unfold isConstructorCallOn Constructs isConstructor
  cases program.callSite? point with
  | none => simp
  | some site =>
      have instance_iff : site.invoke.isInstance = true ↔ site.invoke ≠ .static := by
        cases site.invoke <;> simp [Invoke.isInstance]
      simp [instance_iff, Option.any_eq_true, Method.isConstructor, and_assoc]

theorem Constructs.mem_pointIds (constructs : program.Constructs var point) :
    point ∈ program.pointIds := by
  obtain ⟨site, _, called, _⟩ := constructs
  exact mem_pointIds_of_isCall (Option.isSome_iff_exists.mpr ⟨site, called⟩)

theorem reach_iff_reached : Graph.Reach program.normalSuccs program.pointIds [alloc] point ↔
    point ∈ program.pointIds ∧ Reached program.NormalStep alloc point := by
  constructor
  · intro reach
    refine ⟨reach.mem_domain, ?_⟩
    induction reach with
    | source _ start => exact List.mem_singleton.mp start ▸ .refl
    | step _ _ follows ih => exact ih.tail follows
  · rintro ⟨known, reached⟩
    induction reached with
    | refl => exact .source known List.mem_cons_self
    | tail _ along ih =>
        exact .step (ih (succs_listed (normalSuccs_subset along)).1) known along

theorem constructorCall?_first (program : Program) (alloc : PointId) (var : String) :
    program.FirstConstructor alloc var (program.constructorCall? alloc var) where
  none_iff := by
    simp only [constructorCall?, List.find?_eq_none, Graph.mem_visit, reach_iff_reached,
      isConstructorCallOn_iff]
    exact ⟨fun none call reached constructs =>
      none call ⟨constructs.mem_pointIds, reached⟩ constructs,
      fun none call reached => none call reached.2⟩
  first call found := by
    obtain ⟨constructs, before, after, order, others⟩ := List.find?_eq_some_iff_append.mp found
    rw [isConstructorCallOn_iff] at constructs
    have unlike {point : PointId} (met : point ∈ before) : ¬ program.Constructs var point := by
      rw [← isConstructorCallOn_iff]
      simpa using others point met
    refine ⟨constructs, ?_⟩
    rcases Graph.exists_path_before (Graph.reach_of_visit_eq order) with
      ⟨nodes, path, met⟩ | ⟨nodes, path, met⟩
    · exact ⟨nodes, path, fun point passed => unlike (met point passed)⟩
    · exact absurd constructs (unlike (met call path.target_mem))

/-! ## What the tags record -/

theorem mem_constructorCalls {found : Option PointId} :
    (alloc, found) ∈ program.constructorCalls method ↔
      alloc ∈ program.body method ∧ ∃ point var cls, program.point? alloc = some point ∧
        point.action = .new var cls ∧ found = program.constructorCall? alloc var := by
  simp only [constructorCalls, List.mem_filterMap, Option.bind_eq_some_iff]
  constructor
  · rintro ⟨id, listed, point, stored, entry⟩
    split at entry
    · next var cls action =>
        obtain ⟨rfl, rfl⟩ := Prod.mk.inj (Option.some.inj entry)
        exact ⟨listed, point, var, cls, stored, action, rfl⟩
    · cases entry
  · rintro ⟨listed, point, var, cls, stored, action, rfl⟩
    exact ⟨alloc, listed, point, stored, by simp [action]⟩

end Program

namespace TagTable

variable {tags : TagTable} {program : Program}

theorem constructorCall?_recorded
    (recorded : tags.constructorCalls = (TagTable.empty.addMethods program).constructorCalls)
    {alloc : PointId} {point : Point} {var : String} {cls : ClassId}
    (stored : program.point? alloc = some point) (action : point.action = .new var cls) :
    tags.constructorCall? alloc =
      if alloc ∈ program.body point.method then some (program.constructorCall? alloc var)
      else none := by
  have row (found : Option PointId) : (alloc, found) ∈ tags.constructorCalls ↔
      alloc ∈ program.body point.method ∧ found = program.constructorCall? alloc var := by
    rw [recorded, mem_constructorCalls_addMethods]
    constructor
    · rintro (old | ⟨method, -, entry⟩)
      · cases old
      · obtain ⟨listed, stored', var', cls', same, action', rfl⟩ :=
          Program.mem_constructorCalls.mp entry
        obtain rfl := Option.some.inj (stored.symm.trans same)
        obtain ⟨rfl, -⟩ := Action.new.inj (action.symm.trans action')
        have owned := Program.methodOf?_of_mem_body listed
        rw [Program.methodOf?, stored, Option.map_some, Option.some.injEq] at owned
        exact ⟨owned ▸ listed, rfl⟩
    · rintro ⟨listed, rfl⟩
      exact .inr ⟨point.method, Program.mem_methodsWithBodies listed,
        Program.mem_constructorCalls.mpr ⟨listed, point, var, cls, stored, action, rfl⟩⟩
  -- All rows of the allocation say the same, so the first one does.
  cases known : tags.constructorCall? alloc with
  | none =>
      rw [if_neg]
      intro listed
      have absent := List.lookup_eq_none_iff.mp known _ ((row _).mpr ⟨listed, rfl⟩)
      simp at absent
  | some found =>
      obtain ⟨before, after, rows, -⟩ := List.lookup_eq_some_iff.mp known
      obtain ⟨listed, rfl⟩ := (row found).mp (by simp [rows])
      rw [if_pos listed]

theorem constructorCalls_addCycles (table : TagTable) (graph : Supergraph) :
    (table.addCycles graph).constructorCalls = table.constructorCalls := by
  have spreads (starts : List MethodId) (tag : Tag) (table : TagTable) :
      (starts.foldl (spread graph.callGraph graph.program.methodIds tag) table).constructorCalls =
        table.constructorCalls :=
    List.foldlRecOn (motive := fun tagged : TagTable =>
      tagged.constructorCalls = table.constructorCalls) _ _ rfl
      fun _ same _ _ => (constructorCalls_tagMethods _).trans same
  refine List.foldlRecOn (motive := fun tagged : TagTable =>
    tagged.constructorCalls = table.constructorCalls) _ _ (spreads _ _ _) fun tagged same point _ => ?_
  rw [← same, addLoopPoint]
  split
  · rfl
  · dsimp only
    split
    · rw [spreads, constructorCalls_tagPoint]
    · exact constructorCalls_tagPoint _

end TagTable
end SeqSlice
