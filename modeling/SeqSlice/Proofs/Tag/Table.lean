import SeqSlice.Tag.Cycle

/-! What the operations on a tag table change: one tag on the statements or methods
that are given, and nothing else. -/

set_option autoImplicit false
namespace SeqSlice.TagTable

variable {table : TagTable} {tag other : Tag}

theorem pointHas_iff {point : PointId} :
    table.pointHas point tag = true ↔ (point, tag) ∈ table.points := by
  simp [pointHas]

theorem methodHas_iff {method : MethodId} :
    table.methodHas method tag = true ↔ (method, tag) ∈ table.methods := by
  simp [methodHas]

/-! ## Statements -/

theorem mem_tagPoint {point : PointId} {entry : PointId × Tag} :
    entry ∈ (table.tagPoint point tag).points ↔ entry ∈ table.points ∨ entry = (point, tag) := by
  unfold tagPoint
  split
  · next present =>
      refine ⟨.inl, ?_⟩
      rintro (old | rfl)
      · exact old
      · exact pointHas_iff.mp present
  · rw [List.mem_cons, or_comm]

theorem mem_tagPoints {points : List PointId} {entry : PointId × Tag} :
    entry ∈ (table.tagPoints points tag).points ↔
      entry ∈ table.points ∨ (entry.1 ∈ points ∧ entry.2 = tag) := by
  unfold tagPoints
  induction points generalizing table with
  | nil => simp
  | cons point rest ih =>
      rw [List.foldl_cons, ih, mem_tagPoint, List.mem_cons, Prod.ext_iff]
      grind

theorem methods_tagPoint (point : PointId) : (table.tagPoint point tag).methods = table.methods := by
  unfold tagPoint
  split <;> rfl

theorem methods_tagPoints (points : List PointId) :
    (table.tagPoints points tag).methods = table.methods := by
  unfold tagPoints
  induction points generalizing table with
  | nil => rfl
  | cons point rest ih => rw [List.foldl_cons, ih, methods_tagPoint]

theorem constructorCalls_tagPoint (point : PointId) :
    (table.tagPoint point tag).constructorCalls = table.constructorCalls := by
  unfold tagPoint
  split <;> rfl

theorem constructorCalls_tagPoints (points : List PointId) :
    (table.tagPoints points tag).constructorCalls = table.constructorCalls := by
  unfold tagPoints
  induction points generalizing table with
  | nil => rfl
  | cons point rest ih => rw [List.foldl_cons, ih, constructorCalls_tagPoint]

theorem mem_pointsWith {point : PointId} :
    point ∈ table.pointsWith tag ↔ (point, tag) ∈ table.points := by
  simp only [pointsWith, mem_ascending, List.mem_map, List.mem_filter, beq_iff_eq]
  constructor
  · rintro ⟨entry, ⟨listed, rfl⟩, rfl⟩
    exact listed
  · exact fun listed => ⟨(point, tag), ⟨listed, rfl⟩, rfl⟩

/-! ## Methods -/

theorem mem_tagMethod {method : MethodId} {entry : MethodId × Tag} :
    entry ∈ (table.tagMethod method tag).methods ↔ entry ∈ table.methods ∨ entry = (method, tag) := by
  unfold tagMethod
  split
  · next present =>
      refine ⟨.inl, ?_⟩
      rintro (old | rfl)
      · exact old
      · exact methodHas_iff.mp present
  · rw [List.mem_cons, or_comm]

theorem methodHas_tagMethods {methods : List MethodId} {method : MethodId} :
    (table.tagMethods methods tag).methodHas method other = true ↔
      table.methodHas method other = true ∨ (method ∈ methods ∧ other = tag) := by
  rw [methodHas_iff, methodHas_iff]
  unfold tagMethods
  induction methods generalizing table with
  | nil => simp
  | cons first rest ih =>
      rw [List.foldl_cons, ih, mem_tagMethod, List.mem_cons, Prod.mk.injEq]
      grind

theorem points_tagMethods (methods : List MethodId) :
    (table.tagMethods methods tag).points = table.points := by
  unfold tagMethods
  induction methods generalizing table with
  | nil => rfl
  | cons method rest ih =>
      rw [List.foldl_cons, ih, tagMethod]
      split <;> rfl

theorem constructorCalls_tagMethods (methods : List MethodId) :
    (table.tagMethods methods tag).constructorCalls = table.constructorCalls := by
  unfold tagMethods
  induction methods generalizing table with
  | nil => rfl
  | cons method rest ih =>
      rw [List.foldl_cons, ih, tagMethod]
      split <;> rfl

/-! ## Branches and constructor calls -/

theorem foldl_setConstructorCall (calls : List (PointId × Option PointId)) (table : TagTable) :
    calls.foldl (fun (table : TagTable) entry => table.setConstructorCall entry.1 entry.2) table =
      { table with constructorCalls := calls.reverse ++ table.constructorCalls } := by
  induction calls generalizing table with
  | nil => rfl
  | cons call rest ih =>
      rw [List.foldl_cons, ih, setConstructorCall, List.reverse_cons, List.append_assoc]
      rfl

theorem addMethod_eq (table : TagTable) (program : Program) (method : MethodId) :
    table.addMethod program method =
      { table.tagPoints (program.flowGraph method).branchPoints .branch with
        constructorCalls := (program.constructorCalls method).reverse ++
          (table.tagPoints (program.flowGraph method).branchPoints .branch).constructorCalls } :=
  foldl_setConstructorCall _ _

theorem mem_addMethod {program : Program} {method : MethodId} {entry : PointId × Tag} :
    entry ∈ (table.addMethod program method).points ↔
      entry ∈ table.points ∨
        (entry.1 ∈ (program.flowGraph method).branchPoints ∧ entry.2 = .branch) := by
  rw [addMethod_eq]
  exact mem_tagPoints

theorem methods_addMethod (program : Program) (method : MethodId) :
    (table.addMethod program method).methods = table.methods := by
  rw [addMethod_eq]
  exact methods_tagPoints _

theorem of_mem_addMethods {program : Program} {entry : PointId × Tag}
    (member : entry ∈ (table.addMethods program).points) :
    entry ∈ table.points ∨ entry.2 = .branch := by
  unfold addMethods at member
  generalize program.methodsWithBodies = methods at member
  induction methods generalizing table with
  | nil => exact .inl member
  | cons method rest ih =>
      rcases ih member with tagged | branch
      · exact (mem_addMethod.mp tagged).imp_right And.right
      · exact .inr branch

theorem methods_addMethods (program : Program) :
    (table.addMethods program).methods = table.methods := by
  unfold addMethods
  generalize program.methodsWithBodies = methods
  induction methods generalizing table with
  | nil => rfl
  | cons method rest ih => exact ih.trans (methods_addMethod program method)

theorem mem_constructorCalls_addMethod {program : Program} {method : MethodId}
    {entry : PointId × Option PointId} :
    entry ∈ (table.addMethod program method).constructorCalls ↔
      entry ∈ table.constructorCalls ∨ entry ∈ program.constructorCalls method := by
  rw [addMethod_eq, List.mem_append, List.mem_reverse, constructorCalls_tagPoints, or_comm]

theorem mem_constructorCalls_addMethods {program : Program} {entry : PointId × Option PointId} :
    entry ∈ (table.addMethods program).constructorCalls ↔ entry ∈ table.constructorCalls ∨
      ∃ method ∈ program.methodsWithBodies, entry ∈ program.constructorCalls method := by
  unfold addMethods
  generalize program.methodsWithBodies = methods
  induction methods generalizing table with
  | nil => simp
  | cons method rest ih =>
      rw [List.foldl_cons, ih, mem_constructorCalls_addMethod, or_assoc]
      simp only [List.mem_cons, exists_eq_or_imp]

end SeqSlice.TagTable
