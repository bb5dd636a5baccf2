import SeqSlice.Proofs.Program.Accepted
import SeqSlice.Supergraph.Basic

/-! How a supergraph is assembled: restoring an initializer adds one call at most and
changes nothing else. -/

set_option autoImplicit false
namespace SeqSlice
namespace Supergraph

/-- The call that is added for an initializer. -/
def callFor? (graph : Supergraph) (initializer : MethodId) : Option PointId :=
  if (graph.callers initializer).any graph.isCall then none
  else (graph.callers initializer).findSome? graph.firstCallFrom?

theorem restoreInitializer_eq (graph : Supergraph) (initializer : MethodId) :
    graph.restoreInitializer initializer =
      { graph with
        initializerCalls :=
          match graph.callFor? initializer with
          | some call => pushNew graph.initializerCalls (call, initializer)
          | none => graph.initializerCalls } := by
  unfold restoreInitializer callFor?
  by_cases called : (graph.callers initializer).any graph.isCall = true
  · rw [if_pos called, if_pos called]
  · rw [if_neg called, if_neg called]
    cases (graph.callers initializer).findSome? graph.firstCallFrom? with
    | none => rfl
    | some call => rfl

theorem foldl_restoreInitializer_eq (initializers : List MethodId) (graph : Supergraph) :
    ∃ calls, initializers.foldl restoreInitializer graph =
      { graph with initializerCalls := calls } := by
  induction initializers generalizing graph with
  | nil => exact ⟨_, rfl⟩
  | cons initializer rest ih =>
      rw [List.foldl_cons, restoreInitializer_eq]
      exact ih _

section
variable (program : Program) (specified : List PointId) (plan : CyclePlan) (config : Config)

def initializersAt : List MethodId :=
  (ascending specified).filterMap (initializerAt? program config)

/-- The graph before calls of initializers are added and packages are blocked. -/
def base : Supergraph where
  program := program
  specified := ascending specified
  excludeLibrary := config.excludeLibrary
  opaqueMethods :=
    if (ascending specified).any (looksUpClass program config) then reflectiveMethods program config
    else []
  blockedMethods := []
  links := plan.links program
  blocked := plan.blocked
  initializerCalls := []

theorem assemble_eq : assemble program specified plan config =
    { (initializersAt program specified config).foldl restoreInitializer
        (base program specified plan config) with
      blockedMethods := methodsOfPackages program config.blockPackagePrefixes } := rfl

theorem exists_assemble_eq : ∃ calls, assemble program specified plan config =
    { base program specified plan config with
      blockedMethods := methodsOfPackages program config.blockPackagePrefixes
      initializerCalls := calls } := by
  obtain ⟨calls, same⟩ := foldl_restoreInitializer_eq (initializersAt program specified config)
    (base program specified plan config)
  exact ⟨calls, by rw [assemble_eq, same]⟩

end

section
variable {program : Program} {specified : List PointId} {plan : CyclePlan} {config : Config}

theorem program_assemble : (assemble program specified plan config).program = program := by
  obtain ⟨calls, same⟩ := exists_assemble_eq program specified plan config
  rw [same]
  rfl

theorem links_assemble : (assemble program specified plan config).links = plan.links program := by
  obtain ⟨calls, same⟩ := exists_assemble_eq program specified plan config
  rw [same]
  rfl

theorem specified_assemble :
    (assemble program specified plan config).specified = ascending specified := by
  obtain ⟨calls, same⟩ := exists_assemble_eq program specified plan config
  rw [same]
  rfl

theorem blocked_assemble : (assemble program specified plan config).blocked = plan.blocked := by
  obtain ⟨calls, same⟩ := exists_assemble_eq program specified plan config
  rw [same]
  rfl

theorem of_mem_initializersAt {initializer : MethodId}
    (listed : initializer ∈ initializersAt program specified config) :
    initializer ∈ program.methodIds ∧
      program.methodName initializer = config.staticInitializerName := by
  obtain ⟨point, _, found⟩ := List.mem_filterMap.mp listed
  obtain ⟨method, _, found⟩ := Option.bind_eq_some_iff.mp found
  obtain ⟨cls, _, found⟩ := Option.bind_eq_some_iff.mp found
  exact Program.methodNamed?_eq_some found

/-! ## Building -/

theorem eq_assemble_of_build {graph : Supergraph}
    (built : build program specified plan config = .ok graph) :
    graph = assemble program specified plan config := by
  unfold build at built
  split at built
  · cases built
  · exact (Except.ok.inj built).symm

theorem program_of_build {graph : Supergraph}
    (built : build program specified plan config = .ok graph) : graph.program = program := by
  rw [eq_assemble_of_build built, program_assemble]

theorem links_of_build {graph : Supergraph}
    (built : build program specified plan config = .ok graph) :
    graph.links = plan.links program := by
  rw [eq_assemble_of_build built, links_assemble]

theorem specified_of_build {graph : Supergraph}
    (built : build program specified plan config = .ok graph) :
    graph.specified = ascending specified := by
  rw [eq_assemble_of_build built, specified_assemble]

theorem known_of_build {graph : Supergraph}
    (built : build program specified plan config = .ok graph) :
    ∀ point ∈ plan.namedPoints ++ specified, point ∈ program.pointIds := by
  unfold build at built
  split at built
  · cases built
  · next none =>
      intro point named
      have listed := List.find?_eq_none.mp none point named
      exact Program.mem_pointIds.mpr (by simpa [Listing.hasPoint, Program.points] using listed)

theorem build_of_known (config : Config)
    (known : ∀ point ∈ plan.namedPoints ++ specified, point ∈ program.pointIds) :
    build program specified plan config = .ok (assemble program specified plan config) := by
  have none : (plan.namedPoints ++ specified).find? (fun point => !program.listing.hasPoint point) =
      none := by
    rw [List.find?_eq_none]
    intro point member
    have inRange : program.listing.hasPoint point = true :=
      decide_eq_true (Program.mem_pointIds.mp (known point member))
    simp [inRange]
  rw [build, none]

theorem build_empty (config : Config) (known : ∀ point ∈ specified, point ∈ program.pointIds) :
    build program specified .empty config = .ok (assemble program specified .empty config) := by
  have named : CyclePlan.empty.namedPoints = [] := by cbv
  exact build_of_known config (by simpa [named] using known)

end
end Supergraph
end SeqSlice
