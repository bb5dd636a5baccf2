import SeqSlice.Extension.Relation
import SeqSlice.Proofs.Error
import SeqSlice.Proofs.Program.Closed

/-! What keeps the extension relation from being found. Superclasses are followed when a
receiver is compared with a call, and nothing else is done that need not end. So the
relation is found, or an error is reported, unless superclasses come back to themselves. -/

set_option autoImplicit false
namespace SeqSlice

def ExtensionError.Settles {α : Type} (result : Except ExtensionError α) : Prop :=
  ∀ cls, result ≠ .error (.unknown (.endless cls))

def ExtensionError.Fails {α : Type} (result : Except ExtensionError α) : Prop :=
  Settles result ∧ ∃ error, result = .error error

theorem ExtensionError.settles_ok {α : Type} {value : α} : Settles (.ok value) := by
  simp [Settles]

theorem ExtensionError.fails_noConstructor {α : Type} {site : SiteId} {point : PointId} :
    Fails (.error (.noConstructor site point) : Except ExtensionError α) := by
  simp [Fails, Settles]

namespace Program

/-- The computation comes to an end, unless superclasses go round. -/
def Concludes (program : Program) {α : Type} (result : Except ExtensionError α) : Prop :=
  ∀ cls, result = .error (.unknown (.endless cls)) → program.Circles cls

variable {program : Program} {tags : TagTable} {reflection : Reflection}

section
variable {α β : Type} {value : α} {result : Except ExtensionError α}

theorem concludes_ok : program.Concludes (.ok value) := fun _ failed => nomatch failed

theorem Concludes.bind {further : α → Except ExtensionError β} (first : program.Concludes result)
    (next : ∀ value, program.Concludes (further value)) : program.Concludes (result >>= further) := by
  intro cls failed
  rcases bind_eq_error_iff.mp failed with early | ⟨value, _, late⟩
  · exact first cls early
  · exact next value cls late

theorem Concludes.map {change : α → β} (first : program.Concludes result) :
    program.Concludes (result.map change) := by
  cases result with
  | ok value => exact concludes_ok
  | error error => exact fun cls failed => first cls (congrArg _ (Except.error.inj failed))

theorem concludes_mapM {work : α → Except ExtensionError β} {values : List α}
    (each : ∀ value, program.Concludes (work value)) : program.Concludes (values.mapM work) := by
  intro cls failed
  obtain ⟨value, _, here⟩ := exists_of_mapM_eq_error failed
  exact each value cls here

theorem concludes_mapError {known : Except UnknownId α}
    (circles : ∀ cls, known = .error (.endless cls) → program.Circles cls) :
    program.Concludes (known.mapError .unknown) := by
  intro cls failed
  cases known with
  | ok value => cases failed
  | error id => exact circles cls (congrArg _ (ExtensionError.unknown.inj (Except.error.inj failed)))

theorem concludes_knownPoint {point : PointId} :
    program.Concludes ((program.knownPoint point).mapError .unknown) := by
  unfold knownPoint
  split <;> exact concludes_mapError fun _ failed => nomatch failed

theorem concludes_knownMethod {method : MethodId} :
    program.Concludes ((program.knownMethod method).mapError .unknown) := by
  unfold knownMethod
  split <;> exact concludes_mapError fun _ failed => nomatch failed

theorem concludes_knownSite {site : SiteId} :
    program.Concludes ((program.knownSite site).mapError .unknown) := by
  unfold knownSite
  split <;> exact concludes_mapError fun _ failed => nomatch failed

end

/-! ## Creations -/

theorem concludes_creationCall {alloc : AllocSite} :
    program.Concludes (program.creationCall tags reflection alloc) := by
  unfold creationCall
  split
  · split <;> exact fun _ failed => nomatch failed
  · exact concludes_ok
  · exact concludes_ok

theorem decides_isSubtype {cls : ClassId} {declared : Class} :
    program.Decides cls (program.isSubtype cls declared) := by
  unfold isSubtype
  split <;> exact decides_meets

theorem decides_canReach {cls : ClassId} {site : CallSite} {target : Method} :
    program.Decides cls (program.canReach cls site target) := by
  unfold canReach
  split
  · exact decides_meets
  · split
    · intro error failed
      rcases bind_eq_error_iff.mp failed with early | ⟨fits, _, failed⟩
      · exact decides_isSubtype error early
      · split at failed
        · rcases bind_eq_error_iff.mp failed with late | ⟨_, _, none⟩
          · exact decides_climb error late
          · cases none
        · cases failed
    · exact fun _ failed => nomatch failed

theorem concludes_canReach {cls : ClassId} {site : CallSite} {target : Method} :
    program.Concludes ((program.canReach cls site target).mapError .unknown) :=
  concludes_mapError fun _ failed =>
    let ⟨same, circles⟩ := decides_canReach _ failed
    (UnknownId.endless.inj same) ▸ circles

theorem concludes_creationsOf {site : CallSite} {target : MethodId} {found : List PointId}
    {ids : List SiteId} :
    program.Concludes (program.creationsOf tags reflection site target found ids) := by
  induction ids generalizing found with
  | nil => exact concludes_ok
  | cons id rest ih =>
      refine concludes_knownSite.bind fun alloc => concludes_creationCall.bind fun creation => ?_
      split
      · exact ih
      · exact concludes_knownMethod.bind fun method => concludes_canReach.bind fun reaches => ih

theorem creationsOf_eq_error {id : SiteId} {alloc : AllocSite} {call : PointId} {cls : ClassId}
    {site : CallSite} {target : MethodId} {method : Method} {error : UnknownId}
    {found : List PointId} {rest : List SiteId} (listed : program.allocSite? id = some alloc)
    (made : program.creationCall tags reflection alloc = .ok (some (call, cls)))
    (named : program.method? target = some method)
    (unreached : program.canReach cls site method = .error error) :
    program.creationsOf tags reflection site target found (id :: rest) =
      .error (.unknown error) := by
  rw [creationsOf, knownSite_eq_ok_iff.mpr listed]
  refine bind_eq_error_iff.mpr (.inr ⟨alloc, rfl, ?_⟩)
  refine bind_eq_error_iff.mpr (.inr ⟨_, made, ?_⟩)
  refine bind_eq_error_iff.mpr (.inr ⟨method, ?_, ?_⟩)
  · rw [knownMethod_eq_ok_iff.mpr named]
    rfl
  · rw [unreached]
    rfl

theorem concludes_creationCalls {caller : PointId} {site : CallSite} {target : MethodId}
    {var : String} :
    program.Concludes (program.creationCalls tags reflection caller site target var) :=
  concludes_knownPoint.bind fun _ => concludes_creationsOf

end Program

/-! ## The relation -/

open Program in
theorem Extension.concludes_discover {program : Program}
    {expand : PointId → Except ExtensionError (List PointId)}
    (each : ∀ point, program.Concludes (expand point)) {remaining pending : List PointId} :
    program.Concludes (discover expand remaining pending) := by
  fun_induction discover expand remaining pending with
  | case1 => exact concludes_ok
  | case2 remaining first rest member ih => exact (each first).bind fun found => (ih found).map
  | case3 remaining first rest absent ih => exact ih

namespace Supergraph

open Program

variable {graph : Supergraph} {criteria : Criteria} {tags : TagTable} {config : Config}

theorem concludes_creatorsAt {method : MethodId} {caller : PointId} :
    graph.program.Concludes (graph.creatorsAt tags config method caller) := by
  unfold creatorsAt
  split
  · exact concludes_ok
  · split
    · exact concludes_ok
    · split
      · exact concludes_ok
      · exact concludes_creationCalls

theorem concludes_leadingCalls {point : PointId} :
    graph.program.Concludes (graph.leadingCalls tags config point) := by
  refine concludes_knownPoint.bind fun found => concludes_knownMethod.bind fun method => ?_
  split
  · exact concludes_ok
  · exact (concludes_mapM fun _ => concludes_creatorsAt).bind fun _ => concludes_ok

theorem concludes_extension : graph.program.Concludes (graph.extension criteria tags config) := by
  have expanded (point : PointId) :
      graph.program.Concludes (graph.extensionPoints tags config point) :=
    concludes_leadingCalls.bind fun _ => concludes_ok
  exact (Extension.concludes_discover expanded).map.bind fun _ => concludes_ok

theorem leadingCalls_eq_error {point caller : PointId} {found : Point} {method : Method}
    {rest : List PointId} {error : ExtensionError} (stored : graph.program.point? point = some found)
    (owner : graph.program.method? found.method = some method) (bound : method.isStatic = false)
    (callers : graph.callers method.id = caller :: rest)
    (failed : graph.creatorsAt tags config method.id caller = .error error) :
    graph.leadingCalls tags config point = .error error := by
  rw [leadingCalls, knownPoint_eq_ok_iff.mpr stored]
  refine bind_eq_error_iff.mpr (.inr ⟨found, rfl, ?_⟩)
  rw [knownMethod_eq_ok_iff.mpr owner]
  refine bind_eq_error_iff.mpr (.inr ⟨method, rfl, ?_⟩)
  rw [if_neg (by simp [bound]), callers, List.mapM_cons, failed]
  rfl

/-- The heads are searched from in ascending order, so the lowest is met first. -/
theorem extension_eq_error {head : PointId} {rest : List PointId} {error : ExtensionError}
    (first : ascending criteria.heads = head :: rest)
    (failed : graph.leadingCalls tags config head = .error error) :
    graph.extension criteria tags config = .error error := by
  refine bind_eq_error_iff.mpr (.inl ?_)
  have stopped : graph.extensionPoints tags config head = .error error :=
    bind_eq_error_iff.mpr (.inl failed)
  rw [fullExtension, first, Extension.discover, if_pos (by simp), stopped]
  rfl

end Supergraph

/-- The superclasses of Left and Right are each other. What y holds is never initialized;
x holds a Left, and z may hold both. -/
def carouselListing : Listing where
  entry := some 0
  classes := [⟨0, "Main", none, [], false, false⟩, ⟨1, "Tool", none, [], false, false⟩,
    ⟨2, "Left", some 3, [], false, false⟩, ⟨3, "Right", some 2, [], false, false⟩]
  methods := [⟨0, 0, "main", "", true, false, [0, 1, 2, 3, 4]⟩, ⟨1, 1, "run", "()", false, false, [5]⟩,
    ⟨2, 1, "stop", "()", false, false, [6]⟩, ⟨3, 2, "<init>", "()", false, false, []⟩,
    ⟨4, 0, "api", "", true, false, []⟩]
  points := [⟨0, 0, 1, .new "x" 2, ""⟩, ⟨1, 0, 2, .call ⟨3, .special, some "x", [], none⟩, ""⟩,
    ⟨2, 0, 3, .call ⟨1, .virtual, some "x", [], none⟩, ""⟩, ⟨3, 0, 4, .new "y" 1, ""⟩,
    ⟨4, 0, 5, .call ⟨2, .virtual, some "y", [], none⟩, ""⟩,
    ⟨5, 1, 6, .call ⟨4, .static, none, [], none⟩, ""⟩,
    ⟨6, 2, 7, .call ⟨4, .static, none, [], none⟩, ""⟩]
  edges := [⟨0, 1, false⟩, ⟨1, 2, false⟩, ⟨2, 3, false⟩, ⟨3, 4, false⟩]
  calls := [⟨2, 1⟩, ⟨4, 2⟩, ⟨5, 4⟩, ⟨6, 4⟩]
  allocSites := [⟨0, 0, 2⟩, ⟨1, 3, 1⟩]
  pointsTo := [⟨0, "x", [0]⟩, ⟨0, "y", [1]⟩, ⟨0, "z", [0, 1]⟩]

def carouselProgram : Program := ⟨carouselListing, 0, rfl, by decide⟩

theorem carousel_endless : carouselProgram.isSubclass 2 1 = .error (.endless 2) := by
  refine Program.meets_eq_error_iff.mpr ⟨rfl, ⟨2, .refl, .tail (.single rfl) rfl⟩, ?_⟩
  have round (upper : ClassId) (reached : Relation.ReflTransGen carouselProgram.Extends 2 upper) :
      upper = 2 ∨ upper = 3 := by
    induction reached with
    | refl => exact .inl rfl
    | tail _ extended ih =>
        rcases ih with rfl | rfl
        · exact .inr (Option.some.inj extended).symm
        · exact .inl (Option.some.inj extended).symm
  intro upper reached
  rcases round upper reached with rfl | rfl <;> rfl

theorem carousel_unreached :
    carouselProgram.canReach 2 ⟨1, .virtual, some "x", [], none⟩
      ⟨1, 1, "run", "()", false, false, [5]⟩ = .error (.endless 2) := by
  have asked : carouselProgram.isSubtype 2 ⟨1, "Tool", none, [], false, false⟩ =
      .error (.endless 2) := carousel_endless
  exact bind_eq_error_iff.mpr (.inl asked)

end SeqSlice
