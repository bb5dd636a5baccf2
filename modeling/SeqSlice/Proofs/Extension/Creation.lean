import Mathlib
import SeqSlice.Proofs.Extension.Endless
import SeqSlice.Proofs.Supergraph.Assembled
import SeqSlice.Proofs.Tag.Constructor
import SeqSlice.Slice.Run

/-! What created a receiver. The creations are told from the tags of the methods. If this
comes to an end, then it fails just if a `new` statement among the allocation sites of the
receiver has no constructor call there: one that its body does not list, or that leads to
none. It has no end only if the superclasses of something created go round. -/

set_option autoImplicit false
namespace SeqSlice

namespace Program

/-- A `new` statement that its body does not list, or from which normal edges lead to no
constructor call on its local. -/
def Uninitialized (program : Program) (alloc : AllocSite) : Prop :=
  ∃ point var cls, program.point? alloc.point = some point ∧ point.action = .new var cls ∧
    (alloc.point ∉ program.body point.method ∨
      ∀ call, Reached program.NormalStep alloc.point call → ¬ program.Constructs var call)

structure Stranded (program : Program) (caller : PointId) (var : String) (alloc : AllocSite) :
    Prop where
  held : ∃ method, program.methodOf? caller = some method ∧ alloc.id ∈ program.pointsTo method var
  listed : program.allocSite? alloc.id = some alloc
  uninitialized : program.Uninitialized alloc

/-- An answer comes, if superclasses have an end. It then fails just if what the local may
hold is not initialized somewhere, and it names such a site. -/
structure TellsStranded (program : Program) (caller : PointId) (var : String)
    (answer : Except ExtensionError (List PointId)) : Prop where
  concludes : program.Concludes answer
  fails_iff : ExtensionError.Settles answer →
    (ExtensionError.Fails answer ↔ ∃ alloc, program.Stranded caller var alloc)
  named : ExtensionError.Settles answer → ∀ error, answer = .error error →
    ∃ alloc, program.Stranded caller var alloc ∧ error = .noConstructor alloc.id alloc.point

variable {program : Program} {tags : TagTable} {reflection : Reflection} {site : CallSite}
  {caller : PointId} {target : MethodId} {var : String} {alloc : AllocSite} {ids : List SiteId}
  {calls created : List PointId} {error : ExtensionError}

theorem uninitialized_iff {point : Point} {cls : ClassId}
    (stored : program.point? alloc.point = some point) (action : point.action = .new var cls) :
    program.Uninitialized alloc ↔
      alloc.point ∉ program.body point.method ∨
        program.constructorCall? alloc.point var = none := by
  rw [(program.constructorCall?_first alloc.point var).none_iff]
  constructor
  · rintro ⟨other, name, made, same, actionToo, missing⟩
    obtain rfl := Option.some.inj (stored.symm.trans same)
    obtain ⟨rfl, -⟩ := Action.new.inj (action.symm.trans actionToo)
    exact missing
  · exact fun missing => ⟨point, var, cls, stored, action, missing⟩

section
variable (recorded : tags.constructorCalls = (TagTable.empty.addMethods program).constructorCalls)
include recorded

theorem creationCall_eq_error_iff :
    program.creationCall tags reflection alloc = .error error ↔
      program.Uninitialized alloc ∧ error = .noConstructor alloc.id alloc.point := by
  cases stored : program.point? alloc.point with
  | none => simp [creationCall, Uninitialized, stored]
  | some point =>
      cases action : point.action with
      | plain => simp [creationCall, Uninitialized, stored, action]
      | catchEntry => simp [creationCall, Uninitialized, stored, action]
      | nop => simp [creationCall, Uninitialized, stored, action]
      | call site => simp [creationCall, Uninitialized, stored, action]
      | new var cls =>
          have known := TagTable.constructorCall?_recorded recorded stored action
          rw [uninitialized_iff stored action]
          by_cases listed : alloc.point ∈ program.body point.method
          · rw [if_pos listed] at known
            cases found : program.constructorCall? alloc.point var <;>
              simp [creationCall, stored, action, known, found, listed, eq_comm]
          · rw [if_neg listed] at known
            simp [creationCall, stored, action, known, listed, eq_comm]

theorem initialized_of_creationsOf
    (told : program.creationsOf tags reflection site target created ids = .ok calls)
    (member : alloc.id ∈ ids) (listed : program.allocSite? alloc.id = some alloc) :
    ¬ program.Uninitialized alloc := by
  induction ids generalizing created with
  | nil => cases member
  | cons id rest ih =>
      rw [creationsOf] at told
      obtain ⟨first, known, told⟩ := bind_eq_ok_iff.mp told
      obtain ⟨creation, made, told⟩ := bind_eq_ok_iff.mp told
      rw [mapError_eq_ok_iff, knownSite_eq_ok_iff] at known
      rcases List.mem_cons.mp member with rfl | later
      · obtain rfl := Option.some.inj (listed.symm.trans known)
        intro uninitialized
        cases made.symm.trans ((creationCall_eq_error_iff recorded).mpr ⟨uninitialized, rfl⟩)
      · split at told
        · exact ih told later
        · obtain ⟨method, -, told⟩ := bind_eq_ok_iff.mp told
          obtain ⟨reaches, -, told⟩ := bind_eq_ok_iff.mp told
          exact ih told later

theorem uninitialized_of_creationsOf (known : target ∈ program.methodIds)
    (inRange : ∀ id ∈ ids, id ∈ program.siteIds) (ended : ∀ cls, error ≠ .unknown (.endless cls))
    (failed : program.creationsOf tags reflection site target created ids = .error error) :
    ∃ alloc, alloc.id ∈ ids ∧ program.allocSite? alloc.id = some alloc ∧
      program.Uninitialized alloc ∧ error = .noConstructor alloc.id alloc.point := by
  induction ids generalizing created with
  | nil => cases failed
  | cons id rest ih =>
      obtain ⟨here, others⟩ := List.forall_mem_cons.mp inRange
      obtain ⟨alloc, stored, rfl, -⟩ := (held program).sites id here
      obtain ⟨method, named, -⟩ := (held program).methods target known
      have wider {fact : AllocSite → Prop}
          (found : ∃ other : AllocSite, other.id ∈ rest ∧ fact other) :
          ∃ other : AllocSite, other.id ∈ alloc.id :: rest ∧ fact other :=
        let ⟨other, member, holds⟩ := found
        ⟨other, List.mem_cons_of_mem _ member, holds⟩
      rw [creationsOf, stored] at failed
      rcases bind_eq_error_iff.mp failed with unknown | ⟨first, same, failed⟩
      · cases unknown
      cases same
      rcases bind_eq_error_iff.mp failed with missing | ⟨creation, -, failed⟩
      · obtain ⟨uninitialized, rfl⟩ := (creationCall_eq_error_iff recorded).mp missing
        exact ⟨alloc, List.mem_cons_self, knownSite_eq_ok_iff.mp stored, uninitialized, rfl⟩
      · split at failed
        · exact wider (ih others failed)
        · rw [named] at failed
          rcases bind_eq_error_iff.mp failed with unknown | ⟨method, -, failed⟩
          · cases unknown
          rcases bind_eq_error_iff.mp failed with around | ⟨reaches, -, failed⟩
          · obtain ⟨cause, unreached, rfl⟩ := mapError_eq_error_iff.mp around
            -- A comparison that gives no answer is one that does not end, which is excluded.
            exact absurd (congrArg _ (decides_canReach cause unreached).1) (ended _)
          · exact wider (ih others failed)

theorem tellsStranded (callerKnown : caller ∈ program.pointIds)
    (targetKnown : target ∈ program.methodIds) :
    program.TellsStranded caller var
      (program.creationCalls tags reflection caller site target var) := by
  obtain ⟨point, stored, -, -, -⟩ := (held program).points caller callerKnown
  have owner : program.methodOf? caller = some point.method := by
    rw [methodOf?, knownPoint_eq_ok_iff.mp stored, Option.map_some]
  have answer : program.creationCalls tags reflection caller site target var =
      program.creationsOf tags reflection site target [] (program.pointsTo point.method var) := by
    rw [creationCalls, stored]
    rfl
  rw [answer]
  have names (settles : ExtensionError.Settles (program.creationsOf tags reflection site target []
      (program.pointsTo point.method var))) (error : ExtensionError)
      (failed : program.creationsOf tags reflection site target []
        (program.pointsTo point.method var) = .error error) :
      ∃ alloc, program.Stranded caller var alloc ∧ error = .noConstructor alloc.id alloc.point := by
    obtain ⟨alloc, member, listed, uninitialized, names⟩ := uninitialized_of_creationsOf recorded
      targetKnown (fun _ => mem_siteIds_of_mem_pointsTo)
      (fun cls same => settles cls (failed.trans (congrArg _ same))) failed
    exact ⟨alloc, ⟨⟨point.method, owner, member⟩, listed, uninitialized⟩, names⟩
  refine ⟨concludes_creationsOf, fun settles => ⟨?_, ?_⟩, names⟩
  · rintro ⟨-, error, failed⟩
    obtain ⟨alloc, stranded, -⟩ := names settles error failed
    exact ⟨alloc, stranded⟩
  · rintro ⟨alloc, ⟨method, owned, member⟩, listed, uninitialized⟩
    obtain rfl := Option.some.inj (owner.symm.trans owned)
    cases told : program.creationsOf tags reflection site target []
        (program.pointsTo point.method var) with
    | error error => exact ⟨told ▸ settles, error, rfl⟩
    | ok calls =>
        exact absurd uninitialized (initialized_of_creationsOf recorded told member listed)

end

/-- The search for a constructor call finds the first one on some path, if there is one, and
the creations of a receiver are told from it. -/
theorem constructors_exact (program : Program) :
    (∀ alloc var, program.FirstConstructor alloc var (program.constructorCall? alloc var)) ∧
      ∀ tags : TagTable,
        tags.constructorCalls = (TagTable.empty.addMethods program).constructorCalls →
        ∀ caller ∈ program.pointIds, ∀ target ∈ program.methodIds, ∀ reflection site var,
          program.TellsStranded caller var
            (program.creationCalls tags reflection caller site target var) :=
  ⟨program.constructorCall?_first, fun _ recorded _ callerKnown _ targetKnown _ _ _ =>
    tellsStranded recorded callerKnown targetKnown⟩

end Program

/-- The object in x is created before a loop and initialized behind it, once more after that.
A handler leads to the second call alone. Neither z nor w is ever initialized, and the
body does not list the statement that creates w. -/
def workshopListing : Listing where
  entry := some 0
  classes := [⟨0, "Main", none, [], false, false⟩, ⟨1, "Tool", none, [], false, false⟩]
  methods := [⟨0, 0, "main", "", true, false, [0, 1, 2, 3, 4, 5, 6]⟩,
    ⟨1, 1, "<init>", "()", false, false, []⟩, ⟨2, 1, "run", "()", false, false, []⟩]
  points := [⟨0, 0, 1, .new "x" 1, ""⟩, ⟨1, 0, 2, .call ⟨2, .virtual, some "x", [], none⟩, ""⟩,
    ⟨2, 0, 3, .call ⟨1, .special, some "y", [], none⟩, ""⟩,
    ⟨3, 0, 4, .call ⟨1, .special, some "x", [], none⟩, ""⟩,
    ⟨4, 0, 5, .call ⟨1, .special, some "x", [], none⟩, ""⟩, ⟨5, 0, 6, .new "z" 1, ""⟩,
    ⟨6, 0, 7, .call ⟨2, .virtual, some "z", [], none⟩, ""⟩, ⟨7, 0, 8, .new "w" 1, ""⟩]
  edges := [⟨0, 1, false⟩, ⟨1, 2, false⟩, ⟨1, 4, true⟩, ⟨2, 1, false⟩, ⟨2, 3, false⟩, ⟨3, 4, false⟩,
    ⟨4, 5, false⟩, ⟨5, 6, false⟩]
  calls := []
  allocSites := [⟨0, 0, 1⟩, ⟨1, 5, 1⟩, ⟨2, 7, 1⟩]
  pointsTo := [⟨0, "x", [0]⟩, ⟨0, "z", [0, 1]⟩, ⟨0, "w", [2]⟩]

def workshopProgram : Program := ⟨workshopListing, 0, rfl, by decide⟩

def workshopGraph : Supergraph := .assemble workshopProgram [] .empty .default

def workshopCreations (var : String) : Except ExtensionError (List PointId) :=
  workshopProgram.creationCalls (SliceRun.structureTags workshopGraph) Reflection.default 1
    ⟨2, .virtual, some var, [], none⟩ 2 var

theorem workshopProgram_told :
    (SliceRun.structureTags workshopGraph).constructorCalls =
        (TagTable.empty.addMethods workshopProgram).constructorCalls ∧
      1 ∈ workshopProgram.pointIds ∧ 2 ∈ workshopProgram.methodIds ∧
      workshopProgram.constructorCall? 0 "x" = some 3 ∧
      (∃ nodes, Path workshopProgram.NormalStep 0 (nodes ++ [3]) 3 ∧
        ∀ point ∈ nodes, ¬ workshopProgram.Constructs "x" point) ∧
      (∀ call, Reached workshopProgram.NormalStep 5 call → ¬ workshopProgram.Constructs "z" call) ∧
      workshopCreations "x" = .ok [3] ∧ (¬ ∃ alloc, workshopProgram.Stranded 1 "x" alloc) ∧
      workshopCreations "z" = .error (.noConstructor 1 5) ∧
      (∃ alloc, workshopProgram.Stranded 1 "z" alloc) ∧
      workshopCreations "w" = .error (.noConstructor 2 7) ∧
      ∃ alloc, workshopProgram.Stranded 1 "w" alloc := by
  obtain ⟨search, creations⟩ := workshopProgram.constructors_exact
  have recorded : (SliceRun.structureTags workshopGraph).constructorCalls =
      (TagTable.empty.addMethods workshopProgram).constructorCalls := by
    rw [SliceRun.structureTags, TagTable.constructorCalls_addCycles, workshopGraph,
      Supergraph.program_assemble]
  have caller : 1 ∈ workshopProgram.pointIds := by decide
  have target : 2 ∈ workshopProgram.methodIds := by decide
  have tells (var : String) : workshopProgram.TellsStranded 1 var (workshopCreations var) :=
    creations _ recorded 1 caller 2 target _ _ var
  have found : workshopProgram.constructorCall? 0 "x" = some 3 := by cbv
  have none : workshopProgram.constructorCall? 5 "z" = none := by cbv
  have initialized : workshopCreations "x" = .ok [3] := by cbv
  have later : workshopCreations "z" = .error (.noConstructor 1 5) := by cbv
  have unlisted : workshopCreations "w" = .error (.noConstructor 2 7) := by cbv
  have stranded {var : String} {alloc : SiteId} {point : PointId}
      (told : workshopCreations var = .error (.noConstructor alloc point)) :
      ∃ alloc, workshopProgram.Stranded 1 var alloc := by
    have fails : ExtensionError.Fails (workshopCreations var) :=
      told ▸ ExtensionError.fails_noConstructor
    exact ((tells var).fails_iff fails.1).mp fails
  refine ⟨recorded, caller, target, found, ((search 0 "x").first 3 found).2,
    (search 5 "z").none_iff.mp none, initialized, fun some => ?_, later, stranded later,
    unlisted, stranded unlisted⟩
  have settles : ExtensionError.Settles (workshopCreations "x") :=
    initialized ▸ ExtensionError.settles_ok
  obtain ⟨-, error, failed⟩ := ((tells "x").fails_iff settles).mpr some
  cases initialized.symm.trans failed

def carouselGraph : Supergraph := .assemble carouselProgram [] .empty .default

def carouselCreations : Except ExtensionError (List PointId) :=
  carouselProgram.creationCalls (SliceRun.structureTags carouselGraph) Reflection.default 2
    ⟨1, .virtual, some "x", [], none⟩ 1 "z"

/-- What z may hold is stranded, but a class is compared for ever before that is met. -/
theorem carouselProgram_untold :
    (SliceRun.structureTags carouselGraph).constructorCalls =
        (TagTable.empty.addMethods carouselProgram).constructorCalls ∧
      carouselCreations = .error (.unknown (.endless 2)) ∧
      (∃ alloc, carouselProgram.Stranded 2 "z" alloc) ∧
      ¬ (ExtensionError.Fails carouselCreations ↔ ∃ alloc, carouselProgram.Stranded 2 "z" alloc) := by
  have recorded : (SliceRun.structureTags carouselGraph).constructorCalls =
      (TagTable.empty.addMethods carouselProgram).constructorCalls := by
    rw [SliceRun.structureTags, TagTable.constructorCalls_addCycles, carouselGraph,
      Supergraph.program_assemble]
  have untold : carouselCreations = .error (.unknown (.endless 2)) := by
    have made : carouselProgram.creationCall (SliceRun.structureTags carouselGraph)
        Reflection.default ⟨0, 0, 2⟩ = .ok (some (1, 2)) := by cbv
    have held : carouselProgram.pointsTo 0 "z" = [0, 1] := by cbv
    refine bind_eq_error_iff.mpr (.inr ⟨_, rfl, ?_⟩)
    rw [held]
    exact Program.creationsOf_eq_error rfl made rfl carousel_unreached
  have stranded : carouselProgram.Stranded 2 "z" ⟨1, 3, 1⟩ := by
    have none : carouselProgram.constructorCall? 3 "y" = none := by cbv
    refine ⟨⟨0, rfl, by decide⟩, rfl, ⟨3, 0, 4, .new "y" 1, ""⟩, "y", 1, rfl, rfl, .inr ?_⟩
    exact (carouselProgram.constructorCall?_first 3 "y").none_iff.mp none
  refine ⟨recorded, untold, ⟨_, stranded⟩, fun same => ?_⟩
  exact (same.mpr ⟨_, stranded⟩).1 2 untold

end SeqSlice
