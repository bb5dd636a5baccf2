import Mathlib.Data.List.Induction
import SeqSlice.Proofs.Program.Closed
import SeqSlice.Proofs.Program.Growth

/-! Whoever gives a builder only what it made before cannot go wrong: every step can be
taken, the listing passes the checks, and its program is the one that was asked for. -/

set_option autoImplicit false
namespace SeqSlice

namespace BuildStep

/-! ## Orderly steps -/

inductive Joins : BuildStep → FlowEdge → Prop where
  | edge {source target exceptional} :
      Joins (.addEdge source target exceptional) ⟨source, target, exceptional⟩
  | chain {points source target} (next : [source, target] <:+: points) :
      Joins (.addChain points) ⟨source, target, false⟩

/-- The steps with what they made, from an empty listing on. There is none of steps that
cannot be taken. -/
def history (steps : List BuildStep) : List (BuildStep × Option Created) :=
  match Listing.empty.buildAll steps with
  | .ok (_, created) => steps.zip created
  | .error _ => []

/-- What the step is given was made before, and statements that it joins were made for one
method. -/
structure Fits (step : BuildStep) (taken : List (BuildStep × Option Created)) : Prop where
  known : ∀ id ∈ step.uses, ∃ one ∈ taken, one.2 = some id
  within : ∀ edge, step.Joins edge → ∃ one ∈ taken, ∃ other ∈ taken,
    one.2 = some (.point edge.source) ∧ other.2 = some (.point edge.target) ∧
      one.1.owner? = other.1.owner?

def Orderly (steps : List BuildStep) : Prop :=
  ∀ (position : Nat) (inRange : position < steps.length),
    steps[position].Fits (history (steps.take position))

variable {step : BuildStep} {edge : FlowEdge} {taken : List (BuildStep × Option Created)}

theorem joins_iff : step.Joins edge ↔ edge ∈ step.edges := by
  constructor
  · rintro (_ | next)
    · simp
    · exact Listing.mem_chainEdges.mpr ⟨rfl, next⟩
  · intro asked
    cases step <;> simp only [edges, List.mem_singleton, List.not_mem_nil] at asked
    case addEdge source target exceptional =>
      subst asked
      exact .edge
    case addChain points =>
      obtain ⟨source, target, exceptional⟩ := edge
      obtain ⟨rfl, next⟩ := Listing.mem_chainEdges.mp asked
      exact .chain next

instance : Decidable (step.Fits taken) :=
  decidable_of_iff ((∀ id ∈ step.uses, ∃ one ∈ taken, one.2 = some id) ∧
      ∀ edge ∈ step.edges, ∃ one ∈ taken, ∃ other ∈ taken,
        one.2 = some (.point edge.source) ∧ other.2 = some (.point edge.target) ∧
          one.1.owner? = other.1.owner?)
    ⟨fun ⟨known, within⟩ => ⟨known, fun edge asked => within edge (joins_iff.mp asked)⟩,
      fun ⟨known, within⟩ => ⟨known, fun edge asked => within edge (joins_iff.mpr asked)⟩⟩

instance (steps : List BuildStep) : Decidable (Orderly steps) :=
  inferInstanceAs (Decidable (∀ (position : Nat) (_ : position < steps.length), _))

theorem mem_uses_of_enters? {method : MethodId} (set : step.enters? = some method) :
    .method method ∈ step.uses := by
  cases step <;> simp_all

theorem mem_uses_of_mem_edges (asked : edge ∈ step.edges) :
    .point edge.source ∈ step.uses ∧ .point edge.target ∈ step.uses := by
  cases joins_iff.mpr asked with
  | edge => simp
  | chain next =>
      have both := next.subset
      simp only [uses, List.mem_map, Created.point.injEq, exists_eq_right]
      exact ⟨both (by simp), both (by simp)⟩

theorem mem_calls_iff {call : CallEdge} :
    call ∈ step.calls ↔ step = .addCall call.site call.callee := by
  obtain ⟨site, callee⟩ := call
  cases step <;> simp [eq_comm]

theorem mem_rows_iff {row : PointsTo} :
    row ∈ step.rows ↔ step = .addPointsTo row.method row.var row.sites := by
  obtain ⟨method, var, sites⟩ := row
  cases step <;> simp [eq_comm]

theorem mem_uses_of_mem_calls {call : CallEdge} (asked : call ∈ step.calls) :
    .point call.site ∈ step.uses ∧ .method call.callee ∈ step.uses := by
  simp [mem_calls_iff.mp asked]

theorem mem_uses_of_mem_rows {row : PointsTo} (asked : row ∈ step.rows) {site : SiteId}
    (member : site ∈ row.sites) : .site site ∈ step.uses := by
  simp [mem_rows_iff.mp asked, member]

end BuildStep

namespace Listing

/-! ## One step -/

/-- All ids of the listing are in range, and bodies and edges keep to the methods that
statements are made for. -/
structure Closed (listing : Listing) : Prop where
  placed : listing.PlacedIn listing
  entry : ∀ method, listing.entry = some method → listing.has (.method method) = true
  edges : ∀ edge ∈ listing.edges,
    (listing.has (.point edge.source) = true ∧ listing.has (.point edge.target) = true) ∧
      listing.owners[edge.source]? = listing.owners[edge.target]?
  calls : ∀ call ∈ listing.calls,
    listing.has (.point call.site) = true ∧ listing.has (.method call.callee) = true
  rows : ∀ row ∈ listing.pointsTo, ∀ site ∈ row.sites, listing.has (.site site) = true
  bodies : ∀ method, ∀ point ∈ listing.bodyOf method, listing.owners[point]? = some method

variable {listing grown : Listing} {step : BuildStep} {made : Option Created}

theorem madeFor_eq_some_iff {method : MethodId} {point : PointId} :
    madeFor method (step, made) = some point ↔
      made = some (.point point) ∧ step.owner? = some method := by
  unfold madeFor
  split <;> simp_all [-BuildStep.owner?, and_comm]

theorem closed_empty : empty.Closed := by
  constructor <;> simp [empty, bodyOf]
  case placed => constructor <;> simp [Stored]

theorem Closed.build (closed : listing.Closed) (known : ∀ id ∈ step.uses, listing.has id = true)
    (within : ∀ edge ∈ step.edges, listing.owners[edge.source]? = listing.owners[edge.target]?)
    (built : listing.build step = .ok (grown, made)) : grown.Closed := by
  have adds := adds_of_build built
  have given {id : Created} (used : id ∈ step.uses) := adds.keeps (known id used)
  -- Each row is one that was there, whose ids are kept, or one that the step asks for.
  refine ⟨closed.placed.build known built, fun method set => ?_, fun edge listed => ?_,
    fun call listed => ?_, fun row listed site member => ?_, fun method point member => ?_⟩
  · rw [adds.entry, Option.or_eq_some_iff] at set
    obtain asked | ⟨_, old⟩ := set
    · exact given (BuildStep.mem_uses_of_enters? asked)
    · exact adds.keeps (closed.entry method old)
  · -- Statements keep their methods, so what was joined within one still is.
    have ends : (listing.has (.point edge.source) = true ∧ listing.has (.point edge.target) = true) ∧
        listing.owners[edge.source]? = listing.owners[edge.target]? := by
      rw [adds.edges, List.mem_append] at listed
      obtain old | asked := listed
      · exact closed.edges edge old
      · exact ⟨(BuildStep.mem_uses_of_mem_edges asked).imp (known _) (known _), within edge asked⟩
    obtain ⟨⟨source, target⟩, same⟩ := ends
    refine ⟨⟨adds.keeps source, adds.keeps target⟩, ?_⟩
    rw [adds.owner_kept source, adds.owner_kept target, same]
  · rw [adds.calls, List.mem_append] at listed
    obtain old | asked := listed
    · exact (closed.calls call old).imp adds.keeps adds.keeps
    · exact (BuildStep.mem_uses_of_mem_calls asked).imp given given
  · rw [adds.pointsTo, List.mem_append] at listed
    obtain old | asked := listed
    · exact adds.keeps (closed.rows row old site member)
    · exact given (BuildStep.mem_uses_of_mem_rows asked member)
  · rw [adds.bodies, List.mem_append, Option.mem_toList, madeFor_eq_some_iff] at member
    obtain old | ⟨rfl, owned⟩ := member
    · have owned := closed.bodies method point old
      rw [adds.owners, List.getElem?_append_left (List.getElem?_eq_some_iff.mp owned).1, owned]
    · rw [adds.owned point rfl, owned]

theorem ownerOf?_eq (listing : Listing) (point : PointId) :
    listing.ownerOf? point = listing.owners[point]? :=
  (List.getElem?_map ..).symm

theorem Closed.sound (closed : listing.Closed) {entry : MethodId} (set : listing.entry = some entry) :
    listing.Sound where
  entry := ⟨entry, set, of_decide_eq_true (closed.entry entry set)⟩
  classes cls position found := by
    obtain ⟨placed, known⟩ := closed.placed.classes cls position found
    exact ⟨placed, fun supertype member => of_decide_eq_true (known _ (List.mem_map_of_mem member))⟩
  methods method position found := by
    obtain ⟨placed, known⟩ := closed.placed.methods method position found
    refine ⟨placed, of_decide_eq_true (known (.cls method.cls) (by simp)), fun point member => ?_⟩
    rw [ownerOf?_eq, placed]
    exact closed.bodies position point (by simpa [bodyOf, found] using member)
  points point position found := by
    obtain ⟨placed, known⟩ := closed.placed.points point position found
    refine ⟨placed, of_decide_eq_true (known (.method point.method) (by simp)), fun site call => ?_⟩
    exact of_decide_eq_true (known (.method site.target) (by simp [call, Action.uses]))
  edges edge listed := by
    obtain ⟨⟨source, target⟩, same⟩ := closed.edges edge listed
    exact ⟨of_decide_eq_true source, of_decide_eq_true target, by rw [ownerOf?_eq, ownerOf?_eq, same]⟩
  calls call listed := (closed.calls call listed).imp of_decide_eq_true of_decide_eq_true
  sites site position found := by
    obtain ⟨placed, known⟩ := closed.placed.sites site position found
    exact ⟨placed, of_decide_eq_true (known (.point site.point) (by simp)),
      of_decide_eq_true (known (.cls site.cls) (by simp))⟩
  pointsTo row listed site member := of_decide_eq_true (closed.rows row listed site member)

/-! ## All steps -/

/-- The listing has what the steps asked for, and what they made is in it. -/
structure BuiltBy (listing : Listing) (steps : List BuildStep)
    (taken : List (BuildStep × Option Created)) : Prop where
  closed : listing.Closed
  entry : listing.entry = (steps.filterMap (·.enters?)).getLast?
  edges : listing.edges = steps.flatMap (·.edges)
  calls : listing.calls = steps.flatMap (·.calls)
  pointsTo : listing.pointsTo = steps.flatMap (·.rows)
  bodies : ∀ method, listing.bodyOf method = taken.filterMap (madeFor method)
  holds : ∀ one ∈ taken, ∀ id, one.2 = some id → listing.has id = true
  owned : ∀ one ∈ taken, ∀ point, one.2 = some (.point point) →
    listing.owners[point]? = one.1.owner?

variable {steps : List BuildStep} {taken : List (BuildStep × Option Created)}

theorem builtBy_nil : empty.BuiltBy [] [] := by
  constructor <;> simp [closed_empty]
  all_goals simp [empty, bodyOf]

theorem BuiltBy.concat (before : listing.BuiltBy steps taken) (fits : step.Fits taken) :
    ∃ grown made, listing.build step = .ok (grown, made) ∧
      grown.BuiltBy (steps ++ [step]) (taken ++ [(step, made)]) := by
  -- Everything that was made is there, and so is what the step is given.
  have known (id : Created) (used : id ∈ step.uses) : listing.has id = true := by
    obtain ⟨one, earlier, same⟩ := fits.known id used
    exact before.holds one earlier id same
  have within (edge : FlowEdge) (asked : edge ∈ step.edges) :
      listing.owners[edge.source]? = listing.owners[edge.target]? := by
    obtain ⟨one, earlier, other, earlier', source, target, same⟩ :=
      fits.within edge (BuildStep.joins_iff.mpr asked)
    rw [before.owned one earlier _ source, before.owned other earlier' _ target, same]
  obtain ⟨grown, made, built⟩ := exists_build before.closed.placed known
  have adds := adds_of_build built
  refine ⟨grown, made, built, before.closed.build known within built, ?_, ?_, ?_, ?_, fun method => ?_,
    fun one member id same => ?_, fun one member point same => ?_⟩
  · rw [adds.entry, before.entry, List.filterMap_append, List.getLast?_append]
    cases asked : step.enters? <;> simp [asked, -BuildStep.enters?]
  · rw [adds.edges, before.edges, List.flatMap_append, List.flatMap_singleton]
  · rw [adds.calls, before.calls, List.flatMap_append, List.flatMap_singleton]
  · rw [adds.pointsTo, before.pointsTo, List.flatMap_append, List.flatMap_singleton]
  · rw [adds.bodies, before.bodies, List.filterMap_append]
    cases own : madeFor method (step, made) <;> simp [own]
  · rcases List.mem_append.mp member with earlier | last
    · exact adds.keeps (before.holds one earlier id same)
    · obtain rfl := List.mem_singleton.mp last
      exact adds.holds id same
  · rcases List.mem_append.mp member with earlier | last
    · rw [adds.owner_kept (before.holds one earlier _ same), before.owned one earlier point same]
    · obtain rfl := List.mem_singleton.mp last
      exact adds.owned point same

namespace BuiltBy

variable (built : listing.BuiltBy steps taken)
include built

theorem mem_edges {edge : FlowEdge} : edge ∈ listing.edges ↔ ∃ step ∈ steps, step.Joins edge := by
  simp only [built.edges, List.mem_flatMap, BuildStep.joins_iff]

theorem joined_iff {source target : PointId} :
    (∃ edge ∈ listing.edges, edge.source = source ∧ edge.target = target) ↔
      ∃ step ∈ steps, ∃ exceptional, step.Joins ⟨source, target, exceptional⟩ := by
  simp only [built.mem_edges]
  constructor
  · rintro ⟨⟨_, _, exceptional⟩, ⟨step, asked, joins⟩, rfl, rfl⟩
    exact ⟨step, asked, exceptional, joins⟩
  · rintro ⟨step, asked, exceptional, joins⟩
    exact ⟨_, ⟨step, asked, joins⟩, rfl, rfl⟩

theorem normally_joined_iff {source target : PointId} :
    (∃ edge ∈ listing.edges, edge.exceptional = false ∧ edge.source = source ∧ edge.target = target) ↔
      ∃ step ∈ steps, step.Joins ⟨source, target, false⟩ := by
  rw [← built.mem_edges]
  constructor
  · rintro ⟨⟨_, _, _⟩, listed, rfl, rfl, rfl⟩
    exact listed
  · exact fun listed => ⟨_, listed, rfl, rfl, rfl⟩

theorem mem_calls {point : PointId} {method : MethodId} :
    ⟨point, method⟩ ∈ listing.calls ↔ .addCall point method ∈ steps := by
  simp [built.calls, BuildStep.mem_calls_iff, -BuildStep.calls]

theorem mem_pointsTo {row : PointsTo} :
    row ∈ listing.pointsTo ↔ .addPointsTo row.method row.var row.sites ∈ steps := by
  simp [built.pointsTo, BuildStep.mem_rows_iff, -BuildStep.rows]

end BuiltBy

theorem buildAll_concat {base middle : Listing} {created : List (Option Created)}
    (built : base.buildAll steps = .ok (middle, created))
    (next : middle.build step = .ok (grown, made)) :
    base.buildAll (steps ++ [step]) = .ok (grown, created ++ [made]) := by
  induction steps generalizing base created with
  | nil =>
      cases built
      exact bind_eq_ok_iff.mpr ⟨_, next, rfl⟩
  | cons first rest ih =>
      obtain ⟨⟨start, one⟩, taken, more⟩ := bind_eq_ok_iff.mp built
      obtain ⟨⟨final, others⟩, later, same⟩ := bind_eq_ok_iff.mp more
      cases same
      exact bind_eq_ok_iff.mpr ⟨_, taken, bind_eq_ok_iff.mpr ⟨_, ih later, rfl⟩⟩

end Listing

theorem BuildStep.history_eq {steps : List BuildStep} {listing : Listing}
    {created : List (Option Created)}
    (built : Listing.empty.buildAll steps = .ok (listing, created)) :
    history steps = steps.zip created := by
  rw [history, built]

theorem BuildStep.Orderly.of_concat {before : List BuildStep} {step : BuildStep}
    (orderly : Orderly (before ++ [step])) : Orderly before ∧ step.Fits (history before) := by
  constructor
  · intro position inRange
    have longer : position < (before ++ [step]).length := by
      rw [List.length_append]
      omega
    have fits := orderly position longer
    rwa [List.getElem_append_left inRange, List.take_append_of_le_length (Nat.le_of_lt inRange)] at fits
  · simpa using orderly before.length (by simp)

theorem BuildStep.Orderly.exists_buildAll {steps : List BuildStep} (orderly : Orderly steps) :
    ∃ listing created, Listing.empty.buildAll steps = .ok (listing, created) ∧
      created.length = steps.length ∧ listing.BuiltBy steps (steps.zip created) := by
  -- From the end, since a step fits what was taken before it.
  induction steps using List.reverseRecOn with
  | nil => exact ⟨_, _, rfl, rfl, Listing.builtBy_nil⟩
  | append_singleton before step ih =>
      obtain ⟨earlier, fits⟩ := orderly.of_concat
      obtain ⟨listing, created, built, sameLength, invariant⟩ := ih earlier
      rw [history_eq built] at fits
      obtain ⟨grown, made, next, kept⟩ := invariant.concat fits
      refine ⟨grown, created ++ [made], Listing.buildAll_concat built next, by simp [sameLength], ?_⟩
      rwa [List.zip_append sameLength.symm]

namespace Program

/-! ## The program -/

/-- The program has what the steps asked for and nothing else, however often they asked. -/
structure Fulfils (program : Program) (steps : List BuildStep) : Prop where
  entry : (steps.filterMap (·.enters?)).getLast? = some program.entry
  bodies : ∀ method, program.body method = (BuildStep.history steps).filterMap (Listing.madeFor method)
  succs : ∀ source target, target ∈ program.succs source ↔
    ∃ step ∈ steps, ∃ exceptional, step.Joins ⟨source, target, exceptional⟩
  preds : ∀ source target, source ∈ program.preds target ↔
    ∃ step ∈ steps, ∃ exceptional, step.Joins ⟨source, target, exceptional⟩
  normalSuccs : ∀ source target, target ∈ program.normalSuccs source ↔
    ∃ step ∈ steps, step.Joins ⟨source, target, false⟩
  normalPreds : ∀ source target, source ∈ program.normalPreds target ↔
    ∃ step ∈ steps, step.Joins ⟨source, target, false⟩
  callees : ∀ point method, method ∈ program.callees point ↔ .addCall point method ∈ steps
  callers : ∀ point method, point ∈ program.callers method ↔ .addCall point method ∈ steps
  pointsTo : ∀ method var site, site ∈ program.pointsTo method var ↔
    ∃ sites, .addPointsTo method var sites ∈ steps ∧ site ∈ sites
  once : program.Distinct

variable {program : Program} {steps : List BuildStep} {taken : List (BuildStep × Option Created)}

theorem mem_pointsTo {method : MethodId} {var : String} {site : SiteId} :
    site ∈ program.pointsTo method var ↔
      ∃ sites, ⟨method, var, sites⟩ ∈ program.listing.pointsTo ∧ site ∈ sites := by
  simp only [pointsTo, List.mem_eraseDups, List.mem_flatMap, List.mem_filter, Bool.and_eq_true,
    beq_iff_eq]
  constructor
  · rintro ⟨⟨_, _, sites⟩, ⟨listed, rfl, rfl⟩, member⟩
    exact ⟨sites, listed, member⟩
  · rintro ⟨sites, listed, member⟩
    exact ⟨_, ⟨listed, rfl, rfl⟩, member⟩

theorem fulfils (built : program.listing.BuiltBy steps (BuildStep.history steps)) :
    program.Fulfils steps where
  entry := by rw [← built.entry, program.entry_listed]
  bodies := built.bodies
  succs source target := (program.mirrors.succs source target).trans built.joined_iff
  preds source target := (program.mirrors.preds source target).trans built.joined_iff
  normalSuccs source target :=
    (program.mirrors.normalSuccs source target).trans built.normally_joined_iff
  normalPreds source target :=
    (program.mirrors.normalPreds source target).trans built.normally_joined_iff
  callees point method := (program.mirrors.callees point method).trans built.mem_calls
  callers point method := (program.mirrors.callers point method).trans built.mem_calls
  pointsTo method var site := by simp only [mem_pointsTo, built.mem_pointsTo]
  once := program.distinct

end Program

/-- Orderly steps that set an entry build a listing that is a program, whose rows are those
that the steps asked for. Ids are not bounded, so there may be any number of items. -/
theorem BuildStep.orderly_loads {steps : List BuildStep} (orderly : Orderly steps)
    (entered : ∃ method, .setEntry method ∈ steps) : ∃ listing created program,
    Listing.empty.buildAll steps = .ok (listing, created) ∧ Program.ofListing listing = .ok program ∧
      program.Fulfils steps := by
  obtain ⟨listing, created, built, _, invariant⟩ := orderly.exists_buildAll
  rw [← history_eq built] at invariant
  obtain ⟨first, set⟩ := entered
  have some : (steps.filterMap (·.enters?)) ≠ [] :=
    List.ne_nil_of_mem (List.mem_filterMap.mpr ⟨_, set, rfl⟩)
  have last := invariant.entry.trans (List.getLast?_eq_some_getLast some)
  have sound := invariant.closed.sound last
  let program : Program := ⟨listing, _, last, Listing.defects_eq_nil_iff.mpr sound⟩
  exact ⟨listing, created, program, built, Program.ofListing_listing program, Program.fulfils invariant⟩

/-- A method with a call that may fail, built out of order. A chain and an edge ask for the
same thing, and so do two calls. -/
def builderSteps : List BuildStep :=
  [.addClass "app.Main" false false, .addMethod 0 "main" true false, .addMethod 0 "run" true false,
    .addPoint 0 1 (.new "task" 0), .addPoint 1 9 .plain,
    .addPoint 0 2 (.call ⟨1, .static, some "task", [], none⟩), .addPoint 0 3 .catchEntry,
    .addChain [0, 2], .addEdge 0 2 false, .addEdge 2 3 true, .addCall 2 1, .addCall 2 1,
    .addSite 0 0, .addPointsTo 0 "task" [0, 0], .setEntry 1, .setEntry 0]

theorem builderSteps_load : BuildStep.Orderly builderSteps ∧ ∃ listing created program,
    Listing.empty.buildAll builderSteps = .ok (listing, created) ∧
      Program.ofListing listing = .ok program ∧ program.Fulfils builderSteps := by
  have orderly : BuildStep.Orderly builderSteps := by decide +kernel
  exact ⟨orderly, BuildStep.orderly_loads orderly ⟨0, by decide⟩⟩

end SeqSlice
