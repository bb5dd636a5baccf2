import SeqSlice.Program.Builder
import SeqSlice.Proofs.Error
import SeqSlice.Proofs.Program.Accepted

/-! What one step of building does to a listing. It adds what it asks for and touches
nothing else, and if the ids it names are there, it can be taken and leaves a listing whose
ids are in range, as those were that it found. -/

set_option autoImplicit false
namespace SeqSlice

/-! ## What a step asks for -/

def Action.uses : Action → List Created
  | .call site => [.method site.target]
  | .new _ cls => [.cls cls]
  | _ => []

namespace BuildStep

@[simp] def uses : BuildStep → List Created
  | .addClass .. => []
  | .setSuper sub sup => [.cls sub, .cls sup]
  | .addInterface cls iface => [.cls cls, .cls iface]
  | .addMethod cls .. => [.cls cls]
  | .setSignature method _ => [.method method]
  | .setEntry method => [.method method]
  | .addPoint method _ action => .method method :: action.uses
  | .setArgs point _ => [.point point]
  | .setAssigned point _ => [.point point]
  | .addEdge source target _ => [.point source, .point target]
  | .addChain points => points.map .point
  | .addCall site callee => [.point site, .method callee]
  | .addSite point cls => [.point point, .cls cls]
  | .addPointsTo method _ sites => .method method :: sites.map .site

@[simp] def edges : BuildStep → List FlowEdge
  | .addEdge source target exceptional => [⟨source, target, exceptional⟩]
  | .addChain points => Listing.chainEdges points
  | _ => []

@[simp] def calls : BuildStep → List CallEdge
  | .addCall site callee => [⟨site, callee⟩]
  | _ => []

@[simp] def rows : BuildStep → List PointsTo
  | .addPointsTo method var sites => [⟨method, var, sites⟩]
  | _ => []

@[simp] def enters? : BuildStep → Option MethodId
  | .setEntry method => some method
  | _ => none

@[simp] def owner? : BuildStep → Option MethodId
  | .addPoint method _ _ => some method
  | _ => none

end BuildStep

namespace Listing

theorem mem_chainEdges {points : List PointId} {edge : FlowEdge} : edge ∈ chainEdges points ↔
    edge.exceptional = false ∧ [edge.source, edge.target] <:+: points := by
  obtain ⟨source, target, exceptional⟩ := edge
  simp only [chainEdges, List.mem_map, Prod.exists, FlowEdge.mk.injEq]
  induction points with
  | nil => simp
  | cons first rest ih =>
      cases rest with
      | nil => simp [List.infix_cons_iff]
      | cons second more =>
          rw [List.infix_cons_iff, List.tail_cons, List.zip_cons_cons]
          simp only [List.tail_cons] at ih
          simp only [List.mem_cons, Prod.mk.injEq, List.cons_prefix_cons, List.nil_prefix, and_true]
          constructor
          · rintro ⟨one, other, ⟨rfl, rfl⟩ | later, rfl, rfl, rfl⟩
            · exact ⟨rfl, .inl ⟨rfl, rfl⟩⟩
            · obtain ⟨plain, inside⟩ := ih.mp ⟨_, _, later, rfl, rfl, rfl⟩
              exact ⟨rfl, .inr inside⟩
          · rintro ⟨rfl, ⟨rfl, rfl⟩ | inside⟩
            · exact ⟨_, _, .inl ⟨rfl, rfl⟩, rfl, rfl, rfl⟩
            · obtain ⟨one, other, later, rfl, rfl, _⟩ := ih.mpr ⟨rfl, inside⟩
              exact ⟨_, _, .inr later, rfl, rfl, rfl⟩

variable {listing grown : Listing}

def has (listing : Listing) : Created → Bool
  | .cls id => listing.hasClass id
  | .method id => listing.hasMethod id
  | .point id => listing.hasPoint id
  | .site id => listing.hasSite id

/-! ## What a step adds -/

theorem editClass_eq_ok_iff {cls : ClassId} {edit : Class → Class} :
    listing.editClass cls edit = .ok grown ↔ listing.hasClass cls = true ∧
      { listing with classes := listing.classes.modify cls edit } = grown := by
  unfold editClass
  split <;> simp [*]

theorem editMethod_eq_ok_iff {method : MethodId} {edit : Method → Method} :
    listing.editMethod method edit = .ok grown ↔ listing.hasMethod method = true ∧
      { listing with methods := listing.methods.modify method edit } = grown := by
  unfold editMethod
  split <;> simp [*]

def editedPoint (edit : CallSite → CallSite) (point : Point) : Point :=
  match point.action with
  | .call site => { point with action := .call (edit site) }
  | _ => point

theorem editCall_eq_ok_iff {point : PointId} {edit : CallSite → CallSite} :
    listing.editCall point edit = .ok grown ↔ listing.hasPoint point = true ∧
      { listing with points := listing.points.modify point (editedPoint edit) } = grown := by
  unfold editCall
  split
  · next known =>
      rw [Except.ok.injEq]
      exact ⟨fun same => ⟨known, same⟩, fun both => both.2⟩
  · next unknown => simp [unknown]

theorem newPoint_eq_ok_iff {method : MethodId} {line : Int} {action : Action} {id : PointId} :
    listing.newPoint method line action = .ok (grown, id) ↔
      ∃ text, listing.describe action = .ok text ∧ listing.hasMethod method = true ∧
        id = listing.points.length ∧
        { listing with
          points := listing.points ++ [⟨listing.points.length, method, line, action, text⟩]
          methods := listing.methods.modify method fun found =>
            { found with body := found.body ++ [listing.points.length] } } = grown := by
  unfold newPoint
  simp only [bind_eq_ok_iff, editMethod_eq_ok_iff, pure, Except.pure, Except.ok.injEq, Prod.mk.injEq]
  constructor
  · rintro ⟨text, described, _, ⟨known, rfl⟩, rfl, rfl⟩
    exact ⟨text, described, known, rfl, rfl⟩
  · rintro ⟨text, described, known, rfl, rfl⟩
    exact ⟨text, described, _, ⟨known, rfl⟩, rfl, rfl⟩

def bodyOf (listing : Listing) (method : MethodId) : List PointId :=
  ((listing.methods[method]?).map (·.body)).getD []

def owners (listing : Listing) : List MethodId := listing.points.map (·.method)

/-- The statement that a step gave back, if it was made for this method. -/
def madeFor (method : MethodId) (taken : BuildStep × Option Created) : Option PointId :=
  match taken.2 with
  | some (.point id) => if taken.1.owner? = some method then some id else none
  | _ => none

structure Adds (listing grown : Listing) (step : BuildStep) (made : Option Created) : Prop where
  entry : grown.entry = step.enters?.or listing.entry
  edges : grown.edges = listing.edges ++ step.edges
  calls : grown.calls = listing.calls ++ step.calls
  pointsTo : grown.pointsTo = listing.pointsTo ++ step.rows
  owners : grown.owners = listing.owners ++ step.owner?.toList
  bodies : ∀ method, grown.bodyOf method = listing.bodyOf method ++ (madeFor method (step, made)).toList
  classes : listing.classes.length ≤ grown.classes.length
  methods : listing.methods.length ≤ grown.methods.length
  sites : listing.allocSites.length ≤ grown.allocSites.length
  holds : ∀ id, made = some id → grown.has id = true
  owned : ∀ point, made = some (.point point) → grown.owners[point]? = step.owner?

theorem method_editedPoint (edit : CallSite → CallSite) (point : Point) :
    (editedPoint edit point).method = point.method := by
  unfold editedPoint
  split <;> rfl

theorem owners_modify (points : List Point) (point : PointId) (edit : CallSite → CallSite) :
    (points.modify point (editedPoint edit)).map (·.method) = points.map (·.method) := by
  refine List.ext_getElem? fun position => ?_
  rw [List.getElem?_map, List.getElem?_map, List.getElem?_modify]
  cases points[position]? with
  | none => rfl
  | some found => by_cases here : point = position <;> simp [here, method_editedPoint]

theorem bodyOf_modify {changed : MethodId} {edit : Method → Method} {more : List PointId}
    (known : listing.hasMethod changed = true)
    (longer : ∀ method, (edit method).body = method.body ++ more) (method : MethodId) :
    (((listing.methods.modify changed edit)[method]?).map (·.body)).getD [] =
      listing.bodyOf method ++ if changed = method then more else [] := by
  rw [bodyOf, List.getElem?_modify]
  by_cases here : changed = method
  · subst here
    have inRange : changed < listing.methods.length := by simpa [hasMethod] using known
    simp [List.getElem?_eq_getElem inRange, longer]
  · simp [here]

theorem bodyOf_append {added : Method} (empty : added.body = []) (method : MethodId) :
    (((listing.methods ++ [added])[method]?).map (·.body)).getD [] = listing.bodyOf method := by
  rw [bodyOf, List.getElem?_append]
  split
  · rfl
  · next beyond =>
      rw [List.getElem?_eq_none (Nat.not_lt.mp beyond)]
      cases behind : [added][method - listing.methods.length]? with
      | none => rfl
      | some found =>
          rw [List.mem_singleton.mp (List.mem_of_getElem? behind)]
          simp [empty]

theorem adds_of_build {step : BuildStep} {made : Option Created}
    (built : listing.build step = .ok (grown, made)) : listing.Adds grown step made := by
  cases step <;>
    simp only [build, bind_eq_ok_iff, editClass_eq_ok_iff, editMethod_eq_ok_iff, editCall_eq_ok_iff,
      pure, Except.pure, Except.ok.injEq, Prod.mk.injEq, Prod.exists, newPoint_eq_ok_iff] at built
  -- Only a step that changes the methods has to say what becomes of the bodies.
  case addClass name isInterface isLibrary =>
    obtain ⟨rfl, rfl⟩ := built
    constructor <;> simp [owners, bodyOf, madeFor, has, hasClass]
  case setSuper sub sup =>
    obtain ⟨_, ⟨known, rfl⟩, rfl, rfl⟩ := built
    constructor <;> simp [owners, bodyOf, madeFor]
  case addInterface cls iface =>
    obtain ⟨_, ⟨known, rfl⟩, rfl, rfl⟩ := built
    constructor <;> simp [owners, bodyOf, madeFor]
  case addMethod cls name isStatic isAbstract =>
    obtain ⟨rfl, rfl⟩ := built
    constructor <;> simp [owners, madeFor, has, hasMethod]
    case bodies => exact bodyOf_append rfl
  case setSignature method signature =>
    obtain ⟨_, ⟨known, rfl⟩, rfl, rfl⟩ := built
    have same (found : Method) : ({ found with signature } : Method).body = found.body ++ [] :=
      (List.append_nil _).symm
    constructor <;> simp [owners, madeFor]
    case bodies => exact fun other => (bodyOf_modify known same other).trans (by simp)
  case setEntry method =>
    obtain ⟨rfl, rfl⟩ := built
    constructor <;> simp [owners, bodyOf, madeFor]
  case addPoint method line action =>
    obtain ⟨_, _, ⟨text, described, known, rfl, rfl⟩, rfl, rfl⟩ := built
    constructor <;> simp [owners, madeFor, has, hasPoint]
    case bodies =>
      refine fun other => (bodyOf_modify known (fun _ => rfl) other).trans ?_
      split <;> rfl
  case setArgs point args =>
    obtain ⟨_, ⟨known, rfl⟩, rfl, rfl⟩ := built
    constructor <;> simp [owners, bodyOf, madeFor, owners_modify]
  case setAssigned point var =>
    obtain ⟨_, ⟨known, rfl⟩, rfl, rfl⟩ := built
    constructor <;> simp [owners, bodyOf, madeFor, owners_modify]
  case addEdge source target exceptional =>
    obtain ⟨rfl, rfl⟩ := built
    constructor <;> simp [owners, bodyOf, madeFor]
  case addChain points =>
    obtain ⟨rfl, rfl⟩ := built
    constructor <;> simp [owners, bodyOf, madeFor]
  case addCall site callee =>
    obtain ⟨rfl, rfl⟩ := built
    constructor <;> simp [owners, bodyOf, madeFor]
  case addSite point cls =>
    obtain ⟨rfl, rfl⟩ := built
    constructor <;> simp [owners, bodyOf, madeFor, has, hasSite]
  case addPointsTo method var sites =>
    obtain ⟨rfl, rfl⟩ := built
    constructor <;> simp [owners, bodyOf, madeFor]

namespace Adds

variable {step : BuildStep} {made : Option Created} (adds : listing.Adds grown step made)
include adds

theorem keeps {id : Created} (known : listing.has id = true) : grown.has id = true := by
  have points : listing.points.length ≤ grown.points.length := by
    have longer := congrArg List.length adds.owners
    simp only [Listing.owners, List.length_map, List.length_append] at longer
    omega
  cases id <;> simp only [has, hasClass, hasMethod, hasPoint, hasSite, decide_eq_true_eq] at known ⊢
  · exact Nat.lt_of_lt_of_le known adds.classes
  · exact Nat.lt_of_lt_of_le known adds.methods
  · exact Nat.lt_of_lt_of_le known points
  · exact Nat.lt_of_lt_of_le known adds.sites

theorem owner_kept {point : PointId} (known : listing.has (.point point) = true) :
    grown.owners[point]? = listing.owners[point]? := by
  have inRange : point < listing.owners.length := by simpa [has, hasPoint, Listing.owners] using known
  rw [adds.owners, List.getElem?_append_left inRange]

end Adds

end Listing

/-! ## Ids in range -/

@[simp] def Class.uses (cls : Class) : List Created := (Listing.supertypes cls).map .cls
@[simp] def Method.uses (method : Method) : List Created := [.cls method.cls]
@[simp] def Point.uses (point : Point) : List Created := .method point.method :: point.action.uses
@[simp] def AllocSite.uses (site : AllocSite) : List Created := [.point site.point, .cls site.cls]

namespace Listing

variable {listing grown : Listing}

section
variable {α : Type} {idOf : α → Nat} {uses : α → List Created} {values : List α}

/-- Each item stands at its own id and names ids of the listing. -/
def Stored (listing : Listing) (idOf : α → Nat) (uses : α → List Created) (values : List α) : Prop :=
  ∀ value (position : Nat), values[position]? = some value →
    idOf value = position ∧ ∀ id ∈ uses value, listing.has id = true

theorem Stored.mono (stored : listing.Stored idOf uses values)
    (keeps : ∀ {id}, listing.has id = true → grown.has id = true) : grown.Stored idOf uses values :=
  fun value position found =>
    have ⟨placed, known⟩ := stored value position found
    ⟨placed, fun id used => keeps (known id used)⟩

theorem Stored.append (stored : listing.Stored idOf uses values) {added : α}
    (next : idOf added = values.length) (known : ∀ id ∈ uses added, listing.has id = true) :
    listing.Stored idOf uses (values ++ [added]) := by
  intro value position found
  rw [List.getElem?_append] at found
  split at found
  · exact stored value position found
  · next beyond =>
      obtain ⟨here, rfl⟩ := List.getElem?_eq_some_iff.mp found
      rw [List.length_singleton] at here
      have last : position = values.length := by omega
      simpa [last, next] using known

theorem Stored.modify (stored : listing.Stored idOf uses values) {edit : α → α}
    (kept : ∀ value, idOf (edit value) = idOf value ∧
      ∀ id ∈ uses (edit value), id ∈ uses value ∨ listing.has id = true) (changed : Nat) :
    listing.Stored idOf uses (values.modify changed edit) := by
  intro value position found
  rw [List.getElem?_modify] at found
  obtain ⟨old, here, rfl⟩ := Option.map_eq_some_iff.mp found
  obtain ⟨placed, inRange⟩ := stored old position here
  split
  · obtain ⟨same, known⟩ := kept old
    exact ⟨same.trans placed, fun id used => (known id used).elim (inRange id) fun held => held⟩
  · exact ⟨placed, inRange⟩

end

/-- The items of a listing stand at their ids, and the ids that they name are those of the
other listing. -/
structure PlacedIn (listing whole : Listing) : Prop where
  classes : whole.Stored Class.id Class.uses listing.classes
  methods : whole.Stored Method.id Method.uses listing.methods
  points : whole.Stored Point.id Point.uses listing.points
  sites : whole.Stored AllocSite.id AllocSite.uses listing.allocSites

theorem uses_editedPoint {edit : CallSite → CallSite} (same : ∀ site, (edit site).target = site.target)
    (point : Point) : (editedPoint edit point).id = point.id ∧
      ∀ id ∈ (editedPoint edit point).uses, id ∈ point.uses ∨ listing.has id = true := by
  unfold editedPoint
  split
  · next site isCall =>
      refine ⟨rfl, fun id used => .inl ?_⟩
      simpa [Action.uses, isCall, same] using used
  · exact ⟨rfl, fun _ => .inl⟩

/-- Whatever a step stores names ids that the step was given. -/
theorem PlacedIn.build {step : BuildStep} {made : Option Created} (placed : listing.PlacedIn listing)
    (known : ∀ id ∈ step.uses, listing.has id = true)
    (built : listing.build step = .ok (grown, made)) : grown.PlacedIn grown := by
  have adds := adds_of_build built
  have given (id : Created) (used : id ∈ step.uses) := adds.keeps (known id used)
  -- What was there before names ids that are still there.
  have classes := placed.classes.mono adds.keeps
  have methods := placed.methods.mono adds.keeps
  have points := placed.points.mono adds.keeps
  have sites := placed.sites.mono adds.keeps
  cases step <;>
    simp only [Listing.build, bind_eq_ok_iff, editClass_eq_ok_iff, editMethod_eq_ok_iff,
      editCall_eq_ok_iff, pure, Except.pure, Except.ok.injEq, Prod.mk.injEq, Prod.exists, newPoint_eq_ok_iff] at built
  case addClass name isInterface isLibrary =>
    obtain ⟨rfl, rfl⟩ := built
    exact ⟨classes.append rfl (by simp [supertypes]), methods, points, sites⟩
  case setSuper sub sup =>
    obtain ⟨_, ⟨_, rfl⟩, rfl, rfl⟩ := built
    refine ⟨classes.modify ?_ sub, methods, points, sites⟩
    refine fun cls => ⟨rfl, fun id used => ?_⟩
    rw [Class.uses, supertypes, Option.toList_some, List.singleton_append, List.map_cons,
      List.mem_cons] at used
    obtain rfl | inherited := used
    · exact .inr (given _ (by simp))
    · exact .inl (by simpa [supertypes] using .inr (List.mem_map.mp inherited))
  case addInterface cls iface =>
    obtain ⟨_, ⟨_, rfl⟩, rfl, rfl⟩ := built
    refine ⟨classes.modify ?_ cls, methods, points, sites⟩
    refine fun found => ⟨rfl, fun id used => ?_⟩
    rw [Class.uses, supertypes, ← List.append_assoc, List.map_append, List.mem_append] at used
    obtain old | added := used
    · exact .inl old
    · exact .inr (given id (by simp_all))
  case addMethod cls name isStatic isAbstract =>
    obtain ⟨rfl, rfl⟩ := built
    exact ⟨classes, methods.append rfl (by simpa using given), points, sites⟩
  case setSignature method signature =>
    obtain ⟨_, ⟨_, rfl⟩, rfl, rfl⟩ := built
    refine ⟨classes, methods.modify ?_ method, points, sites⟩
    exact fun _ => ⟨rfl, fun _ => .inl⟩
  case addPoint method line action =>
    obtain ⟨_, _, ⟨text, _, _, rfl, rfl⟩, rfl, rfl⟩ := built
    refine ⟨classes, methods.modify ?_ method, points.append rfl given, sites⟩
    exact fun _ => ⟨rfl, fun _ => .inl⟩
  case setArgs point args =>
    obtain ⟨_, ⟨_, rfl⟩, rfl, rfl⟩ := built
    refine ⟨classes, methods, points.modify ?_ point, sites⟩
    exact uses_editedPoint fun _ => rfl
  case setAssigned point var =>
    obtain ⟨_, ⟨_, rfl⟩, rfl, rfl⟩ := built
    refine ⟨classes, methods, points.modify ?_ point, sites⟩
    exact uses_editedPoint fun _ => rfl
  case addSite point cls =>
    obtain ⟨rfl, rfl⟩ := built
    exact ⟨classes, methods, points, sites.append rfl given⟩
  -- The other steps store no item.
  all_goals
    obtain ⟨rfl, rfl⟩ := built
    exact ⟨classes, methods, points, sites⟩

/-! ## Taking a step -/

theorem exists_className {cls : ClassId} (known : listing.hasClass cls = true) :
    ∃ name, listing.className cls = .ok name := by
  have inRange : cls < listing.classes.length := by simpa [hasClass] using known
  exact ⟨_, by rw [className, List.getElem?_eq_getElem inRange]⟩

theorem exists_describe (placed : listing.PlacedIn listing) {action : Action}
    (known : ∀ id ∈ action.uses, listing.has id = true) :
    ∃ text, listing.describe action = .ok text := by
  cases action with
  | plain => exact ⟨_, rfl⟩
  | nop => exact ⟨_, rfl⟩
  | catchEntry => exact ⟨_, rfl⟩
  | new var cls =>
      obtain ⟨name, named⟩ := exists_className (known (.cls cls) (by simp [Action.uses]))
      exact ⟨_, bind_eq_ok_iff.mpr ⟨name, named, rfl⟩⟩
  | call site =>
      have inRange : site.target < listing.methods.length := by
        simpa [has, hasMethod] using known (.method site.target) (by simp [Action.uses])
      have target := List.getElem?_eq_getElem inRange
      -- The target was made for a class that is there.
      have declared : listing.hasClass listing.methods[site.target].cls = true :=
        (placed.methods _ _ target).2 (.cls _) (by simp)
      obtain ⟨name, named⟩ := exists_className declared
      simp only [describe, target, bind, Except.bind, named]
      cases site.receiver with
      | none => exact ⟨_, rfl⟩
      | some receiver => exact ⟨_, rfl⟩

theorem exists_build {step : BuildStep} (placed : listing.PlacedIn listing)
    (known : ∀ id ∈ step.uses, listing.has id = true) :
    ∃ grown made, listing.build step = .ok (grown, made) := by
  cases step <;>
    simp only [Listing.build, bind_eq_ok_iff, editClass_eq_ok_iff, editMethod_eq_ok_iff,
      editCall_eq_ok_iff, pure, Except.pure, Except.ok.injEq, Prod.mk.injEq, Prod.exists, newPoint_eq_ok_iff]
  case setSuper sub sup => exact ⟨_, _, _, ⟨known (.cls sub) (by simp), rfl⟩, rfl, rfl⟩
  case addInterface cls iface => exact ⟨_, _, _, ⟨known (.cls cls) (by simp), rfl⟩, rfl, rfl⟩
  case setSignature method signature =>
    exact ⟨_, _, _, ⟨known (.method method) (by simp), rfl⟩, rfl, rfl⟩
  case addPoint method line action =>
    obtain ⟨text, described⟩ :=
      exists_describe placed fun id used => known id (List.mem_cons_of_mem _ used)
    exact ⟨_, _, _, _, ⟨text, described, known (.method method) (by simp), rfl, rfl⟩, rfl, rfl⟩
  case setArgs point args => exact ⟨_, _, _, ⟨known (.point point) (by simp), rfl⟩, rfl, rfl⟩
  case setAssigned point var => exact ⟨_, _, _, ⟨known (.point point) (by simp), rfl⟩, rfl, rfl⟩
  all_goals exact ⟨_, _, rfl, rfl⟩

end Listing
end SeqSlice
