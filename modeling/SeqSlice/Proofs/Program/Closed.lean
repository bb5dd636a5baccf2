import SeqSlice.Proofs.Program.Superclass

/-! Programs are closed and mirrored: whatever is asked for an id in range is answered,
with ids in range, and steps and calls are the same ones from both of their ends. -/

set_option autoImplicit false
namespace SeqSlice

namespace Program

variable {program : Program}

def siteIds (program : Program) : List SiteId := List.range program.listing.allocSites.length

/-! ## What is held -/

/-- Each id in range names what is stored under it, and the ids held there are in range.
The class of a creation and the method of a points-to row need not be: nothing looks them
up. -/
structure Held (program : Program) : Prop where
  entry : program.entry ∈ program.methodIds
  classes : ∀ id ∈ program.classIds, ∃ cls, program.knownClass id = .ok cls ∧ cls.id = id ∧
    (∀ supertype, cls.superClass = some supertype → supertype ∈ program.classIds) ∧
    ∀ iface ∈ cls.interfaces, iface ∈ program.classIds
  methods : ∀ id ∈ program.methodIds, ∃ method, program.knownMethod id = .ok method ∧
    method.id = id ∧ method.cls ∈ program.classIds ∧ ∀ point ∈ method.body, point ∈ program.pointIds
  points : ∀ id ∈ program.pointIds, ∃ point, program.knownPoint id = .ok point ∧
    point.id = id ∧ point.method ∈ program.methodIds ∧
    ∀ site, point.action = .call site → site.target ∈ program.methodIds
  sites : ∀ id ∈ program.siteIds, ∃ site, program.knownSite id = .ok site ∧
    site.id = id ∧ site.point ∈ program.pointIds ∧ site.cls ∈ program.classIds

theorem knownClass_eq_ok_iff {cls : ClassId} {found : Class} :
    program.knownClass cls = .ok found ↔ program.class? cls = some found := by
  unfold knownClass
  cases program.class? cls <;> simp

theorem mem_siteIds {site : SiteId} :
    site ∈ program.siteIds ↔ site < program.listing.allocSites.length := List.mem_range

theorem mem_pointIds_of_mem_body {method : MethodId} {point : PointId}
    (member : point ∈ program.body method) : point ∈ program.pointIds :=
  mem_pointIds_of_methodOf? (methodOf?_of_mem_body member)

theorem held (program : Program) : program.Held where
  entry := entry_mem_methodIds program
  classes id inRange := by
    have listed := List.getElem?_eq_getElem (mem_classIds.mp inRange)
    obtain ⟨placed, known⟩ := program.sound.classes _ id listed
    refine ⟨_, knownClass_eq_ok_iff.mpr listed, placed, fun supertype extended => ?_,
      fun iface member => ?_⟩
    · exact mem_classIds.mpr (known supertype (List.mem_append_left _ (by simp [extended])))
    · exact mem_classIds.mpr (known iface (List.mem_append_right _ member))
  methods id inRange := by
    have listed := List.getElem?_eq_getElem (mem_methodIds.mp inRange)
    obtain ⟨placed, declared, _⟩ := program.sound.methods _ id listed
    exact ⟨_, knownMethod_eq_ok_iff.mpr listed, placed, mem_classIds.mpr declared,
      fun point member => mem_pointIds_of_mem_body (mem_body.mpr ⟨_, listed, member⟩)⟩
  points id inRange := by
    have listed := List.getElem?_eq_getElem (mem_pointIds.mp inRange)
    obtain ⟨placed, owned, called⟩ := program.sound.points _ id listed
    exact ⟨_, knownPoint_eq_ok_iff.mpr listed, placed, mem_methodIds.mpr owned,
      fun site call => mem_methodIds.mpr (called site call)⟩
  sites id inRange := by
    have listed := List.getElem?_eq_getElem (mem_siteIds.mp inRange)
    obtain ⟨placed, created, known⟩ := program.sound.sites _ id listed
    exact ⟨_, knownSite_eq_ok_iff.mpr listed, placed, mem_pointIds.mpr created, mem_classIds.mpr known⟩

/-! ## Steps and calls from both ends -/

structure Mirrors (program : Program) (listing : Listing) : Prop where
  succs : ∀ source target, target ∈ program.succs source ↔
    ∃ edge ∈ listing.edges, edge.source = source ∧ edge.target = target
  preds : ∀ source target, source ∈ program.preds target ↔
    ∃ edge ∈ listing.edges, edge.source = source ∧ edge.target = target
  normalSuccs : ∀ source target, target ∈ program.normalSuccs source ↔
    ∃ edge ∈ listing.edges, edge.exceptional = false ∧ edge.source = source ∧ edge.target = target
  normalPreds : ∀ source target, source ∈ program.normalPreds target ↔
    ∃ edge ∈ listing.edges, edge.exceptional = false ∧ edge.source = source ∧ edge.target = target
  normal : ∀ source, program.normalSuccs source ⊆ program.succs source
  callees : ∀ point method, method ∈ program.callees point ↔ ⟨point, method⟩ ∈ listing.calls
  callers : ∀ point method, point ∈ program.callers method ↔ ⟨point, method⟩ ∈ listing.calls

theorem mem_normalEdges {edge : FlowEdge} :
    edge ∈ program.normalEdges ↔ edge ∈ program.listing.edges ∧ edge.exceptional = false := by
  simp [normalEdges]

theorem mem_normalPreds {source target : PointId} :
    source ∈ program.normalPreds target ↔
      ∃ edge ∈ program.normalEdges, edge.source = source ∧ edge.target = target := by
  simp only [normalPreds, List.mem_eraseDups, List.mem_map, List.mem_filter, beq_iff_eq]
  exact exists_congr fun edge => by rw [and_assoc, and_comm (a := edge.target = target)]

theorem mem_normalSuccs_iff_mem_normalPreds {source target : PointId} :
    target ∈ program.normalSuccs source ↔ source ∈ program.normalPreds target :=
  mem_normalSuccs.trans mem_normalPreds.symm

theorem mirrors (program : Program) : program.Mirrors program.listing where
  succs _ _ := mem_succs
  preds _ _ := mem_preds
  normalSuccs _ _ := by simp only [mem_normalSuccs, mem_normalEdges, and_assoc]
  normalPreds _ _ := by simp only [mem_normalPreds, mem_normalEdges, and_assoc]
  normal _ _ := normalSuccs_subset
  callees _ _ := mem_callees
  callers _ _ := mem_callers

structure Distinct (program : Program) : Prop where
  succs : ∀ point, (program.succs point).Nodup
  preds : ∀ point, (program.preds point).Nodup
  normalSuccs : ∀ point, (program.normalSuccs point).Nodup
  normalPreds : ∀ point, (program.normalPreds point).Nodup
  callees : ∀ point, (program.callees point).Nodup
  callers : ∀ method, (program.callers method).Nodup
  pointsTo : ∀ method var, (program.pointsTo method var).Nodup

theorem distinct (program : Program) : program.Distinct where
  succs := nodup_succs
  preds := nodup_preds
  normalSuccs _ := nodup_eraseDups _
  normalPreds _ := nodup_eraseDups _
  callees _ := nodup_eraseDups _
  callers _ := nodup_eraseDups _
  pointsTo _ _ := nodup_eraseDups _

/-! ## What is answered -/

structure StaysInMethods (program : Program) : Prop where
  steps : ∀ point other, other ∈ program.succs point ∨ other ∈ program.preds point →
    program.methodOf? other = program.methodOf? point
  starts : ∀ method, ∀ point ∈ program.starts method, program.methodOf? point = some method
  ends : ∀ method, ∀ point ∈ program.ends method, program.methodOf? point = some method

theorem staysInMethods (program : Program) : program.StaysInMethods where
  steps point other := by
    rintro (after | before)
    · exact (succs_listed after).2.2
    · exact (succs_listed (mem_succs_iff_mem_preds.mpr before)).2.2.symm
  starts _ _ member := methodOf?_of_mem_body (mem_body_of_mem_starts member)
  ends _ _ member := methodOf?_of_mem_body (mem_body_of_mem_ends member)

/-- The result is an answer, unless the way up from the class goes round for ever. -/
def Decides (program : Program) {α : Type} (cls : ClassId) (result : Except UnknownId α) : Prop :=
  ∀ error, result = .error error → error = .endless cls ∧ program.Circles cls

/-- Questions about ids in range are answered, and with ids in range. Those that are asked
upwards from a class are so if its superclasses have an end. -/
structure Answers (program : Program) : Prop where
  steps : ∀ point ∈ program.pointIds,
    program.succs point ⊆ program.pointIds ∧ program.preds point ⊆ program.pointIds ∧
    program.normalSuccs point ⊆ program.pointIds ∧ program.normalPreds point ⊆ program.pointIds
  bounds : ∀ method ∈ program.methodIds,
    program.starts method ⊆ program.pointIds ∧ program.ends method ⊆ program.pointIds
  callees : ∀ point ∈ program.pointIds, program.callees point ⊆ program.methodIds
  callers : ∀ method ∈ program.methodIds, program.callers method ⊆ program.pointIds
  methodOf : ∀ point ∈ program.pointIds,
    ∃ method ∈ program.methodIds, program.methodOf? point = some method
  classOfMethod : ∀ method ∈ program.methodIds,
    ∃ cls ∈ program.classes, program.classOfMethod? method = some cls
  methodsOfClass : ∀ cls ∈ program.classIds, program.methodsOfClass cls ⊆ program.methodIds
  classNamed : ∀ name cls, program.classNamed? name = some cls → cls ∈ program.classIds
  methodNamed : ∀ cls ∈ program.classIds, ∀ name method,
    program.methodNamed? cls name = some method → method ∈ program.methodIds
  pointsTo : ∀ method ∈ program.methodIds, ∀ var, program.pointsTo method var ⊆ program.siteIds
  subclass : ∀ sub ∈ program.classIds, ∀ sup ∈ program.classIds,
    program.Decides sub (program.subclass sub sup)
  implementer : ∀ cls ∈ program.classIds, ∀ iface ∈ program.classIds,
    program.Decides cls (program.implementer cls iface)
  dispatch : ∀ cls ∈ program.classIds, ∀ declared ∈ program.methodIds,
    program.Decides cls (program.dispatch cls declared) ∧
      ∀ method, program.dispatch cls declared = .ok (some method) → method ∈ program.methodIds

theorem mem_methodIds_of_mem_methods {method : Method} (listed : method ∈ program.methods) :
    method.id ∈ program.methodIds := mem_methodIds_of_method? (method?_id listed)

theorem classNamed?_eq_some {name : String} {cls : ClassId}
    (found : program.classNamed? name = some cls) : cls ∈ program.classIds := by
  obtain ⟨stored, last, rfl⟩ := Option.map_eq_some_iff.mp found
  have listed := class?_id (List.mem_reverse.mp (List.mem_of_find?_eq_some last))
  exact mem_classIds.mpr (List.getElem?_eq_some_iff.mp listed).1

theorem dispatch?_eq_ok_some {cls : ClassId} {declared : Method} {method : MethodId}
    (found : program.dispatch? cls declared = .ok (some method)) : method ∈ program.methodIds := by
  obtain ⟨upper, _, here⟩ := (climb_eq_ok_iff.mp found).found
  obtain ⟨stored, first, rfl⟩ := Option.map_eq_some_iff.mp here
  exact mem_methodIds_of_mem_methods (List.mem_of_find?_eq_some first)

theorem decides_climb {β : Type} {found? : ClassId → Option β} {cls : ClassId} :
    program.Decides cls (program.climb found? cls) := fun _ failed =>
  let ⟨same, circles, _⟩ := climb_eq_error_iff.mp failed
  ⟨same, circles⟩

theorem decides_meets {wanted : ClassId → Bool} {cls : ClassId} :
    program.Decides cls (program.meets wanted cls) := fun _ failed =>
  let ⟨same, circles, _⟩ := meets_eq_error_iff.mp failed
  ⟨same, circles⟩

theorem mem_siteIds_of_mem_pointsTo {method : MethodId} {var : String} {site : SiteId}
    (member : site ∈ program.pointsTo method var) : site ∈ program.siteIds := by
  rw [pointsTo, List.mem_eraseDups, List.mem_flatMap] at member
  obtain ⟨row, chosen, listed⟩ := member
  exact mem_siteIds.mpr (program.sound.pointsTo row (List.mem_filter.mp chosen).1 site listed)

theorem answers (program : Program) : program.Answers where
  steps point _ := by
    refine ⟨fun _ after => (succs_listed after).2.1,
      fun _ before => (succs_listed (mem_succs_iff_mem_preds.mpr before)).1,
      fun _ after => (succs_listed (normalSuccs_subset after)).2.1, fun _ before => ?_⟩
    exact (succs_listed (normalSuccs_subset (mem_normalSuccs_iff_mem_normalPreds.mpr before))).1
  bounds method _ := ⟨fun _ member => mem_pointIds_of_mem_body (mem_body_of_mem_starts member),
    fun _ member => mem_pointIds_of_mem_body (mem_body_of_mem_ends member)⟩
  callees _ _ _ member := (call_listed (mem_callees.mp member)).2
  callers _ _ _ member := (call_listed (mem_callers.mp member)).1
  methodOf point inRange := by
    obtain ⟨found, known, _, owned, _⟩ := (held program).points point inRange
    exact ⟨found.method, owned, by rw [methodOf?, knownPoint_eq_ok_iff.mp known, Option.map_some]⟩
  classOfMethod method inRange := by
    obtain ⟨found, known, _, declared, _⟩ := (held program).methods method inRange
    obtain ⟨cls, listed, _⟩ := (held program).classes found.cls declared
    have stored := knownClass_eq_ok_iff.mp listed
    refine ⟨cls, List.mem_of_getElem? stored, ?_⟩
    rw [classOfMethod?, knownMethod_eq_ok_iff.mp known, Option.bind_some, stored]
  methodsOfClass cls _ id member := by
    obtain ⟨method, chosen, rfl⟩ := List.mem_map.mp member
    exact mem_methodIds_of_mem_methods (List.mem_filter.mp chosen).1
  classNamed _ _ := classNamed?_eq_some
  methodNamed _ _ _ _ found := (methodNamed?_eq_some found).1
  pointsTo _ _ _ _ := mem_siteIds_of_mem_pointsTo
  subclass sub inRange sup _ := by
    obtain ⟨cls, known, _⟩ := (held program).classes sub inRange
    by_cases same : sub = sup
    · rw [subclass, if_pos same]
      exact fun _ failed => nomatch failed
    · rw [subclass, if_neg same, known]
      exact decides_meets
  implementer cls inRange iface _ := by
    obtain ⟨found, known, _⟩ := (held program).classes cls inRange
    rw [implementer, known]
    exact decides_meets
  dispatch cls inRange declared listed := by
    obtain ⟨found, known, _⟩ := (held program).classes cls inRange
    obtain ⟨method, stored, _⟩ := (held program).methods declared listed
    have asked : program.dispatch cls declared = program.dispatch? cls method := by
      rw [dispatch, stored, known]
      rfl
    rw [asked]
    exact ⟨decides_climb, fun _ => dispatch?_eq_ok_some⟩

theorem ofListing_listing (program : Program) : Program.ofListing program.listing = .ok program := by
  obtain ⟨listing, entry, listed, clean⟩ := program
  unfold ofListing
  split
  · next found => cases found.symm.trans clean
  · split
    · next other found =>
        obtain rfl := Option.some.inj (listed.symm.trans found)
        rfl
    · next missing => cases missing.symm.trans listed

/-- The program of a listing that passes the checks holds ids in range and answers with
ids in range, and its rows are those of the listing. -/
theorem ofListing_closed {listing : Listing} {program : Program}
    (accepted : Program.ofListing listing = .ok program) :
    program.Held ∧ program.Answers ∧ program.Mirrors listing ∧ program.Distinct ∧
      program.StaysInMethods := by
  obtain rfl := listing_of_ofListing accepted
  exact ⟨held program, answers program, mirrors program, distinct program, staysInMethods program⟩

end Program

/-- A call through an interface, caught if it fails. An edge, a call and a points-to set
are listed twice. -/
def shapesListing : Listing where
  entry := some 0
  classes := [⟨0, "Shape", none, [], true, false⟩, ⟨1, "Square", none, [0], false, false⟩,
    ⟨2, "Tile", some 1, [], false, false⟩]
  methods := [⟨0, 2, "main", "", true, false, [0, 1, 2, 3]⟩, ⟨1, 0, "area", "()", false, true, []⟩,
    ⟨2, 1, "area", "()", false, false, [4]⟩]
  points := [⟨0, 0, 1, .new "tile" 2, ""⟩,
    ⟨1, 0, 2, .call ⟨1, .interface, some "tile", [], none⟩, ""⟩, ⟨2, 0, 3, .catchEntry, ""⟩,
    ⟨3, 0, 4, .plain, ""⟩, ⟨4, 2, 9, .plain, ""⟩]
  edges := [⟨0, 1, false⟩, ⟨0, 1, false⟩, ⟨1, 3, false⟩, ⟨1, 2, true⟩, ⟨2, 3, false⟩]
  calls := [⟨1, 2⟩, ⟨1, 2⟩]
  allocSites := [⟨0, 0, 2⟩]
  pointsTo := [⟨0, "tile", [0]⟩, ⟨0, "tile", [0]⟩]

def shapesProgram : Program := ⟨shapesListing, 0, rfl, by decide⟩

theorem shapesProgram_closed : Program.ofListing shapesListing = .ok shapesProgram ∧
    shapesProgram.Held ∧ shapesProgram.Answers ∧ shapesProgram.Mirrors shapesListing ∧
    shapesProgram.Distinct ∧ shapesProgram.StaysInMethods :=
  ⟨Program.ofListing_listing shapesProgram,
    Program.ofListing_closed (Program.ofListing_listing shapesProgram)⟩

end SeqSlice
