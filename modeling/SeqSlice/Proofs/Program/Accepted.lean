import SeqSlice.Program.Query

/-! What the checks of a listing give for the queries of a program: ids name what is
stored under them, bodies hold statements of their own method, and steps stay in the
method they begin in. -/

set_option autoImplicit false
namespace SeqSlice

theorem nodup_eraseDups {α : Type} [BEq α] [LawfulBEq α] (values : List α) : values.eraseDups.Nodup := by
  match values with
  | [] => exact List.nodup_nil
  | first :: rest =>
      rw [List.eraseDups_cons, List.nodup_cons]
      exact ⟨by simp, nodup_eraseDups _⟩
termination_by values.length
decreasing_by exact Nat.lt_succ_of_le (List.length_filter_le _ _)

namespace Listing

/-- What the checks ask of a listing, without their order. -/
structure Sound (listing : Listing) : Prop where
  entry : ∃ entry, listing.entry = some entry ∧ entry < listing.methods.length
  classes : ∀ cls (position : Nat), listing.classes[position]? = some cls → cls.id = position ∧
    ∀ supertype ∈ supertypes cls, supertype < listing.classes.length
  methods : ∀ method (position : Nat), listing.methods[position]? = some method → method.id = position ∧
    method.cls < listing.classes.length ∧
    ∀ point ∈ method.body, listing.ownerOf? point = some method.id
  points : ∀ point (position : Nat), listing.points[position]? = some point → point.id = position ∧
    point.method < listing.methods.length ∧
    ∀ site, point.action = .call site → site.target < listing.methods.length
  edges : ∀ edge ∈ listing.edges, edge.source < listing.points.length ∧
    edge.target < listing.points.length ∧ listing.ownerOf? edge.source = listing.ownerOf? edge.target
  calls : ∀ call ∈ listing.calls, call.site < listing.points.length ∧
    call.callee < listing.methods.length
  sites : ∀ site (position : Nat), listing.allocSites[position]? = some site → site.id = position ∧
    site.point < listing.points.length ∧ site.cls < listing.classes.length
  pointsTo : ∀ row ∈ listing.pointsTo, ∀ site ∈ row.sites, site < listing.allocSites.length

variable {listing : Listing}

theorem entryDefects_eq_nil_iff : listing.entryDefects = [] ↔
    ∃ entry, listing.entry = some entry ∧ entry < listing.methods.length := by
  unfold entryDefects
  cases listing.entry <;> simp [hasMethod]

theorem classDefects_eq_nil_iff {cls : Class} {position : Nat} :
    listing.classDefects cls position = [] ↔ cls.id = position ∧
      ∀ supertype ∈ supertypes cls, supertype < listing.classes.length := by
  unfold classDefects
  by_cases placed : cls.id = position <;> simp [placed, hasClass]

theorem methodDefects_eq_nil_iff {method : Method} {position : Nat} :
    listing.methodDefects method position = [] ↔ method.id = position ∧
      method.cls < listing.classes.length ∧
      ∀ point ∈ method.body, listing.ownerOf? point = some method.id := by
  unfold methodDefects
  by_cases placed : method.id = position <;>
    by_cases declared : method.cls < listing.classes.length <;> simp [placed, declared, hasClass]

theorem pointDefects_eq_nil_iff {point : Point} {position : Nat} :
    listing.pointDefects point position = [] ↔ point.id = position ∧
      point.method < listing.methods.length ∧
      ∀ site, point.action = .call site → site.target < listing.methods.length := by
  unfold pointDefects
  by_cases placed : point.id = position <;>
    by_cases owned : point.method < listing.methods.length <;>
    cases point.action <;> simp [placed, owned, hasMethod]

theorem edgeDefects_eq_nil_iff {edge : FlowEdge} :
    listing.edgeDefects edge = [] ↔ edge.source < listing.points.length ∧
      edge.target < listing.points.length ∧
      listing.ownerOf? edge.source = listing.ownerOf? edge.target := by
  unfold edgeDefects
  by_cases source : edge.source < listing.points.length <;>
    by_cases target : edge.target < listing.points.length <;> simp [source, target, hasPoint]

theorem callDefects_eq_nil_iff {call : CallEdge} :
    listing.callDefects call = [] ↔ call.site < listing.points.length ∧
      call.callee < listing.methods.length := by
  simp [callDefects, hasPoint, hasMethod]

theorem siteDefects_eq_nil_iff {site : AllocSite} {position : Nat} :
    listing.siteDefects site position = [] ↔ site.id = position ∧
      site.point < listing.points.length ∧ site.cls < listing.classes.length := by
  simp [siteDefects, hasPoint, hasClass]

theorem pointsToDefects_eq_nil_iff {row : PointsTo} :
    listing.pointsToDefects row = [] ↔ ∀ site ∈ row.sites, site < listing.allocSites.length := by
  simp [pointsToDefects, hasSite]

theorem defects_eq_nil_iff : listing.defects = [] ↔ listing.Sound := by
  simp only [defects, List.append_eq_nil_iff, List.flatMap_eq_nil_iff, Prod.forall,
    List.mem_zipIdx_iff_getElem?, entryDefects_eq_nil_iff, classDefects_eq_nil_iff,
    methodDefects_eq_nil_iff, pointDefects_eq_nil_iff, edgeDefects_eq_nil_iff,
    callDefects_eq_nil_iff, siteDefects_eq_nil_iff, pointsToDefects_eq_nil_iff]
  constructor
  · rintro ⟨⟨⟨⟨⟨⟨⟨entry, classes⟩, methods⟩, points⟩, edges⟩, calls⟩, sites⟩, pointsTo⟩
    exact ⟨entry, classes, methods, points, edges, calls, sites, pointsTo⟩
  · rintro ⟨entry, classes, methods, points, edges, calls, sites, pointsTo⟩
    exact ⟨⟨⟨⟨⟨⟨⟨entry, classes⟩, methods⟩, points⟩, edges⟩, calls⟩, sites⟩, pointsTo⟩

end Listing
namespace Program

variable (program : Program)

theorem sound : program.listing.Sound := Listing.defects_eq_nil_iff.mp program.clean

variable {program}

theorem mem_pointIds {point : PointId} :
    point ∈ program.pointIds ↔ point < program.points.length := List.mem_range

theorem methodOf?_eq_ownerOf? (point : PointId) :
    program.methodOf? point = program.listing.ownerOf? point := rfl

theorem mem_methodIds {method : MethodId} :
    method ∈ program.methodIds ↔ method < program.methods.length := List.mem_range

theorem mem_classIds {cls : ClassId} :
    cls ∈ program.classIds ↔ cls < program.classes.length := List.mem_range

theorem mem_pointIds_of_point? {point : PointId} {found : Point}
    (listed : program.point? point = some found) : point ∈ program.pointIds :=
  mem_pointIds.mpr (List.getElem?_eq_some_iff.mp listed).1

theorem mem_methodIds_of_method? {method : MethodId} {found : Method}
    (listed : program.method? method = some found) : method ∈ program.methodIds :=
  mem_methodIds.mpr (List.getElem?_eq_some_iff.mp listed).1

theorem mem_pointIds_of_methodOf? {point : PointId} {method : MethodId}
    (found : program.methodOf? point = some method) : point ∈ program.pointIds := by
  obtain ⟨statement, present, _⟩ := Option.map_eq_some_iff.mp found
  exact mem_pointIds_of_point? present

theorem mem_methodIds_of_methodOf? {point : PointId} {method : MethodId}
    (found : program.methodOf? point = some method) : method ∈ program.methodIds := by
  obtain ⟨statement, present, rfl⟩ := Option.map_eq_some_iff.mp found
  exact mem_methodIds.mpr (program.sound.points statement point present).2.1

theorem id_of_method? {method : MethodId} {found : Method}
    (listed : program.method? method = some found) : found.id = method :=
  (program.sound.methods found method listed).1

theorem method?_id {method : Method} (listed : method ∈ program.methods) :
    program.method? method.id = some method := by
  obtain ⟨position, inRange, here⟩ := List.getElem_of_mem listed
  have found : program.method? position = some method := by
    rw [method?, List.getElem?_eq_some_iff]
    exact ⟨inRange, here⟩
  rwa [id_of_method? found]

theorem class?_id {cls : Class} (listed : cls ∈ program.classes) :
    program.class? cls.id = some cls := by
  obtain ⟨position, found⟩ := List.getElem?_of_mem listed
  rwa [(program.sound.classes cls position found).1]

theorem mem_body {method : MethodId} {point : PointId} :
    point ∈ program.body method ↔
      ∃ found, program.method? method = some found ∧ point ∈ found.body := by
  unfold body
  cases program.method? method <;> simp

theorem methodOf?_of_mem_body {method : MethodId} {point : PointId}
    (member : point ∈ program.body method) : program.methodOf? point = some method := by
  obtain ⟨found, listed, inBody⟩ := mem_body.mp member
  obtain ⟨placed, _, owned⟩ := program.sound.methods found method listed
  rw [methodOf?_eq_ownerOf?, owned point inBody, placed]

theorem mem_methodIds_of_mem_body {method : MethodId} {point : PointId}
    (member : point ∈ program.body method) : method ∈ program.methodIds := by
  obtain ⟨found, listed, _⟩ := mem_body.mp member
  exact mem_methodIds_of_method? listed

theorem mem_methodIds_of_hasBody {method : MethodId} (some : program.hasBody method = true) :
    method ∈ program.methodIds := by
  have nonempty : program.body method ≠ [] := by simpa [hasBody] using some
  obtain ⟨point, member⟩ := List.exists_mem_of_ne_nil _ nonempty
  exact mem_methodIds_of_mem_body member

theorem entry_mem_methodIds (program : Program) : program.entry ∈ program.methodIds := by
  obtain ⟨entry, listed, inRange⟩ := program.sound.entry
  obtain rfl := Option.some.inj (program.entry_listed.symm.trans listed)
  exact mem_methodIds.mpr inRange

theorem methodNamed?_eq_some {cls : ClassId} {name : String} {method : MethodId}
    (found : program.methodNamed? cls name = some method) :
    method ∈ program.methodIds ∧ program.methodName method = name := by
  obtain ⟨known, first, rfl⟩ := Option.map_eq_some_iff.mp found
  have listed := method?_id (List.mem_of_find?_eq_some first)
  refine ⟨mem_methodIds_of_method? listed, ?_⟩
  have named := List.find?_some first
  simp only [Bool.and_eq_true, beq_iff_eq] at named
  simp [methodName, listed, named.2]

theorem mem_methodsWithBodies {method : MethodId} {point : PointId}
    (member : point ∈ program.body method) : method ∈ program.methodsWithBodies := by
  obtain ⟨found, listed, inBody⟩ := mem_body.mp member
  refine List.mem_map.mpr ⟨found, List.mem_filter.mpr ⟨List.mem_of_getElem? listed, ?_⟩,
    id_of_method? listed⟩
  simpa [Method.hasBody] using List.ne_nil_of_mem inBody

theorem edge_listed {edge : FlowEdge} (listed : edge ∈ program.listing.edges) :
    edge.source ∈ program.pointIds ∧ edge.target ∈ program.pointIds ∧
      program.methodOf? edge.target = program.methodOf? edge.source := by
  obtain ⟨source, target, owners⟩ := program.sound.edges edge listed
  exact ⟨mem_pointIds.mpr source, mem_pointIds.mpr target, owners.symm⟩

theorem call_listed {call : CallEdge} (listed : call ∈ program.listing.calls) :
    call.site ∈ program.pointIds ∧ call.callee ∈ program.methodIds :=
  (program.sound.calls call listed).imp mem_pointIds.mpr mem_methodIds.mpr

theorem allocSite?_listed {id : SiteId} {site : AllocSite}
    (listed : program.allocSite? id = some site) : site.point ∈ program.pointIds :=
  mem_pointIds.mpr (program.sound.sites site id listed).2.1

theorem mem_pointIds_of_isCall {point : PointId} (isCall : program.isCall point = true) :
    point ∈ program.pointIds := by
  obtain ⟨site, found⟩ := Option.isSome_iff_exists.mp isCall
  obtain ⟨statement, present, _⟩ := Option.bind_eq_some_iff.mp found
  exact mem_pointIds_of_point? present

theorem mem_succs {source target : PointId} :
    target ∈ program.succs source ↔
      ∃ edge ∈ program.listing.edges, edge.source = source ∧ edge.target = target := by
  simp [succs, Listing.succs, and_assoc]

theorem mem_preds {source target : PointId} :
    source ∈ program.preds target ↔
      ∃ edge ∈ program.listing.edges, edge.source = source ∧ edge.target = target := by
  simp only [preds, Listing.preds, List.mem_eraseDups, List.mem_map, List.mem_filter, beq_iff_eq]
  exact exists_congr fun edge => by rw [and_assoc, and_comm (a := edge.target = target)]

theorem nodup_succs (point : PointId) : (program.succs point).Nodup := nodup_eraseDups _

theorem nodup_preds (point : PointId) : (program.preds point).Nodup := nodup_eraseDups _

theorem mem_normalSuccs {source target : PointId} :
    target ∈ program.normalSuccs source ↔
      ∃ edge ∈ program.normalEdges, edge.source = source ∧ edge.target = target := by
  simp [normalSuccs, and_assoc]

theorem normalSuccs_subset {source target : PointId} (member : target ∈ program.normalSuccs source) :
    target ∈ program.succs source := by
  obtain ⟨edge, listed, ends⟩ := mem_normalSuccs.mp member
  exact mem_succs.mpr ⟨edge, (List.mem_filter.mp listed).1, ends⟩

theorem mem_succs_iff_mem_preds {source target : PointId} :
    target ∈ program.succs source ↔ source ∈ program.preds target :=
  mem_succs.trans mem_preds.symm

theorem mem_callees {point : PointId} {method : MethodId} :
    method ∈ program.callees point ↔ ⟨point, method⟩ ∈ program.listing.calls := by
  simp only [callees, List.mem_eraseDups, List.mem_map, List.mem_filter, beq_iff_eq]
  constructor
  · rintro ⟨edge, ⟨listed, rfl⟩, rfl⟩
    exact listed
  · exact fun listed => ⟨_, ⟨listed, rfl⟩, rfl⟩

theorem mem_callers {point : PointId} {method : MethodId} :
    point ∈ program.callers method ↔ ⟨point, method⟩ ∈ program.listing.calls := by
  simp only [callers, List.mem_eraseDups, List.mem_map, List.mem_filter, beq_iff_eq]
  constructor
  · rintro ⟨edge, ⟨listed, rfl⟩, rfl⟩
    exact listed
  · exact fun listed => ⟨_, ⟨listed, rfl⟩, rfl⟩

theorem mem_callees_iff_mem_callers {point : PointId} {method : MethodId} :
    method ∈ program.callees point ↔ point ∈ program.callers method :=
  mem_callees.trans mem_callers.symm

theorem succs_listed {source target : PointId} (member : target ∈ program.succs source) :
    source ∈ program.pointIds ∧ target ∈ program.pointIds ∧
      program.methodOf? target = program.methodOf? source := by
  obtain ⟨edge, listed, rfl, rfl⟩ := mem_succs.mp member
  exact edge_listed listed

theorem mem_body_of_mem_starts {method : MethodId} {point : PointId}
    (member : point ∈ program.starts method) : point ∈ program.body method := by
  unfold starts at member
  split at member
  · exact List.mem_of_mem_take member
  · exact (List.mem_filter.mp member).1

theorem mem_body_of_mem_ends {method : MethodId} {point : PointId}
    (member : point ∈ program.ends method) : point ∈ program.body method :=
  (List.mem_filter.mp member).1

end Program
end SeqSlice
