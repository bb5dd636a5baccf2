import SeqSlice.Proofs.Descriptor.Place

/-! What is read from a text of criteria, and when. A line is read if its descriptors are
well-formed and name known classes, as far as they are looked up: behind a call that is
not found nothing is. The lines with calls that are all found make the criteria, each call
being the first that fits its descriptor. -/

set_option autoImplicit false
namespace SeqSlice

/-! ## Descriptors of a line -/

def descriptorTexts (line : List Char) : List (List Char) :=
  ((line.splitOn ';').map Text.trim).filter fun field => !field.isEmpty

/-- The line is well-formed and describes these calls. -/
def Spells (line : List Char) (calls : List CallDescriptor) : Prop :=
  List.Forall₂ (fun text call => CallDescriptor.parse text = .ok call) (descriptorTexts line) calls

namespace Program

variable {program : Program} {descriptor : CallDescriptor} {line : Nat} {text : List Char}

theorem lineDescriptors_eq_ok_iff {calls : List CallDescriptor} :
    lineDescriptors text = .ok calls ↔ Spells text calls :=
  mapM_eq_ok_iff

/-! ## One call -/

def Fits (program : Program) (descriptor : CallDescriptor) (point : PointId) : Prop :=
  ∃ found site, program.point? point = some found ∧ found.action.callSite? = some site ∧
    (∀ line, descriptor.line = some line → line = found.line) ∧
    program.fullName? site.target = some descriptor.callee

theorem isDescribed_iff_fits {point : PointId} :
    program.isDescribed descriptor point = true ↔ program.Fits descriptor point := by
  rw [isDescribed_iff]
  simp only [Fits, CallDescriptor.matchesLine, Option.all_eq_true, beq_iff_eq]

def IsCaller (descriptor : CallDescriptor) (cls : ClassId) (method : Method) : Prop :=
  method.cls = cls ∧ method.name = descriptor.caller.name ∧ method.isAbstract = false

/-- The first call that fits: the methods of the caller's class are gone through in their
order, and each body from its beginning. -/
def FirstCall (program : Program) (descriptor : CallDescriptor) (point : PointId) : Prop :=
  ∃ cls, program.classNamed? descriptor.caller.cls = some cls ∧
    ∃ earlier method later before after,
      program.methods = earlier ++ method :: later ∧ method.body = before ++ point :: after ∧
      IsCaller descriptor cls method ∧ program.Fits descriptor point ∧
      (∀ other ∈ before, ¬ program.Fits descriptor other) ∧
      ∀ other ∈ earlier, IsCaller descriptor cls other →
        ∀ point ∈ other.body, ¬ program.Fits descriptor point

def Knows (program : Program) (descriptor : CallDescriptor) : Prop :=
  ∃ cls ∈ program.classes, cls.name = descriptor.caller.cls

theorem knows_iff :
    program.Knows descriptor ↔ ∃ cls, program.classNamed? descriptor.caller.cls = some cls := by
  rw [← Option.isSome_iff_exists, classNamed?, Option.isSome_map, List.find?_isSome]
  simp [Knows]

theorem FirstCall.knows {point : PointId} (first : program.FirstCall descriptor point) :
    program.Knows descriptor := by
  obtain ⟨cls, known, -⟩ := first
  exact knows_iff.mpr ⟨cls, known⟩

theorem find?_flatMap_filter {α β : Type} {values : List α} {keep : α → Bool} {items : α → List β}
    {fits : β → Bool} {found : β} :
    ((values.filter keep).flatMap items).find? fits = some found ↔
      ∃ earlier value later, values = earlier ++ value :: later ∧ keep value = true ∧
        (items value).find? fits = some found ∧
        ∀ other ∈ earlier, keep other = true → ∀ item ∈ items other, fits item = false := by
  have skipping : (values.filter keep).findSome? (fun value => (items value).find? fits) =
      values.findSome? fun value => if keep value = true then (items value).find? fits else none := by
    induction values with
    | nil => rfl
    | cons value rest ih =>
        by_cases kept : keep value = true
        · simp [kept, List.findSome?_cons, ih]
        · simp [kept, ih]
  rw [List.find?_flatMap, skipping, List.findSome?_eq_some_iff]
  simp [and_assoc]

theorem firstCall_iff {cls : ClassId} (known : program.classNamed? descriptor.caller.cls = some cls)
    {point : PointId} :
    (program.callerBodies cls descriptor.caller.name).find? (program.isDescribed descriptor) =
        some point ↔ program.FirstCall descriptor point := by
  have callers (method : Method) : (method.cls == cls && method.name == descriptor.caller.name &&
      !method.isAbstract) = true ↔ IsCaller descriptor cls method := by
    simp [IsCaller, and_assoc]
  have misses (other : PointId) : program.isDescribed descriptor other = false ↔
      ¬ program.Fits descriptor other := by
    rw [← isDescribed_iff_fits, Bool.not_eq_true]
  rw [callerBodies, find?_flatMap_filter]
  simp only [callers, misses, FirstCall, known, Option.some.injEq, exists_eq_left',
    List.find?_eq_some_iff_append, isDescribed_iff_fits, Bool.not_eq_true']
  constructor
  · rintro ⟨earlier, method, later, listed, isCaller, ⟨fits, before, after, body, first⟩, none⟩
    exact ⟨earlier, method, later, before, after, listed, body, isCaller, fits, first, none⟩
  · rintro ⟨earlier, method, later, before, after, listed, body, isCaller, fits, first, none⟩
    exact ⟨earlier, method, later, listed, isCaller, ⟨fits, before, after, body, first⟩, none⟩

theorem findCall_eq_first_iff (line : Nat) {point : PointId} :
    program.findCall descriptor line = .ok (some point) ↔ program.FirstCall descriptor point := by
  rw [findCall_eq_some_iff]
  constructor
  · rintro ⟨cls, known, found⟩
    exact (firstCall_iff known).mp found
  · intro first
    obtain ⟨cls, known⟩ := knows_iff.mp first.knows
    exact ⟨cls, known, (firstCall_iff known).mpr first⟩

theorem exists_findCall_iff (line : Nat) :
    (∃ result, program.findCall descriptor line = .ok result) ↔ program.Knows descriptor := by
  unfold findCall
  cases known : program.classNamed? descriptor.caller.cls <;> simp [knows_iff, known]

/-! ## The calls of a line -/

/-- Each class is known that comes to be looked up: the one of a call before which all
others are found. -/
def Searchable (program : Program) (calls : List CallDescriptor) : Prop :=
  ∀ before call after, calls = before ++ call :: after →
    (∀ earlier ∈ before, ∃ point, program.FirstCall earlier point) → program.Knows call

theorem searchable_cons {rest : List CallDescriptor} :
    program.Searchable (descriptor :: rest) ↔
      program.Knows descriptor ∧
        ((∃ point, program.FirstCall descriptor point) → program.Searchable rest) := by
  constructor
  · intro searchable
    refine ⟨searchable [] descriptor rest rfl (by simp), fun found before call after split all => ?_⟩
    refine searchable (descriptor :: before) call after (by rw [split, List.cons_append]) ?_
    exact List.forall_mem_cons.mpr ⟨found, all⟩
  · rintro ⟨knows, further⟩ before call after split all
    rcases List.cons_eq_append_iff.mp split with ⟨-, same⟩ | ⟨others, rfl, remaining⟩
    · cases same
      exact knows
    · obtain ⟨found, allOthers⟩ := List.forall_mem_cons.mp all
      exact further found others call after remaining allOthers

theorem findCalls_eq_some_iff {calls : List CallDescriptor} {points : List PointId} :
    program.findCalls line calls = .ok (some points) ↔
      List.Forall₂ program.FirstCall calls points := by
  induction calls generalizing points with
  | nil => simp [findCalls, eq_comm]
  | cons descriptor rest ih =>
      simp only [findCalls, bind_eq_ok_iff, List.forall₂_cons_left_iff, ← ih,
        ← findCall_eq_first_iff line]
      constructor
      · rintro ⟨found, searched, further⟩
        cases found with
        | none => cases further
        | some point =>
            obtain ⟨others, later, further⟩ := bind_eq_ok_iff.mp further
            obtain ⟨tail, rfl, rfl⟩ := Option.map_eq_some_iff.mp (Except.ok.inj further)
            exact ⟨point, tail, searched, later, rfl⟩
      · rintro ⟨point, tail, searched, later, rfl⟩
        exact ⟨some point, searched, bind_eq_ok_iff.mpr ⟨some tail, later, rfl⟩⟩

theorem exists_findCalls_iff {calls : List CallDescriptor} :
    (∃ result, program.findCalls line calls = .ok result) ↔ program.Searchable calls := by
  induction calls with
  | nil => simp [findCalls, Searchable]
  | cons descriptor rest ih =>
      rw [searchable_cons, ← ih, ← exists_findCall_iff line]
      simp only [findCalls, bind_eq_ok_iff, ← findCall_eq_first_iff line]
      constructor
      · rintro ⟨result, found, searched, further⟩
        refine ⟨⟨found, searched⟩, fun ⟨point, present⟩ => ?_⟩
        rw [searched] at present
        cases present
        obtain ⟨others, later, -⟩ := bind_eq_ok_iff.mp further
        exact ⟨others, later⟩
      · rintro ⟨⟨found, searched⟩, further⟩
        cases found with
        | none => exact ⟨none, none, searched, rfl⟩
        | some point =>
            obtain ⟨others, later⟩ := further ⟨point, searched⟩
            exact ⟨_, some point, searched, bind_eq_ok_iff.mpr ⟨others, later, rfl⟩⟩

/-! ## Lines -/

def Readable (program : Program) (text : List Char) : Prop :=
  ∃ calls, Spells text calls ∧ program.Searchable calls

/-- The criterion of a line, if it has one: it describes some calls, and all are found. -/
structure IsRead (program : Program) (line : Nat) (text : List Char)
    (criterion : SequenceCriterion) : Prop where
  line : criterion.line = line
  spelled : Spells text criterion.calls
  describes : criterion.calls ≠ []
  found : List.Forall₂ program.FirstCall criterion.calls criterion.points

theorem readLine_eq_some_iff {criterion : SequenceCriterion} :
    program.readLine line text = .ok (some criterion) ↔ program.IsRead line text criterion := by
  simp only [readLine, bind_eq_ok_iff, lineDescriptors_eq_ok_iff]
  constructor
  · rintro ⟨calls, spelled, read⟩
    split at read
    · cases read
    · next some =>
        obtain ⟨found, searched, read⟩ := bind_eq_ok_iff.mp read
        obtain ⟨points, rfl, rfl⟩ := Option.map_eq_some_iff.mp (Except.ok.inj read)
        exact ⟨rfl, spelled, by simpa using some, findCalls_eq_some_iff.mp searched⟩
  · rintro ⟨rfl, spelled, some, found⟩
    refine ⟨criterion.calls, spelled, ?_⟩
    rw [if_neg (by simpa using some)]
    exact bind_eq_ok_iff.mpr ⟨_, findCalls_eq_some_iff.mpr found, rfl⟩

theorem exists_readLine_iff (line : Nat) :
    (∃ result, program.readLine line text = .ok result) ↔ program.Readable text := by
  simp only [readLine, bind_eq_ok_iff, lineDescriptors_eq_ok_iff]
  constructor
  · rintro ⟨result, calls, spelled, read⟩
    refine ⟨calls, spelled, ?_⟩
    split at read
    · next none =>
        rw [List.isEmpty_iff.mp none]
        simp [Searchable]
    · obtain ⟨found, searched, -⟩ := bind_eq_ok_iff.mp read
      exact exists_findCalls_iff.mp ⟨found, searched⟩
  · rintro ⟨calls, spelled, searchable⟩
    obtain ⟨found, searched⟩ := exists_findCalls_iff.mpr searchable
    by_cases none : calls.isEmpty = true
    · exact ⟨_, calls, spelled, if_pos none⟩
    · refine ⟨found.map fun points => ⟨line, calls, points⟩, calls, spelled, ?_⟩
      rw [if_neg none]
      exact bind_eq_ok_iff.mpr ⟨found, searched, rfl⟩

theorem exists_readLines_iff (line : Nat) {lines : List (List Char)} :
    (∃ criteria, program.readLines line lines = .ok criteria) ↔
      ∀ text ∈ lines, program.Readable text := by
  induction lines generalizing line with
  | nil => simp [readLines]
  | cons text rest ih =>
      rw [List.forall_mem_cons, ← ih (line + 1), ← exists_readLine_iff line]
      simp only [readLines, bind_eq_ok_iff]
      constructor
      · rintro ⟨criteria, found, here, others, later, -⟩
        exact ⟨⟨found, here⟩, others, later⟩
      · rintro ⟨⟨found, here⟩, others, later⟩
        exact ⟨_, found, here, others, later, rfl⟩

structure Listed (program : Program) (start : Nat) (lines : List (List Char))
    (criteria : List SequenceCriterion) : Prop where
  ascending : criteria.Pairwise fun first second => first.line < second.line
  mem_iff : ∀ criterion, criterion ∈ criteria ↔
    ∃ index text, lines[index]? = some text ∧ program.IsRead (start + index) text criterion

theorem listed_of_readLines {lines : List (List Char)} {criteria : List SequenceCriterion}
    (read : program.readLines line lines = .ok criteria) : program.Listed line lines criteria := by
  induction lines generalizing line criteria with
  | nil =>
      cases read
      exact ⟨.nil, by simp⟩
  | cons text rest ih =>
      obtain ⟨found, here, read⟩ := bind_eq_ok_iff.mp read
      obtain ⟨others, later, read⟩ := bind_eq_ok_iff.mp read
      cases read
      obtain ⟨ascending, mem_iff⟩ := ih later
      have first (criterion : SequenceCriterion) :
          criterion ∈ found.toList ↔ program.IsRead line text criterion := by
        rw [Option.mem_toList, ← readLine_eq_some_iff, here, Except.ok.injEq]
      constructor
      · rw [List.pairwise_append]
        -- The criteria of the other lines have greater numbers.
        refine ⟨by cases found <;> simp, ascending, fun criterion member other memberToo => ?_⟩
        obtain ⟨index, _, -, readToo⟩ := (mem_iff other).mp memberToo
        rw [((first criterion).mp member).line, readToo.line]
        omega
      · intro criterion
        rw [List.mem_append, first, mem_iff]
        constructor
        · rintro (isFirst | ⟨index, other, listed, isRead⟩)
          · exact ⟨0, text, rfl, isFirst⟩
          · refine ⟨index + 1, other, listed, ?_⟩
            rwa [Nat.add_right_comm, Nat.add_assoc] at isRead
        · rintro ⟨index, other, listed, isRead⟩
          cases index with
          | zero =>
              cases listed
              exact .inl isRead
          | succ index =>
              refine .inr ⟨index, other, listed, ?_⟩
              rwa [Nat.add_right_comm, Nat.add_assoc]

theorem Listed.unique {lines : List (List Char)} {criteria others : List SequenceCriterion}
    (listed : program.Listed line lines criteria) (again : program.Listed line lines others) :
    criteria = others := by
  have distinct {list : List SequenceCriterion}
      (ascending : list.Pairwise fun first second => first.line < second.line) : list.Nodup :=
    ascending.imp fun before => ne_of_apply_ne SequenceCriterion.line (Nat.ne_of_lt before)
  have perm : criteria.Perm others :=
    (List.perm_ext_iff_of_nodup (distinct listed.ascending) (distinct again.ascending)).mpr
      fun criterion => (listed.mem_iff criterion).trans (again.mem_iff criterion).symm
  exact perm.eq_of_pairwise (fun first second _ _ before after => absurd after (Nat.lt_asymm before))
    listed.ascending again.ascending

/-- A text is read just when all its lines can be, and then the criteria are those of the
lines with calls that are all found, by the number of the line. -/
theorem readCriteria_exact (program : Program) (text : String) :
    ((∃ criteria, program.readCriteria text = .ok criteria) ↔
      ∀ line ∈ text.toList.splitOn '\n', program.Readable line) ∧
    ∀ criteria, program.readCriteria text = .ok criteria ↔
      (∀ line ∈ text.toList.splitOn '\n', program.Readable line) ∧
        program.Listed 1 (text.toList.splitOn '\n') criteria := by
  refine ⟨exists_readLines_iff 1, fun criteria => ?_⟩
  constructor
  · intro read
    exact ⟨(exists_readLines_iff 1).mp ⟨criteria, read⟩, listed_of_readLines read⟩
  · rintro ⟨readable, listed⟩
    obtain ⟨others, read⟩ := (exists_readLines_iff 1).mpr readable
    rw [readCriteria, read, listed.unique (listed_of_readLines read)]

end Program
/-- One method that makes two calls of a library, on lines 3 and 4. -/
def librarianListing : Listing where
  entry := some 0
  classes := [⟨0, "app.Main", none, [], false, false⟩, ⟨1, "lib.Api", none, [], false, true⟩]
  methods := [⟨0, 0, "main", "", true, false, [0, 1]⟩, ⟨1, 1, "open", "", true, false, []⟩,
    ⟨2, 1, "close", "", true, false, []⟩]
  points := [⟨0, 0, 3, .call ⟨1, .static, none, [], none⟩, ""⟩,
    ⟨1, 0, 4, .call ⟨2, .static, none, [], none⟩, ""⟩]
  edges := [⟨0, 1, false⟩]
  calls := [⟨0, 1⟩, ⟨1, 2⟩]
  allocSites := []
  pointsTo := []

def librarianProgram : Program := ⟨librarianListing, 0, rfl, by decide⟩

/-- The first call is not found, and the program does not have the class of the second. -/
def strayCriteria : String := "app.Main.main/lib.Api.close/99;app.Missing.main/lib.Api.open/3"

/-- A class that the program does not have goes unnoticed behind a call that is not found.
In the other order it is an error. -/
theorem strayCriteria_read :
    librarianProgram.readCriteria strayCriteria = .ok [] ∧
      librarianProgram.readCriteria
        "app.Missing.main/lib.Api.open/3;app.Main.main/lib.Api.close/99" =
          .error (.unknownClass "app.Missing" 1) ∧
      ∃ line ∈ strayCriteria.toList.splitOn '\n', ∃ text ∈ descriptorTexts line,
        ∃ call, CallDescriptor.parse text = .ok call ∧ ¬ librarianProgram.Knows call := by
  have lines : strayCriteria.toList.splitOn '\n' = [strayCriteria.toList] := by rfl
  have texts : descriptorTexts strayCriteria.toList =
      ["app.Main.main/lib.Api.close/99".toList, "app.Missing.main/lib.Api.open/3".toList] := by rfl
  have parsed : CallDescriptor.parse "app.Missing.main/lib.Api.open/3".toList =
      .ok ⟨⟨"app.Missing", "main"⟩, ⟨"lib.Api", "open"⟩, some 3⟩ := by rfl
  refine ⟨by rfl, by rfl, strayCriteria.toList, by simp [lines], _, ?_, _, parsed, ?_⟩
  · rw [texts]
    exact List.mem_cons_of_mem _ List.mem_cons_self
  · simp [Program.Knows, Program.classes, librarianProgram, librarianListing]

end SeqSlice
