import SeqSlice.Proofs.Descriptor.Place
import SeqSlice.Proofs.Slice.Arrangement
import SeqSlice.Slice.Report

/-! The names of the files that reports are written to. A name gives the place of the
call that ends the criteria, without the packages of the classes. It can be read back
that far and no further. -/

set_option autoImplicit false
namespace SeqSlice

def shortClass (name : String) : String :=
  match Text.cutLast '.' name.toList with
  | some (_, short) => String.ofList short
  | none => name

theorem dot_notMem_shortClass (name : String) : '.' ∉ (shortClass name).toList := by
  unfold shortClass
  split
  · next cut =>
      rw [String.toList_ofList]
      exact Text.notMem_of_cutLast cut
  · next none => exact Text.cutLast_eq_none.mp none

def MethodName.short (method : MethodName) : MethodName := ⟨shortClass method.cls, method.name⟩

namespace CallPlace

def short (place : CallPlace) : CallPlace := ⟨place.caller.short, place.callee.short, place.line⟩

/-- `Caller.method;Callee.method;line` -/
def text (place : CallPlace) : String :=
  place.caller.render ++ ";" ++ place.callee.render ++ ";" ++ toString place.line

structure Readable (place : CallPlace) : Prop where
  caller : ';' ∉ place.caller.name.toList
  callee : ';' ∉ place.callee.name.toList

theorem short_text_append_inj {first second : CallPlace} (readable : first.Readable)
    (readableToo : second.Readable) (suffix : String) :
    first.short.text ++ suffix = second.short.text ++ suffix ↔ first.short = second.short := by
  refine ⟨fun same => ?_, fun same => by rw [same]⟩
  have apart (place : CallPlace) : (place.short.text ++ suffix).toList =
      (shortClass place.caller.cls).toList ++ '.' :: (place.caller.name.toList ++ ';' ::
        ((shortClass place.callee.cls).toList ++ '.' :: (place.callee.name.toList ++ ';' ::
          ((toString place.line).toList ++ suffix.toList)))) := by
    simp [text, short, MethodName.short, MethodName.render]
  have equal := congrArg String.toList same
  rw [apart, apart] at equal
  -- A short class name ends at its dot and a method name at its semicolon, so the fields
  -- are read back from the left.
  obtain ⟨callerClass, equal⟩ :=
    (Text.append_mark_inj (dot_notMem_shortClass _) (dot_notMem_shortClass _)).mp equal
  obtain ⟨caller, equal⟩ := (Text.append_mark_inj readable.caller readableToo.caller).mp equal
  obtain ⟨calleeClass, equal⟩ :=
    (Text.append_mark_inj (dot_notMem_shortClass _) (dot_notMem_shortClass _)).mp equal
  obtain ⟨callee, equal⟩ := (Text.append_mark_inj readable.callee readableToo.callee).mp equal
  have line : first.line = second.line :=
    Int.repr_inj.mp (String.toList_inj.mp (List.append_cancel_right equal))
  simp only [short, MethodName.short, String.toList_inj.mp callerClass, String.toList_inj.mp caller,
    String.toList_inj.mp calleeClass, String.toList_inj.mp callee, line]

end CallPlace

namespace Report

variable {program : Program}

theorem shortName_of_fullName? {method : MethodId} {full : MethodName}
    (named : program.fullName? method = some full) :
    shortName program method = .ok full.short.render := by
  obtain ⟨found, cls, here, enclosing, ofClass, ofMethod⟩ := Program.fullName?_eq_some_iff.mp named
  have known : program.knownMethod method = .ok found := by rw [Program.knownMethod, here]
  have knownToo : program.knownClass found.cls = .ok cls := by rw [Program.knownClass, enclosing]
  have short : cls.shortName = shortClass full.cls := by
    rw [← ofClass]
    rfl
  simp only [shortName, known, knownToo, bind, Except.bind, pure, Except.pure, short, ofMethod]
  rfl

def fileSuffix (program : Program) (extend : Bool) : Except UnknownId String := do
  let entry ← program.knownMethod program.entry
  let main ← program.knownClass entry.cls
  let mark := if extend then "-ext" else ""
  return s!"{mark}-all-{main.name}.output"

theorem fileName_of_place? {tail : PointId} {place : CallPlace} {extend : Bool}
    (stands : program.place? tail = some place) :
    fileName program tail extend =
      (fileSuffix program extend).map fun suffix => place.short.text ++ suffix := by
  obtain ⟨found, site, here, isCall, caller, callee, line⟩ := Program.place?_eq_some_iff.mp stands
  have known : program.knownPoint tail = .ok found := by rw [Program.knownPoint, here]
  have action : found.action = .call site := by
    cases kind : found.action <;> simp_all [Action.callSite?]
  simp only [fileName, fileSuffix, known, action, shortName_of_fullName? caller,
    shortName_of_fullName? callee, line, bind, Except.bind]
  cases program.knownMethod program.entry with
  | error _ => rfl
  | ok entry =>
      cases enclosing : program.knownClass entry.cls with
      | error _ => simp [enclosing, Except.map]
      | ok main =>
          simp only [enclosing, Except.map, pure, Except.pure, CallPlace.text, CallPlace.short,
            String.append_assoc]
          rfl

variable {config : Config} {text : String} {reports : List Report}

theorem of_mem_ofCriteria (written : ofCriteria program config text = .ok reports) :
    (reports.map (·.slice.tail)).Nodup ∧
      ∀ report ∈ reports, program.Described report.slice.tail ∧
        fileName program report.slice.tail config.extendCriteria = .ok report.name := by
  obtain ⟨criteria, read, written⟩ := bind_eq_ok_iff.mp written
  obtain ⟨slices, sliced, written⟩ := bind_eq_ok_iff.mp written
  have described := Program.described_of_readLines (mapError_eq_ok_iff.mp read)
  have made := mapError_eq_ok_iff.mp written
  have bears {slice : Slice} {report : Report} (done : ofSlice program config slice = .ok report) :
      report.slice = slice ∧ fileName program slice.tail config.extendCriteria = .ok report.name := by
    obtain ⟨name, named, done⟩ := bind_eq_ok_iff.mp done
    obtain ⟨content, _, done⟩ := bind_eq_ok_iff.mp done
    cases done
    exact ⟨rfl, named⟩
  -- Reports stand in the order of their slices, so their tails are those of the slices.
  have slices_eq : reports.map (·.slice) = slices := by
    rw [eq_comm, ← List.map_id slices, ← List.forall₂_eq_eq_eq, List.forall₂_map_left_iff,
      List.forall₂_map_right_iff]
    exact (mapM_eq_ok_iff.mp made).imp fun _ _ done => (bears done).1.symm
  have tails : reports.map (·.slice.tail) =
      ((criteria.map (·.fact)).filterMap (·.tail?)).eraseDups := by
    rw [← tails_of_sliceAll sliced, ← slices_eq, List.map_map]
    rfl
  refine ⟨tails ▸ nodup_eraseDups _, fun report member => ?_⟩
  obtain ⟨slice, _, done⟩ := exists_of_mapM_eq_ok made member
  obtain ⟨same, named⟩ := bears done
  refine ⟨?_, same ▸ named⟩
  have listed : report.slice.tail ∈ reports.map (·.slice.tail) := List.mem_map_of_mem member
  rw [tails, List.mem_eraseDups, List.mem_filterMap] at listed
  obtain ⟨fact, inFacts, last⟩ := listed
  obtain ⟨criterion, inCriteria, rfl⟩ := List.mem_map.mp inFacts
  exact described criterion inCriteria _ (List.mem_of_getLast? last)

/-- The reports of a run are about different tails, and these have different places. Two
of them have the same file name just when the places differ in packages only. -/
theorem name_eq_iff (written : ofCriteria program config text = .ok reports) :
    (reports.map (·.slice.tail)).Nodup ∧
      ∀ first ∈ reports, ∀ second ∈ reports, ∃ place other,
        program.place? first.slice.tail = some place ∧
        program.place? second.slice.tail = some other ∧
        (first.slice.tail = second.slice.tail ↔ place = other) ∧
        (first.name = second.name ↔ place.short = other.short) := by
  obtain ⟨unique, each⟩ := of_mem_ofCriteria written
  refine ⟨unique, fun first member second memberToo => ?_⟩
  obtain ⟨described, named⟩ := each first member
  obtain ⟨describedToo, namedToo⟩ := each second memberToo
  obtain ⟨place, stands, caller, callee⟩ := described.place?
  obtain ⟨other, standsToo, callerToo, calleeToo⟩ := describedToo.place?
  refine ⟨place, other, stands, standsToo, ⟨fun same => ?_, fun same => ?_⟩, ?_⟩
  · rw [same, standsToo] at stands
    exact (Option.some.inj stands).symm
  · exact described.eq_of_place?_eq describedToo (by rw [stands, standsToo, same])
  · rw [fileName_of_place? stands] at named
    rw [fileName_of_place? standsToo] at namedToo
    obtain ⟨suffix, ends, same⟩ := map_eq_ok_iff.mp named
    obtain ⟨suffixToo, endsToo, sameToo⟩ := map_eq_ok_iff.mp namedToo
    -- Behind the places both names are the same.
    rw [ends] at endsToo
    cases endsToo
    rw [← same, ← sameToo]
    exact CallPlace.short_text_append_inj ⟨caller, callee⟩ ⟨callerToo, calleeToo⟩ suffix

end Report

/-- Two packages have a class of one name each. The entry method of one and a method of
the other make the same call on the same line. -/
def twinListing : Listing where
  entry := some 0
  classes := [⟨0, "a.Main", none, [], false, false⟩, ⟨1, "b.Main", none, [], false, false⟩,
    ⟨2, "Api", none, [], false, false⟩]
  methods := [⟨0, 0, "main", "", true, false, [0, 1, 2]⟩, ⟨1, 1, "main", "", true, false, [3, 4]⟩,
    ⟨2, 2, "run", "", true, false, []⟩]
  points := [⟨0, 0, 1, .call ⟨2, .static, none, [], none⟩, ""⟩,
    ⟨1, 0, 2, .call ⟨1, .static, none, [], none⟩, ""⟩, ⟨2, 0, 3, .plain, ""⟩,
    ⟨3, 1, 1, .call ⟨2, .static, none, [], none⟩, ""⟩, ⟨4, 1, 2, .plain, ""⟩]
  edges := [⟨0, 1, false⟩, ⟨1, 2, false⟩, ⟨3, 4, false⟩]
  calls := [⟨0, 2⟩, ⟨1, 1⟩, ⟨3, 2⟩]
  allocSites := []
  pointsTo := []

def twinProgram : Program := ⟨twinListing, 0, rfl, by decide⟩

theorem twinProgram_names_differ :
    ∃ reports, Report.ofCriteria twinProgram plainConfig
        "a.Main.main/Api.run/1\na.Main.main/b.Main.main" = .ok reports ∧
      reports.map (·.slice.tail) = [0, 1] ∧
      ∀ first ∈ reports, ∀ second ∈ reports, first.slice.tail ≠ second.slice.tail →
        first.name ≠ second.name := by
  have evaluated : ((Report.ofCriteria twinProgram plainConfig
      "a.Main.main/Api.run/1\na.Main.main/b.Main.main").toOption.map fun reports =>
        reports.map (·.slice.tail)) = some [0, 1] := by cbv
  obtain ⟨reports, made, tails⟩ := Option.map_eq_some_iff.mp evaluated
  have written := ok_of_toOption made
  obtain ⟨-, each⟩ := Report.name_eq_iff written
  refine ⟨reports, written, tails, fun first member second memberToo different same => ?_⟩
  obtain ⟨place, other, stands, standsToo, -, names⟩ := each first member second memberToo
  have lines := congrArg CallPlace.line (names.mp same)
  simp only [CallPlace.short] at lines
  -- The lines of the two tails are 1 and 2.
  have atLine {report : Report} (member : report ∈ reports) {place : CallPlace}
      (stands : twinProgram.place? report.slice.tail = some place) :
      place.line = report.slice.tail + 1 := by
    have listed : report.slice.tail ∈ reports.map (·.slice.tail) := List.mem_map_of_mem member
    have found := congrArg (Option.map CallPlace.line) stands
    rw [tails] at listed
    rcases List.mem_cons.mp listed with tail | listed
    · rw [tail] at found ⊢
      exact (Option.some.inj found).symm
    · rw [List.mem_singleton.mp listed] at found ⊢
      exact (Option.some.inj found).symm
  rw [atLine member stands, atLine memberToo standsToo] at lines
  exact different (Int.ofNat_inj.mp ((Int.add_left_inj 1).mp lines))

/-- The two reports are written to one file. -/
theorem twinProgram_names_clash :
    ((Report.ofCriteria twinProgram plainConfig
      "a.Main.main/Api.run/1\nb.Main.main/Api.run/1").toOption.map fun reports =>
        reports.map fun report => (report.slice.tail, report.name)) =
      some [(0, "Main.main;Api.run;1-all-a.Main.output"),
        (3, "Main.main;Api.run;1-all-a.Main.output")] := by
  cbv

end SeqSlice
