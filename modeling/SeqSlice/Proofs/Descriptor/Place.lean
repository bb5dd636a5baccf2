import SeqSlice.Descriptor.Reader
import SeqSlice.Proofs.Error
import SeqSlice.Proofs.Program.Accepted
import SeqSlice.Proofs.Text.Part

/-! Where the calls stand that criteria name. A descriptor gives the methods by class and
name, so calls that are found by descriptors are told apart by these names and their
line: of several such calls only the first is ever found. -/

set_option autoImplicit false
namespace SeqSlice

/-! ## The names in a descriptor -/

namespace MethodName

theorem ofSignature_subset {inner cls name : List Char} (read : ofSignature inner = .ok (cls, name)) :
    name ⊆ inner := by
  unfold ofSignature at read
  simp only at read
  split at read
  · cases read
  · next left rest cut =>
      split at read
      · cases read
      · next word found =>
          simp only [Except.ok.injEq, Prod.mk.injEq] at read
          obtain ⟨-, rfl⟩ := read
          have kept : rest ⊆ inner := by
            have whole := Text.eq_of_cutFirst cut
            intro c member
            have inText : c ∈ left ++ ':' :: rest := by simp [member]
            rw [← whole] at inText
            split at inText
            · exact (List.dropLast_prefix inner).subset inText
            · exact inText
          exact fun c member =>
            kept (Text.subset_of_mem_words (List.mem_of_getElem? found)
              ((List.takeWhile_prefix _).subset member))

theorem ofReference_subset {text cls name : List Char} (read : ofReference text = .ok (cls, name)) :
    name ⊆ text := by
  unfold ofReference at read
  split at read
  · exact fun c member => List.mem_cons_of_mem _ (ofSignature_subset read member)
  · split at read
    · next parts cut =>
        cases read
        rw [Text.eq_of_cutLast cut]
        exact fun c member => by simp [member]
    · cases read

theorem parseReference_subset {text : List Char} {method : MethodName}
    (read : parseReference text = .ok method) : method.name.toList ⊆ text := by
  unfold parseReference at read
  simp only at read
  split at read
  · cases read
  · next cls name found =>
      split at read
      · cases read
      · cases read
        rw [String.toList_ofList]
        exact List.Subset.trans (ofReference_subset found) (Text.trim_subset text)

end MethodName

namespace CallDescriptor

theorem fields_subset {text caller callee : List Char} {line : Option Int}
    (read : fields text = .ok (caller, callee, line)) : caller ⊆ text ∧ callee ⊆ text := by
  unfold fields at read
  split at read
  · next first second rest split_eq =>
      -- The line stands behind both references and takes no part in them.
      have pieces : ∀ piece ∈ text.splitOn '/', piece ⊆ text :=
        fun piece member => (Text.of_mem_splitOn member).2
      have both : first ⊆ text ∧ second ⊆ text :=
        ⟨pieces first (by simp [split_eq]), pieces second (by simp [split_eq])⟩
      split at read
      · cases read
        exact both
      · obtain ⟨found, _, read⟩ := bind_eq_ok_iff.mp read
        split at read
        · cases read
          exact both
        · cases read
  · cases read

theorem parse_subset {text : List Char} {descriptor : CallDescriptor}
    (read : parse text = .ok descriptor) :
    descriptor.caller.name.toList ⊆ text ∧ descriptor.callee.name.toList ⊆ text := by
  unfold parse at read
  split at read
  · cases read
  · next caller callee line found =>
      obtain ⟨first, readFirst, read⟩ := bind_eq_ok_iff.mp read
      obtain ⟨second, readSecond, read⟩ := bind_eq_ok_iff.mp read
      cases read
      obtain ⟨inText, inTextToo⟩ := fields_subset found
      exact ⟨List.Subset.trans (MethodName.parseReference_subset readFirst) inText,
        List.Subset.trans (MethodName.parseReference_subset readSecond) inTextToo⟩

end CallDescriptor

/-! ## Places -/

/-- Where a call stands: the method that makes it, the method that it names, and its line. -/
structure CallPlace where
  caller : MethodName
  callee : MethodName
  line : Int
  deriving DecidableEq, Repr

theorem find?_unique {α : Type} {values : List α} {first second : α → Bool} {one other : α}
    (found : values.find? first = some one) (foundToo : values.find? second = some other)
    (fits : first other = true) (fitsToo : second one = true) : one = other := by
  induction values with
  | nil => cases found
  | cons value rest ih =>
      rw [List.find?_cons] at found foundToo
      by_cases here : first value = true
      · simp only [here, Option.some.injEq] at found
        subst found
        simpa [fitsToo] using foundToo
      · by_cases hereToo : second value = true
        · simp only [hereToo, Option.some.injEq] at foundToo
          exact absurd (foundToo ▸ fits) here
        · simp only [here, hereToo] at found foundToo
          exact ih found foundToo

namespace Program

variable {program : Program}

def fullName? (program : Program) (method : MethodId) : Option MethodName := do
  let found ← program.method? method
  let cls ← program.class? found.cls
  return ⟨cls.name, found.name⟩

/-- Nothing for a statement that is no call. -/
def place? (program : Program) (point : PointId) : Option CallPlace := do
  let found ← program.point? point
  let site ← found.action.callSite?
  return ⟨← program.fullName? found.method, ← program.fullName? site.target, found.line⟩

theorem place?_eq_some_iff {point : PointId} {place : CallPlace} :
    program.place? point = some place ↔
      ∃ found site, program.point? point = some found ∧ found.action.callSite? = some site ∧
        program.fullName? found.method = some place.caller ∧
        program.fullName? site.target = some place.callee ∧ found.line = place.line := by
  simp only [place?, Option.bind_eq_bind, Option.bind_eq_some_iff, Option.pure_def,
    Option.some.injEq]
  constructor
  · rintro ⟨found, here, site, isCall, caller, enclosing, callee, named, rfl⟩
    exact ⟨found, site, here, isCall, enclosing, named, rfl⟩
  · rintro ⟨found, site, here, isCall, enclosing, named, line⟩
    exact ⟨found, here, site, isCall, _, enclosing, _, named, by rw [line]⟩

theorem fullName?_eq_some_iff {method : MethodId} {name : MethodName} :
    program.fullName? method = some name ↔
      ∃ found cls, program.method? method = some found ∧ program.class? found.cls = some cls ∧
        cls.name = name.cls ∧ found.name = name.name := by
  simp only [fullName?, Option.bind_eq_bind, Option.bind_eq_some_iff, Option.pure_def,
    Option.some.injEq]
  constructor
  · rintro ⟨found, here, cls, enclosing, rfl⟩
    exact ⟨found, cls, here, enclosing, rfl, rfl⟩
  · rintro ⟨found, cls, here, enclosing, ofClass, ofMethod⟩
    exact ⟨found, here, cls, enclosing, by rw [ofClass, ofMethod]⟩

theorem names_iff {name : MethodName} {method : MethodId} :
    ((program.classOfMethod? method).any fun cls => name.names cls.name (program.methodName method)) =
      true ↔ program.fullName? method = some name := by
  rw [fullName?_eq_some_iff]
  simp only [Option.any_eq_true, classOfMethod?, Option.bind_eq_some_iff, MethodName.names,
    Bool.and_eq_true, beq_iff_eq]
  constructor
  · rintro ⟨cls, ⟨found, here, enclosing⟩, ofClass, ofMethod⟩
    refine ⟨found, cls, here, enclosing, ofClass.symm, ?_⟩
    rw [ofMethod, methodName, here, Option.map_some, Option.getD_some]
  · rintro ⟨found, cls, here, enclosing, ofClass, ofMethod⟩
    refine ⟨cls, ⟨found, here, enclosing⟩, ofClass.symm, ?_⟩
    rw [methodName, here, Option.map_some, Option.getD_some, ofMethod]

theorem isDescribed_iff {descriptor : CallDescriptor} {point : PointId} :
    program.isDescribed descriptor point = true ↔
      ∃ found site, program.point? point = some found ∧ found.action.callSite? = some site ∧
        descriptor.matchesLine found.line = true ∧
        program.fullName? site.target = some descriptor.callee := by
  simp only [isDescribed, ← names_iff, Option.any_eq_true, Bool.and_eq_true]
  constructor
  · rintro ⟨found, here, line, site, isCall, named⟩
    exact ⟨found, site, here, isCall, line, named⟩
  · rintro ⟨found, site, here, isCall, line, named⟩
    exact ⟨found, here, line, site, isCall, named⟩

theorem isDescribed_of_place {descriptor : CallDescriptor} {point : PointId} {place : CallPlace}
    (stands : program.place? point = some place) :
    program.isDescribed descriptor point = true ↔
      descriptor.matchesLine place.line = true ∧ descriptor.callee = place.callee := by
  obtain ⟨found, site, here, isCall, -, named, line⟩ := place?_eq_some_iff.mp stands
  rw [isDescribed_iff]
  constructor
  · rintro ⟨other, otherSite, again, isCallToo, fits, namedToo⟩
    rw [here] at again
    cases again
    rw [isCall] at isCallToo
    cases isCallToo
    rw [named] at namedToo
    exact ⟨line ▸ fits, (Option.some.inj namedToo).symm⟩
  · rintro ⟨fits, same⟩
    exact ⟨found, site, here, isCall, line ▸ fits, same ▸ named⟩

/-! ## What is found -/

theorem fullName?_of_mem_callerBodies {cls : ClassId} {name : MethodName} {point : PointId}
    (known : program.classNamed? name.cls = some cls)
    (inside : point ∈ program.callerBodies cls name.name) :
    ∃ found, program.point? point = some found ∧ program.fullName? found.method = some name := by
  obtain ⟨enclosing, named, rfl⟩ := Option.map_eq_some_iff.mp known
  obtain ⟨method, listed, inBody⟩ := List.mem_flatMap.mp inside
  obtain ⟨listed, fits⟩ := List.mem_filter.mp listed
  simp only [Bool.and_eq_true, beq_iff_eq] at fits
  obtain ⟨⟨ofClass, ofMethod⟩, -⟩ := fits
  have here := method?_id listed
  -- A statement of a body names that method as its own.
  obtain ⟨found, stands, owner⟩ := Option.map_eq_some_iff.mp
    (methodOf?_of_mem_body (mem_body.mpr ⟨method, here, inBody⟩))
  have classHere := class?_id (List.mem_reverse.mp (List.mem_of_find?_eq_some named))
  refine ⟨found, stands, fullName?_eq_some_iff.mpr ⟨method, enclosing, owner ▸ here, ?_, ?_, ofMethod⟩⟩
  · rw [ofClass, classHere]
  · simpa using List.find?_some named

variable {descriptor other : CallDescriptor} {line otherLine : Nat} {first second : PointId}

theorem findCall_eq_some_iff {point : PointId} :
    program.findCall descriptor line = .ok (some point) ↔
      ∃ cls, program.classNamed? descriptor.caller.cls = some cls ∧
        (program.callerBodies cls descriptor.caller.name).find? (program.isDescribed descriptor) =
          some point := by
  unfold findCall
  split
  · next none => simp [none]
  · next cls known => simp [known]

theorem place?_of_findCall {point : PointId}
    (found : program.findCall descriptor line = .ok (some point)) :
    ∃ place, program.place? point = some place ∧ place.caller = descriptor.caller ∧
      place.callee = descriptor.callee := by
  obtain ⟨cls, known, here⟩ := findCall_eq_some_iff.mp found
  obtain ⟨statement, stands, enclosing⟩ :=
    fullName?_of_mem_callerBodies known (List.mem_of_find?_eq_some here)
  obtain ⟨again, site, standsToo, isCall, -, named⟩ := isDescribed_iff.mp (List.find?_some here)
  rw [stands] at standsToo
  cases standsToo
  exact ⟨⟨descriptor.caller, descriptor.callee, statement.line⟩,
    place?_eq_some_iff.mpr ⟨statement, site, stands, isCall, enclosing, named, rfl⟩, rfl, rfl⟩

theorem eq_of_findCall (found : program.findCall descriptor line = .ok (some first))
    (foundToo : program.findCall other otherLine = .ok (some second))
    (same : program.place? first = program.place? second) : first = second := by
  obtain ⟨place, stands, caller, callee⟩ := place?_of_findCall found
  obtain ⟨again, standsToo, callerToo, calleeToo⟩ := place?_of_findCall foundToo
  obtain rfl : place = again := by
    rw [same, standsToo] at stands
    exact (Option.some.inj stands).symm
  obtain ⟨cls, known, here⟩ := findCall_eq_some_iff.mp found
  obtain ⟨clsToo, knownToo, hereToo⟩ := findCall_eq_some_iff.mp foundToo
  rw [← callerToo, caller, known] at knownToo
  cases knownToo
  rw [← callerToo, caller] at hereToo
  -- Each descriptor fits the other call, since it asks for the line at most.
  have fits := (isDescribed_of_place stands).mp (List.find?_some here)
  have fitsToo := (isDescribed_of_place standsToo).mp (List.find?_some hereToo)
  exact find?_unique here hereToo ((isDescribed_of_place standsToo).mpr fits)
    ((isDescribed_of_place stands).mpr fitsToo)

/-! ## What is read -/

/-- Some descriptor finds the statement, and no semicolon is in the names of its methods. -/
def Described (program : Program) (point : PointId) : Prop :=
  ∃ descriptor line, program.findCall descriptor line = .ok (some point) ∧
    ';' ∉ descriptor.caller.name.toList ∧ ';' ∉ descriptor.callee.name.toList

theorem findCalls_found {calls : List CallDescriptor} {points : List PointId}
    (found : program.findCalls line calls = .ok (some points)) :
    ∀ point ∈ points, ∃ descriptor ∈ calls, program.findCall descriptor line = .ok (some point) := by
  induction calls generalizing points with
  | nil =>
      cases found
      simp
  | cons descriptor rest ih =>
      obtain ⟨result, here, found⟩ := bind_eq_ok_iff.mp found
      cases result with
      | none => cases found
      | some first =>
          obtain ⟨others, later, found⟩ := bind_eq_ok_iff.mp found
          obtain ⟨tail, rfl, rfl⟩ := Option.map_eq_some_iff.mp (Except.ok.inj found)
          intro point member
          rcases List.mem_cons.mp member with rfl | inTail
          · exact ⟨descriptor, List.mem_cons_self, here⟩
          · obtain ⟨other, listed, found⟩ := ih later point inTail
            exact ⟨other, List.mem_cons_of_mem _ listed, found⟩

theorem described_of_readLine {text : List Char} {criterion : SequenceCriterion}
    (read : program.readLine line text = .ok (some criterion)) :
    ∀ point ∈ criterion.points, program.Described point := by
  obtain ⟨calls, parsed, read⟩ := bind_eq_ok_iff.mp read
  split at read
  · cases read
  · obtain ⟨found, searched, read⟩ := bind_eq_ok_iff.mp read
    obtain ⟨points, rfl, rfl⟩ := Option.map_eq_some_iff.mp (Except.ok.inj read)
    intro point member
    obtain ⟨descriptor, listed, here⟩ := findCalls_found searched point member
    obtain ⟨field, inLine, parsed⟩ := exists_of_mapM_eq_ok parsed listed
    obtain ⟨piece, inText, rfl⟩ := List.mem_map.mp (List.mem_filter.mp inLine).1
    -- The line is split at semicolons, so a descriptor has none.
    have clean : ';' ∉ Text.trim piece :=
      fun inside => (Text.of_mem_splitOn inText).1 (Text.trim_subset piece inside)
    obtain ⟨caller, callee⟩ := CallDescriptor.parse_subset parsed
    exact ⟨descriptor, line, here, fun inside => clean (caller inside),
      fun inside => clean (callee inside)⟩

theorem described_of_readLines {lines : List (List Char)} {criteria : List SequenceCriterion}
    (read : program.readLines line lines = .ok criteria) :
    ∀ criterion ∈ criteria, ∀ point ∈ criterion.points, program.Described point := by
  induction lines generalizing line criteria with
  | nil =>
      cases read
      simp
  | cons text rest ih =>
      obtain ⟨found, here, read⟩ := bind_eq_ok_iff.mp read
      obtain ⟨others, later, read⟩ := bind_eq_ok_iff.mp read
      cases read
      intro criterion member
      rcases List.mem_append.mp member with first | inRest
      · rw [Option.mem_toList.mp first] at here
        exact described_of_readLine here
      · exact ih later criterion inRest

theorem Described.place? {point : PointId} (described : program.Described point) :
    ∃ place, program.place? point = some place ∧ ';' ∉ place.caller.name.toList ∧
      ';' ∉ place.callee.name.toList := by
  obtain ⟨descriptor, line, found, caller, callee⟩ := described
  obtain ⟨place, stands, sameCaller, sameCallee⟩ := place?_of_findCall found
  exact ⟨place, stands, sameCaller ▸ caller, sameCallee ▸ callee⟩

theorem Described.eq_of_place?_eq (described : program.Described first)
    (describedToo : program.Described second) (same : program.place? first = program.place? second) :
    first = second := by
  obtain ⟨_, _, found, _⟩ := described
  obtain ⟨_, _, foundToo, _⟩ := describedToo
  exact eq_of_findCall found foundToo same

end Program
end SeqSlice
