import SeqSlice.Extension.Relation
import SeqSlice.Proofs.Error
import SeqSlice.Proofs.Supergraph.Calls
import SeqSlice.Proofs.Supergraph.Linked

/-! What the extension relation is before statements are taken out: every statement that
it mentions has a row, and no statement stands before itself. -/

set_option autoImplicit false
namespace SeqSlice

namespace Extension

section
variable {expand : PointId → Except ExtensionError (List PointId)}
  {remaining pending : List PointId} {rows : List (PointId × List PointId)}

theorem expand_of_discover (found : discover expand remaining pending = .ok rows) :
    ∀ row ∈ rows, expand row.1 = .ok row.2 := by
  fun_induction discover expand remaining pending generalizing rows with
  | case1 => cases found; simp
  | case2 remaining first rest member ih =>
      obtain ⟨here, expanded, mapped⟩ := bind_eq_ok_iff.mp found
      obtain ⟨others, later, rfl⟩ := map_eq_ok_iff.mp mapped
      exact List.forall_mem_cons.mpr ⟨expanded, ih here later⟩
  | case3 remaining first rest absent ih => exact ih found

theorem row_of_discover (found : discover expand remaining pending = .ok rows) {point : PointId}
    (inside : point ∈ remaining) (due : point ∈ pending ∨ ∃ row ∈ rows, point ∈ row.2) :
    ∃ row ∈ rows, row.1 = point := by
  fun_induction discover expand remaining pending generalizing rows with
  | case1 => cases found; simp at due
  | case2 remaining first rest member ih =>
      obtain ⟨here, expanded, mapped⟩ := bind_eq_ok_iff.mp found
      obtain ⟨others, later, rfl⟩ := map_eq_ok_iff.mp mapped
      by_cases same : point = first
      · exact ⟨(first, here), List.mem_cons_self, same.symm⟩
      -- What is not looked at now still waits, or is found later.
      · have waits : point ∈ rest ++ here ∨ ∃ row ∈ others, point ∈ row.2 := by
          rcases due with waiting | ⟨row, listed, inRow⟩
          · exact .inl (List.mem_append_left _ ((List.mem_cons.mp waiting).resolve_left same))
          · rcases List.mem_cons.mp listed with rfl | listed
            · exact .inl (List.mem_append_right _ inRow)
            · exact .inr ⟨row, listed, inRow⟩
        obtain ⟨row, listed, isPoint⟩ := ih here later ((List.mem_erase_of_ne same).mpr inside) waits
        exact ⟨row, List.mem_cons_of_mem _ listed, isPoint⟩
  | case3 remaining first rest absent ih =>
      refine ih found inside (due.imp_left fun waiting => ?_)
      exact (List.mem_cons.mp waiting).resolve_left fun same => absent (same ▸ inside)

end

def Closed (extension : Extension) : Prop :=
  ∀ key point, point ∈ extension.before key → point ∈ extension.keys

end Extension

/-! ## What leads into a method -/

/-- A statement of the program, or named as a constructor call by the tags. -/
def TagTable.Names (tags : TagTable) (program : Program) (point : PointId) : Prop :=
  point ∈ program.pointIds ∨ point ∈ tags.constructorCalls.filterMap (·.2)

namespace Program

variable {program : Program} {tags : TagTable} {reflection : Reflection}

theorem names_of_creationCall {id : SiteId} {alloc : AllocSite} {call : PointId} {cls : ClassId}
    (listed : program.allocSite? id = some alloc)
    (found : program.creationCall tags reflection alloc = .ok (some (call, cls))) :
    tags.Names program call := by
  unfold creationCall at found
  split at found
  · split at found
    · cases found
    · next call' tagged =>
        obtain ⟨rfl, _⟩ := Prod.mk.inj (Option.some.inj (Except.ok.inj found))
        obtain ⟨_, _, rows, _⟩ := List.lookup_eq_some_iff.mp (Option.join_eq_some_iff.mp tagged)
        exact .inr (List.mem_filterMap.mpr ⟨(alloc.point, some call'), by simp [rows], rfl⟩)
  · split at found
    · obtain ⟨rfl, _⟩ := Prod.mk.inj (Option.some.inj (Except.ok.inj found))
      exact .inl (allocSite?_listed listed)
    · cases found
  · cases found

theorem names_of_creationsOf {site : CallSite} {target : MethodId} {ids : List SiteId}
    {before calls : List PointId} (named : ∀ call ∈ before, tags.Names program call)
    (found : program.creationsOf tags reflection site target before ids = .ok calls) :
    ∀ call ∈ calls, tags.Names program call := by
  induction ids generalizing before with
  | nil => exact Except.ok.inj found ▸ named
  | cons id rest ih =>
      rw [creationsOf] at found
      obtain ⟨alloc, known, found⟩ := bind_eq_ok_iff.mp found
      obtain ⟨creation, made, found⟩ := bind_eq_ok_iff.mp found
      have listed : program.allocSite? id = some alloc := by
        simpa only [mapError_eq_ok_iff, knownSite_eq_ok_iff] using known
      split at found
      · exact ih named found
      · obtain ⟨method, _, found⟩ := bind_eq_ok_iff.mp found
        obtain ⟨reaches, _, found⟩ := bind_eq_ok_iff.mp found
        refine ih ?_ found
        split
        · simp only [List.mem_append, List.mem_singleton]
          rintro other (old | rfl)
          · exact named other old
          · exact names_of_creationCall listed made
        · exact named

end Program

namespace Supergraph

variable {program : Program} {specified : List PointId} {plan : CyclePlan} {shape config : Config}
  {graph : Supergraph} {criteria : Criteria} {tags : TagTable}

theorem names_of_creatorsAt {method : MethodId} {caller : PointId} {calls : List PointId}
    (known : caller ∈ graph.program.pointIds)
    (found : graph.creatorsAt tags config method caller = .ok calls) :
    ∀ call ∈ calls, tags.Names graph.program call := by
  unfold creatorsAt at found
  split at found
  · cases found; simp
  · split at found
    · cases found
      simpa [TagTable.Names] using Or.inl known
    · split at found
      · cases found; simp
      · obtain ⟨_, _, found⟩ := bind_eq_ok_iff.mp found
        exact Program.names_of_creationsOf (by simp) found

theorem names_of_leadingCalls (built : build program specified plan shape = .ok graph)
    {point : PointId} {calls : List PointId}
    (found : graph.leadingCalls tags config point = .ok calls) :
    ∀ call ∈ calls, tags.Names graph.program call := by
  have known {method : MethodId} {caller : PointId} (member : caller ∈ graph.callers method) :
      caller ∈ graph.program.pointIds := program_of_build built ▸ callers_known built member
  obtain ⟨_, _, found⟩ := bind_eq_ok_iff.mp found
  obtain ⟨method, _, found⟩ := bind_eq_ok_iff.mp found
  split at found
  · cases found
    exact fun call member => .inl (known (List.mem_filter.mp member).1)
  · obtain ⟨rows, each, found⟩ := bind_eq_ok_iff.mp found
    cases found
    intro call member
    obtain ⟨row, listed, inRow⟩ := List.mem_flatten.mp (List.mem_eraseDups.mp member)
    obtain ⟨caller, isCaller, made⟩ := exists_of_mapM_eq_ok each listed
    exact names_of_creatorsAt (known isCaller) made call inRow

theorem of_mem_extensionPoints (built : build program specified plan shape = .ok graph)
    {point : PointId} {calls : List PointId}
    (found : graph.extensionPoints tags config point = .ok calls) :
    ∀ call ∈ calls, call ≠ point ∧ tags.Names graph.program call := by
  obtain ⟨leading, led, found⟩ := bind_eq_ok_iff.mp found
  have named := names_of_leadingCalls built led
  have same := Except.ok.inj found
  intro call member
  rw [← same] at member
  split at member
  · cases member
  · obtain ⟨inLeading, other⟩ := List.mem_filter.mp member
    exact ⟨by simpa using other, named call inLeading⟩

theorem closed_fullExtension (built : build program specified plan shape = .ok graph)
    {full : Extension} (found : graph.fullExtension criteria tags config = .ok full) :
    full.Closed := by
  obtain ⟨rows, discovered, rfl⟩ := map_eq_ok_iff.mp found
  intro key point stands
  obtain ⟨row, listed, rfl, member⟩ := Extension.mem_before.mp stands
  have named := (of_mem_extensionPoints built (Extension.expand_of_discover discovered row listed)
    point member).2
  refine Extension.mem_keys.mpr (Extension.row_of_discover discovered ?_ (.inr ⟨row, listed, member⟩))
  simpa [TagTable.Names, or_assoc] using Or.inr (a := point ∈ ascending criteria.heads) named

theorem irreflexive_fullExtension (built : build program specified plan shape = .ok graph)
    {full : Extension} (found : graph.fullExtension criteria tags config = .ok full)
    (point : PointId) : point ∉ full.before point := by
  obtain ⟨rows, discovered, rfl⟩ := map_eq_ok_iff.mp found
  intro stands
  obtain ⟨row, listed, here, member⟩ := Extension.mem_before.mp stands
  exact (of_mem_extensionPoints built (Extension.expand_of_discover discovered row listed)
    point member).1 here.symm

end Supergraph
end SeqSlice
