import SeqSlice.Fact.Criteria
import SeqSlice.Proofs.Program.Accepted
import Mathlib.Data.List.Induction

/-! Criteria by their tails. The groups are what comes of going through the list once, each
criterion joining the group of its tail or beginning one: they share out the criteria that
are not empty, and what appears first stands first. -/

set_option autoImplicit false
namespace SeqSlice

/-! ## Order of first appearance -/

section
variable {α : Type}

/-- Some beginning of the list has the one value and not yet the other. -/
def AppearsBefore (values : List α) (first second : α) : Prop :=
  ∃ front, front <+: values ∧ first ∈ front ∧ second ∉ front

structure FirstAppearances (values found : List α) : Prop where
  distinct : found.Nodup
  ordered : found.Pairwise (AppearsBefore values)

theorem AppearsBefore.append {values : List α} {first second : α}
    (before : AppearsBefore values first second) (more : List α) :
    AppearsBefore (values ++ more) first second := by
  obtain ⟨front, leads, member, absent⟩ := before
  exact ⟨front, leads.trans (List.prefix_append _ _), member, absent⟩

theorem AppearsBefore.of_filter {keep : α → Bool} {values : List α} {first second : α}
    (before : AppearsBefore (values.filter keep) first second) (kept : keep second = true) :
    AppearsBefore values first second := by
  obtain ⟨found, leads, member, absent⟩ := before
  obtain ⟨front, frontLeads, rfl⟩ := List.prefix_filter_iff.mp leads
  exact ⟨front, frontLeads, (List.mem_filter.mp member).1,
    fun inFront => absent (List.mem_filter.mpr ⟨inFront, kept⟩)⟩

variable [DecidableEq α]

theorem eraseDups_concat (values : List α) (value : α) : (values ++ [value]).eraseDups =
    if value ∈ values then values.eraseDups else values.eraseDups ++ [value] := by
  rw [List.eraseDups_append]
  by_cases known : value ∈ values <;> simp [List.removeAll, List.eraseDups_cons, known]

theorem eraseDups_eq_self {values : List α} (distinct : values.Nodup) : values.eraseDups = values := by
  induction values using List.reverseRecOn with
  | nil => rfl
  | append_singleton front value ih =>
      obtain ⟨unseen, others⟩ :=
        List.nodup_cons.mp ((List.perm_append_singleton value front).nodup_iff.mp distinct)
      rw [eraseDups_concat, if_neg unseen, ih others]

theorem firstAppearances_eraseDups (values : List α) : FirstAppearances values values.eraseDups := by
  refine ⟨nodup_eraseDups values, ?_⟩
  induction values using List.reverseRecOn with
  | nil => exact List.Pairwise.nil
  | append_singleton front value ih =>
      have old := ih.imp fun before => AppearsBefore.append before [value]
      rw [eraseDups_concat]
      by_cases known : value ∈ front
      · rwa [if_pos known]
      · rw [if_neg known, List.pairwise_append]
        refine ⟨old, List.pairwise_singleton _ _, fun first member second isNew => ?_⟩
        obtain rfl := List.mem_singleton.mp isNew
        exact ⟨front, List.prefix_append _ _, List.mem_eraseDups.mp member, known⟩

end

/-! ## Groups -/

namespace Criteria

def join (groups : List (PointId × List Fact)) (criterion : Fact) : List (PointId × List Fact) :=
  match criterion.tail? with
  | none => groups
  | some tail =>
      if tail ∈ groups.map (·.1) then
        groups.map fun group =>
          if group.1 = tail ∧ criterion ∉ group.2 then (group.1, group.2 ++ [criterion]) else group
      else groups ++ [(tail, [criterion])]

def members (criteria : List Fact) (tail : PointId) : List Fact :=
  (criteria.filter fun criterion => criterion.tail? == some tail).eraseDups

theorem mem_members {criteria : List Fact} {tail : PointId} {criterion : Fact} :
    criterion ∈ members criteria tail ↔ criterion ∈ criteria ∧ criterion.tail? = some tail := by
  simp [members]

theorem mem_groups {criteria : List Fact} {tail : PointId} {group : List Fact} :
    (tail, group) ∈ groups criteria ↔
      (∃ criterion ∈ criteria, criterion.tail? = some tail) ∧ group = members criteria tail := by
  simp only [groups, members, List.mem_map, List.mem_eraseDups, List.mem_filterMap, Prod.mk.injEq]
  grind

theorem map_fst_groups (criteria : List Fact) :
    (groups criteria).map (·.1) = (criteria.filterMap (·.tail?)).eraseDups := by
  simp [groups, Function.comp_def]

variable {criteria : List Fact} {criterion : Fact}

theorem members_concat (criteria : List Fact) (criterion : Fact) (tail : PointId) :
    members (criteria ++ [criterion]) tail =
      if criterion.tail? = some tail ∧ criterion ∉ members criteria tail then
        members criteria tail ++ [criterion]
      else members criteria tail := by
  by_cases ends : criterion.tail? = some tail
  · by_cases known : criterion ∈ criteria <;>
      simp [members, List.filter_append, eraseDups_concat, ends, known]
  · simp [members, ends]

theorem groups_concat (criteria : List Fact) (criterion : Fact) :
    groups (criteria ++ [criterion]) = join (groups criteria) criterion := by
  have grouped (list : List Fact) : groups list =
      (list.filterMap (·.tail?)).eraseDups.map fun tail => (tail, members list tail) := rfl
  cases ends : criterion.tail? with
  | none => simp [join, ends, grouped, members_concat]
  | some tail =>
      have tails : (criteria ++ [criterion]).filterMap (·.tail?) =
          criteria.filterMap (·.tail?) ++ [tail] := by simp [ends]
      have known : tail ∈ (groups criteria).map (·.1) ↔ tail ∈ criteria.filterMap (·.tail?) := by
        rw [map_fst_groups, List.mem_eraseDups]
      simp only [join, ends, known]
      rw [grouped, tails, eraseDups_concat]
      split
      · -- The group of the tail is there already.
        rw [grouped, List.map_map]
        refine List.map_congr_left fun other _ => ?_
        simp only [Function.comp_apply, members_concat, ends, Option.some.injEq, eq_comm (a := tail)]
        split <;> rfl
      · next new =>
        have unseen : members criteria tail = [] := by
          refine List.eq_nil_iff_forall_not_mem.mpr fun member inGroup => new ?_
          obtain ⟨listed, same⟩ := mem_members.mp inGroup
          exact List.mem_filterMap.mpr ⟨member, listed, same⟩
        rw [List.map_append, grouped, List.map_singleton]
        congr 1
        · refine List.map_congr_left fun other listed => ?_
          have different : tail ≠ other := fun same => new (same ▸ List.mem_eraseDups.mp listed)
          simp [members_concat, ends, different]
        · simp [members_concat, ends, unseen]

theorem groups_eq_foldl (criteria : List Fact) : groups criteria = criteria.foldl join [] := by
  induction criteria using List.reverseRecOn with
  | nil => rfl
  | append_singleton front criterion ih =>
      rw [groups_concat, ih, List.foldl_append, List.foldl_cons, List.foldl_nil]

structure Shared (criteria : List Fact) (groups : List (PointId × List Fact)) : Prop where
  tails : FirstAppearances (criteria.filterMap (·.tail?)) (groups.map (·.1))
  inhabited : ∀ group ∈ groups, group.2 ≠ []
  ends : ∀ group ∈ groups, ∀ criterion ∈ group.2, criterion.tail? = some group.1
  members : ∀ group ∈ groups, FirstAppearances criteria group.2
  exhausts : ∀ criterion ∈ criteria, criterion.isEmpty = false →
    ∃! group, group ∈ groups ∧ criterion ∈ group.2
  nothingElse : ∀ group ∈ groups, ∀ criterion ∈ group.2,
    criterion ∈ criteria ∧ criterion.isEmpty = false

theorem exists_tail_iff : (∃ tail, criterion.tail? = some tail) ↔ criterion.isEmpty = false := by
  rw [Fact.tail?, Fact.isEmpty, ← Option.isSome_iff_exists]
  simp

theorem shared_groups (criteria : List Fact) : Shared criteria (groups criteria) := by
  refine ⟨?_, fun group member => ?_, fun group member criterion inGroup => ?_,
    fun group member => ?_, fun criterion listed nonempty => ?_,
    fun group member criterion inGroup => ?_⟩
  · rw [map_fst_groups]
    exact firstAppearances_eraseDups _
  · obtain ⟨⟨criterion, listed, ends⟩, members⟩ := mem_groups.mp member
    rw [members]
    exact List.ne_nil_of_mem (mem_members.mpr ⟨listed, ends⟩)
  · rw [(mem_groups.mp member).2] at inGroup
    exact (mem_members.mp inGroup).2
  · rw [(mem_groups.mp member).2]
    have inOrder := firstAppearances_eraseDups
      (criteria.filter fun criterion => criterion.tail? == some group.1)
    refine ⟨inOrder.distinct, inOrder.ordered.imp_of_mem fun _ inGroup before => before.of_filter ?_⟩
    simpa using (mem_members.mp inGroup).2
  · obtain ⟨tail, ends⟩ := exists_tail_iff.mpr nonempty
    refine ⟨(tail, members criteria tail),
      ⟨mem_groups.mpr ⟨⟨criterion, listed, ends⟩, rfl⟩, mem_members.mpr ⟨listed, ends⟩⟩, ?_⟩
    rintro ⟨other, members⟩ ⟨member, inGroup⟩
    have found := (mem_groups.mp member).2
    simp only at found inGroup
    rw [found] at inGroup ⊢
    rw [Option.some.inj (ends.symm.trans (mem_members.mp inGroup).2)]
  · rw [(mem_groups.mp member).2] at inGroup
    obtain ⟨listed, ends⟩ := mem_members.mp inGroup
    exact ⟨listed, exists_tail_iff.mp ⟨_, ends⟩⟩

/-! ## The criteria of one group -/

/-- The criteria are these, they have this tail, and all other calls in them are taken as
given. -/
structure Gathers (made : Criteria) (tail : PointId) (members : List Fact) : Prop where
  sequences : made.sequences = members
  tails : made.tails = [tail]
  specified : ∀ point, point ∈ made.specified ↔
    point ≠ tail ∧ ∃ criterion ∈ members, point ∈ criterion.points

theorem gathers_ofList {tail : PointId} {members : List Fact} (distinct : members.Nodup)
    (inhabited : members ≠ []) (ends : ∀ criterion ∈ members, criterion.tail? = some tail) :
    (ofList members).Gathers tail members := by
  have nonempty : (members.filter fun criterion => !criterion.isEmpty) = members := by
    refine List.filter_eq_self.mpr fun criterion member => ?_
    simp [exists_tail_iff.mp ⟨tail, ends criterion member⟩]
  have sequences : (ofList members).sequences = members := by
    rw [ofList, nonempty, eraseDups_eq_self distinct]
  have mem_tails (point : PointId) : point ∈ (ofList members).tails ↔ point = tail := by
    rw [tails, sequences, List.mem_eraseDups, List.mem_filterMap]
    constructor
    · rintro ⟨criterion, member, ended⟩
      exact Option.some.inj (ended.symm.trans (ends criterion member))
    · rintro rfl
      obtain ⟨criterion, member⟩ := List.exists_mem_of_ne_nil _ inhabited
      exact ⟨criterion, member, ends criterion member⟩
  refine ⟨sequences, ?_, fun point => ?_⟩
  · refine List.perm_singleton.mp ((List.perm_ext_iff_of_nodup (nodup_eraseDups _)
      (List.pairwise_singleton _ _)).mpr fun point => ?_)
    rw [List.mem_singleton]
    exact mem_tails point
  · simp only [specified, List.mem_filter, points, List.mem_eraseDups, List.mem_flatMap, sequences,
      Bool.not_eq_true', List.contains_eq_mem, decide_eq_false_iff_not, mem_tails]
    exact and_comm

/-- Going through the criteria once shares them out by their tails, nothing lost and nothing
mixed, and each group makes up the criteria of a run. -/
theorem groups_shared (criteria : List Fact) : groups criteria = criteria.foldl join [] ∧
    Shared criteria (groups criteria) ∧
    ∀ group ∈ groups criteria, (ofList group.2).Gathers group.1 group.2 := by
  have shared := shared_groups criteria
  exact ⟨groups_eq_foldl criteria, shared, fun group member =>
    gathers_ofList (shared.members group member).distinct (shared.inhabited group member)
      (shared.ends group member)⟩

/-- The tail of one group inside a criterion of another, one criterion twice, and an empty
one. -/
example : groups [.seq [1, 3], .seq [3, 4], .seq [], .seq [5, 3], .seq [1, 3]] =
    [(3, [.seq [1, 3], .seq [5, 3]]), (4, [.seq [3, 4]])] := by decide

end Criteria
end SeqSlice
