import Mathlib.Logic.Relation
import SeqSlice.Proofs.Extension.Discovery

/-! Statements are taken out of an extension relation one by one. Both sides of the
relation are edited and stay in agreement. What may stand before a statement in the end
is what could stand before it at first, with nothing but statements that were taken out
in between; so the order in which they go does not matter. -/

set_option autoImplicit false
namespace SeqSlice

namespace Extension

variable {extension : Extension}

theorem mem_keys_of_mem_before {key point : PointId} (member : point ∈ extension.before key) :
    key ∈ extension.keys := by
  obtain ⟨row, listed, here, _⟩ := mem_before.mp member
  exact mem_keys.mpr ⟨row, listed, here⟩

theorem mem_before_mirror {key point : PointId} :
    key ∈ extension.mirror.before point ↔ point ∈ extension.before key := by
  simp only [mem_before, mirror, List.mem_map, List.mem_eraseDups, List.mem_flatMap]
  constructor
  · rintro ⟨_, ⟨_, _, rfl⟩, rfl, member⟩
    obtain ⟨row, found, rfl⟩ := List.mem_map.mp member
    obtain ⟨listed, holds⟩ := List.mem_filter.mp found
    exact ⟨row, listed, rfl, List.contains_iff_mem.mp holds⟩
  · rintro ⟨row, listed, rfl, member⟩
    refine ⟨_, ⟨point, ⟨row, listed, member⟩, rfl⟩, rfl, ?_⟩
    exact List.mem_map.mpr ⟨row, List.mem_filter.mpr ⟨listed, List.contains_iff_mem.mpr member⟩, rfl⟩

section
variable {taken key point : PointId} {keys others : List PointId}

theorem mem_rows_replace {row : PointId × List PointId} :
    row ∈ (extension.replace taken keys others).rows ↔
      ∃ old ∈ extension.rows, old.1 ≠ taken ∧ row = (old.1,
        if old.1 ∈ keys then (old.2.filter (· != taken) ++ others.filter (· != old.1)).eraseDups
        else old.2) := by
  simp only [replace, List.mem_map, List.mem_filter, bne_iff_ne, List.contains_iff_mem, and_assoc]
  refine exists_congr fun old => and_congr_right fun _ => and_congr_right fun _ => ?_
  split <;> exact eq_comm

theorem mem_keys_replace :
    key ∈ (extension.replace taken keys others).keys ↔ key ∈ extension.keys ∧ key ≠ taken := by
  simp only [mem_keys, mem_rows_replace]
  constructor
  · rintro ⟨_, ⟨old, listed, stays, rfl⟩, rfl⟩
    exact ⟨⟨old, listed, rfl⟩, stays⟩
  · rintro ⟨⟨old, listed, rfl⟩, stays⟩
    exact ⟨_, ⟨old, listed, stays, rfl⟩, rfl⟩

theorem mem_before_replace (rows : key ∈ keys → key ∈ extension.keys) :
    point ∈ (extension.replace taken keys others).before key ↔ key ≠ taken ∧
      (key ∉ keys ∧ point ∈ extension.before key ∨ key ∈ keys ∧
        (point ∈ extension.before key ∧ point ≠ taken ∨ point ∈ others ∧ point ≠ key)) := by
  simp only [mem_before, mem_rows_replace]
  constructor
  · rintro ⟨_, ⟨old, listed, stays, rfl⟩, rfl, member⟩
    refine ⟨stays, ?_⟩
    split at member
    · next edited =>
        simp only [List.mem_eraseDups, List.mem_append, List.mem_filter, bne_iff_ne] at member
        exact .inr ⟨edited, member.imp_left fun ⟨inRow, other⟩ => ⟨⟨old, listed, rfl, inRow⟩, other⟩⟩
    · next untouched => exact .inl ⟨untouched, old, listed, rfl, member⟩
  · rintro ⟨stays, ⟨untouched, old, listed, rfl, inRow⟩ | ⟨edited, member⟩⟩
    · exact ⟨_, ⟨old, listed, stays, rfl⟩, rfl, by rwa [if_neg untouched]⟩
    · have found : ∃ old ∈ extension.rows, old.1 = key ∧
          (point ∈ old.2 ∧ point ≠ taken ∨ point ∈ others ∧ point ≠ key) := by
        rcases member with ⟨⟨old, listed, here, inRow⟩, other⟩ | new
        · exact ⟨old, listed, here, .inl ⟨inRow, other⟩⟩
        · obtain ⟨old, listed, here⟩ := mem_keys.mp (rows edited)
          exact ⟨old, listed, here, .inr new⟩
      obtain ⟨old, listed, rfl, holds⟩ := found
      refine ⟨_, ⟨old, listed, stays, rfl⟩, rfl, ?_⟩
      rw [if_pos edited]
      simpa using holds

end

/-! ## Both sides -/

namespace TwoSided

variable {sides : TwoSided}

def flip (sides : TwoSided) : TwoSided := ⟨sides.mirror, sides.extension⟩

/-- Both sides hold the same pairs, and no statement stands before itself. -/
structure Agree (sides : TwoSided) : Prop where
  mirrored : ∀ key point, point ∈ sides.before key ↔ key ∈ sides.after point
  irreflexive : ∀ point, point ∉ sides.before point

theorem agree_ofExtension (irreflexive : ∀ point, point ∉ extension.before point) :
    (ofExtension extension).Agree where
  mirrored _ _ := mem_before_mirror.symm
  irreflexive := irreflexive

theorem mem_keys_bypass {key point : PointId} :
    key ∈ (sides.bypass point).extension.keys ↔ key ∈ sides.extension.keys ∧ key ≠ point :=
  mem_keys_replace

namespace Agree

theorem flip (agree : sides.Agree) : sides.flip.Agree where
  mirrored key point := (agree.mirrored point key).symm
  irreflexive point stands := agree.irreflexive point ((agree.mirrored point point).mpr stands)

/-- What stood before the statement now stands before all that it stood before. -/
theorem mem_before_bypass (agree : sides.Agree) {taken key point : PointId} :
    point ∈ (sides.bypass taken).before key ↔ key ≠ taken ∧ point ≠ taken ∧
      (point ∈ sides.before key ∨
        taken ∈ sides.before key ∧ point ∈ sides.before taken ∧ point ≠ key) := by
  have rows : key ∈ sides.after taken → key ∈ sides.extension.keys := fun behind =>
    mem_keys_of_mem_before ((agree.mirrored key taken).mpr behind)
  have other : point ∈ sides.before taken → point ≠ taken := fun stands same =>
    agree.irreflexive taken (same ▸ stands)
  change point ∈ (sides.extension.replace taken _ _).before key ↔ _
  rw [mem_before_replace rows, ← agree.mirrored key taken]
  change _ ∧ (_ ∧ point ∈ sides.before key ∨ _ ∧ (point ∈ sides.before key ∧ _ ∨ _)) ↔ _
  by_cases linked : taken ∈ sides.before key <;> grind

theorem mem_after_bypass (agree : sides.Agree) {taken key point : PointId} :
    key ∈ (sides.bypass taken).after point ↔ point ≠ taken ∧ key ≠ taken ∧
      (key ∈ sides.after point ∨
        taken ∈ sides.after point ∧ key ∈ sides.after taken ∧ key ≠ point) :=
  agree.flip.mem_before_bypass

theorem bypass (agree : sides.Agree) (taken : PointId) : (sides.bypass taken).Agree where
  mirrored key point := by
    rw [agree.mem_before_bypass, agree.mem_after_bypass, agree.mirrored key point,
      agree.mirrored key taken, agree.mirrored taken point]
    grind
  irreflexive point stands := by
    obtain ⟨_, _, before | ⟨_, _, other⟩⟩ := agree.mem_before_bypass.mp stands
    · exact agree.irreflexive point before
    · exact other rfl

end Agree
end TwoSided

/-! ## Chains of statements that are taken out -/

/-- The statement may come to stand before the start when the listed statements are
taken out: nothing but these is between the two. -/
inductive Leads (extension : Extension) (taken : List PointId) (start : PointId) :
    PointId → Prop where
  | next {point : PointId} : point ∈ extension.before start → Leads extension taken start point
  | past {middle point : PointId} : Leads extension taken start middle → middle ∈ taken →
      point ∈ extension.before middle → Leads extension taken start point

theorem leads_nil {start point : PointId} :
    extension.Leads [] start point ↔ point ∈ extension.before start := by
  refine ⟨fun leads => ?_, .next⟩
  cases leads with
  | next stands => exact stands
  | past _ member _ => cases member

namespace TwoSided.Agree

variable {sides : TwoSided} (agree : sides.Agree) {first start point : PointId} {rest : List PointId}
include agree

theorem leads_of_bypass (leads : (sides.bypass first).extension.Leads rest start point) :
    sides.extension.Leads (first :: rest) start point := by
  induction leads with
  | next stands =>
      obtain ⟨_, _, direct | ⟨near, onward, _⟩⟩ := agree.mem_before_bypass.mp stands
      · exact .next direct
      · exact .past (.next near) List.mem_cons_self onward
  | @past middle point _ member stands ih =>
      have passed {next : PointId} (stands : next ∈ sides.before middle) :
          sides.extension.Leads (first :: rest) start next :=
        ih.past (List.mem_cons_of_mem _ member) stands
      obtain ⟨_, _, direct | ⟨near, onward, _⟩⟩ := agree.mem_before_bypass.mp stands
      · exact passed direct
      · exact (passed near).past List.mem_cons_self onward

/-- A chain that ends at the statement taken out is broken off one step earlier. -/
theorem leads_bypass (other : start ≠ first)
    (leads : sides.extension.Leads (first :: rest) start point) :
    (point ≠ first → point = start ∨ (sides.bypass first).extension.Leads rest start point) ∧
      (point = first → ∃ last, first ∈ sides.before last ∧
        (last = start ∨ last ∈ rest ∧ (sides.bypass first).extension.Leads rest start last)) := by
  -- From the start or behind a chain, a step that is still there leads on.
  have onward {last next : PointId} (stands : next ∈ (sides.bypass first).before last)
      (arrived : last = start ∨
        last ∈ rest ∧ (sides.bypass first).extension.Leads rest start last) :
      (sides.bypass first).extension.Leads rest start next := by
    rcases arrived with rfl | ⟨member, before⟩
    · exact .next stands
    · exact before.past member stands
  induction leads with
  | @next point stands =>
      refine ⟨fun kept => .inr (.next (agree.mem_before_bypass.mpr ⟨other, kept, .inl stands⟩)), ?_⟩
      rintro rfl
      exact ⟨start, stands, .inl rfl⟩
  | @past middle point _ member stands ih =>
      by_cases same : middle = first
      · subst same
        obtain ⟨last, near, arrived⟩ := ih.2 rfl
        refine ⟨fun kept => ?_, fun again => absurd (again ▸ stands) (agree.irreflexive middle)⟩
        by_cases back : point = last
        · subst back
          exact arrived.imp_right And.right
        · have lastKept : last ≠ middle := fun same => agree.irreflexive middle (same ▸ near)
          exact .inr (onward (agree.mem_before_bypass.mpr
            ⟨lastKept, kept, .inr ⟨near, stands, back⟩⟩) arrived)
      · have inRest := (List.mem_cons.mp member).resolve_left same
        have arrived := (ih.1 same).imp_right fun before => And.intro inRest before
        refine ⟨fun kept => .inr (onward (agree.mem_before_bypass.mpr
          ⟨same, kept, .inl stands⟩) arrived), ?_⟩
        rintro rfl
        exact ⟨middle, stands, arrived⟩

theorem leads_kept (leads : (sides.bypass first).extension.Leads rest start point) :
    start ≠ first ∧ point ≠ first := by
  induction leads with
  | next stands => exact ⟨(agree.mem_before_bypass.mp stands).1, (agree.mem_before_bypass.mp stands).2.1⟩
  | past _ _ stands ih => exact ⟨ih.1, (agree.mem_before_bypass.mp stands).2.1⟩

theorem leads_bypass_iff (other : point ≠ start) :
    (sides.bypass first).extension.Leads rest start point ↔
      start ≠ first ∧ point ≠ first ∧ sides.extension.Leads (first :: rest) start point := by
  constructor
  · intro leads
    exact ⟨(agree.leads_kept leads).1, (agree.leads_kept leads).2, agree.leads_of_bypass leads⟩
  · rintro ⟨startKept, kept, leads⟩
    exact ((agree.leads_bypass startKept leads).1 kept).resolve_left other

omit agree in
theorem mem_keys_bypassAll {key : PointId} {taken : List PointId} :
    key ∈ (sides.bypassAll taken).extension.keys ↔ key ∈ sides.extension.keys ∧ key ∉ taken := by
  induction taken generalizing sides with
  | nil => simp [bypassAll]
  | cons first rest ih =>
      change key ∈ ((sides.bypass first).bypassAll rest).extension.keys ↔ _
      rw [ih, mem_keys_bypass, List.mem_cons, not_or, and_assoc]

theorem mem_before_bypassAll {taken : List PointId} :
    point ∈ (sides.bypassAll taken).before start ↔ start ∉ taken ∧ point ∉ taken ∧ point ≠ start ∧
      sides.extension.Leads taken start point := by
  induction taken generalizing sides with
  | nil =>
      have other : point ∈ sides.before start → point ≠ start := fun stands same =>
        agree.irreflexive start (same ▸ stands)
      rw [leads_nil]
      simpa [bypassAll, before] using other
  | cons first rest ih =>
      change point ∈ ((sides.bypass first).bypassAll rest).before start ↔ _
      rw [ih (agree.bypass first), List.mem_cons, List.mem_cons, not_or, not_or]
      constructor
      · rintro ⟨startKept, kept, other, leads⟩
        obtain ⟨startOther, pointOther, leads⟩ := (agree.leads_bypass_iff other).mp leads
        exact ⟨⟨startOther, startKept⟩, ⟨pointOther, kept⟩, other, leads⟩
      · rintro ⟨⟨startOther, startKept⟩, ⟨pointOther, kept⟩, other, leads⟩
        exact ⟨startKept, kept, other, (agree.leads_bypass_iff other).mpr ⟨startOther, pointOther, leads⟩⟩

end TwoSided.Agree

/-! ## What is left of a relation -/

def Reaches (extension : Extension) : PointId → PointId → Prop :=
  Relation.ReflTransGen fun key point => point ∈ extension.before key

/-- What is left of a relation without the listed statements. -/
structure Without (full : Extension) (taken : List PointId) (rest : Extension) : Prop where
  keys : ∀ key, key ∈ rest.keys ↔ key ∈ full.keys ∧ key ∉ taken
  before : ∀ key point, point ∈ rest.before key ↔
    key ∉ taken ∧ point ∉ taken ∧ point ≠ key ∧ full.Leads taken key point

theorem TwoSided.Agree.without {sides : TwoSided} (agree : sides.Agree) (taken : List PointId) :
    sides.extension.Without taken (sides.bypassAll taken).extension where
  keys _ := mem_keys_bypassAll
  before _ _ := agree.mem_before_bypassAll

section
variable {full rest : Extension} {taken order : List PointId} {start point : PointId}

theorem Leads.mono (leads : full.Leads taken start point)
    (subset : ∀ point ∈ taken, point ∈ order) : full.Leads order start point := by
  induction leads with
  | next stands => exact .next stands
  | past _ member stands ih => exact ih.past (subset _ member) stands

theorem Leads.reaches (leads : full.Leads taken start point) : full.Reaches start point := by
  induction leads with
  | next stands => exact .single stands
  | past _ _ stands ih => exact ih.tail stands

namespace Without

theorem congr (same : ∀ point, point ∈ order ↔ point ∈ taken) (without : full.Without order rest) :
    full.Without taken rest where
  keys key := by rw [without.keys, same]
  before key point := by
    rw [without.before, same, same]
    have leads : full.Leads order key point ↔ full.Leads taken key point :=
      ⟨fun leads => leads.mono fun _ => (same _).mp, fun leads => leads.mono fun _ => (same _).mpr⟩
    rw [leads]

/-- Between statements that stay nothing is lost and nothing gained. -/
theorem reaches_iff (without : full.Without taken rest) (startKept : start ∉ taken)
    (kept : point ∉ taken) : rest.Reaches start point ↔ full.Reaches start point := by
  constructor
  · intro reached
    induction reached with
    | refl => exact .refl
    | tail _ stands ih =>
        obtain ⟨earlier, _, _, leads⟩ := (without.before _ _).mp stands
        exact (ih earlier).trans leads.reaches
  · intro reached
    -- A path that is at a statement taken out has left a statement that stays.
    have split : (point ∉ taken → rest.Reaches start point) ∧
        (point ∈ taken → ∃ last, last ∉ taken ∧ rest.Reaches start last ∧
          full.Leads taken last point) := by
      clear kept
      induction reached with
      | refl => exact ⟨fun _ => .refl, fun out => absurd out startKept⟩
      | @tail middle point _ stands ih =>
          have onward {last : PointId} (lastKept : last ∉ taken) (before : rest.Reaches start last)
              (leads : full.Leads taken last point) (kept : point ∉ taken) :
              rest.Reaches start point := by
            by_cases same : point = last
            · exact same ▸ before
            · exact before.tail ((without.before _ _).mpr ⟨lastKept, kept, same, leads⟩)
          by_cases out : middle ∈ taken
          · obtain ⟨last, lastKept, before, leads⟩ := ih.2 out
            exact ⟨onward lastKept before (leads.past out stands),
              fun _ => ⟨last, lastKept, before, leads.past out stands⟩⟩
          · exact ⟨onward out (ih.1 out) (.next stands),
              fun _ => ⟨middle, out, ih.1 out, .next stands⟩⟩
    exact split.1 kept

end Without
end

end Extension

namespace Supergraph

/-- Taking useless statements out of the relation that was found joins exactly what only
they were between. No statement that went is mentioned any more, those that stay reach
each other as before, and any other order gives the same relation. -/
theorem extension_pruned {program : Program} {specified : List PointId} {plan : CyclePlan}
    {shape config : Config} {graph : Supergraph} {criteria : Criteria} {tags : TagTable}
    {pruned : Extension} (built : build program specified plan shape = .ok graph)
    (found : graph.extension criteria tags config = .ok pruned) :
    ∃ full, graph.fullExtension criteria tags config = .ok full ∧ full.Closed ∧
      (Extension.TwoSided.ofExtension full).Agree ∧
      full.Without (graph.uselessOf criteria tags config full) pruned ∧
      (∀ key point, point ∈ pruned.before key → key ∈ pruned.keys ∧ point ∈ pruned.keys) ∧
      (∀ start ∈ pruned.keys, ∀ point ∈ pruned.keys,
        pruned.Reaches start point ↔ full.Reaches start point) ∧
      ∀ order, (∀ point, point ∈ order ↔ point ∈ graph.uselessOf criteria tags config full) →
        ∀ key, (key ∈ ((Extension.TwoSided.ofExtension full).bypassAll order).extension.keys ↔
            key ∈ pruned.keys) ∧
          ∀ point, point ∈ ((Extension.TwoSided.ofExtension full).bypassAll order).before key ↔
            point ∈ pruned.before key := by
  obtain ⟨full, discovered, outcome⟩ := bind_eq_ok_iff.mp found
  have closed := closed_fullExtension built discovered
  have agree := Extension.TwoSided.agree_ofExtension (irreflexive_fullExtension built discovered)
  have without : full.Without (graph.uselessOf criteria tags config full) pruned :=
    Except.ok.inj outcome ▸ agree.without _
  refine ⟨full, discovered, closed, agree, without, ?_, ?_, ?_⟩
  · intro key point stands
    have row := Extension.mem_keys_of_mem_before stands
    obtain ⟨_, kept, _, leads⟩ := (without.before key point).mp stands
    -- Whatever is mentioned in the pruned relation is mentioned in the one that was found.
    refine ⟨row, (without.keys point).mpr ⟨?_, kept⟩⟩
    cases leads with
    | next before => exact closed _ _ before
    | past _ _ before => exact closed _ _ before
  · exact fun start startRow point row =>
      without.reaches_iff ((without.keys start).mp startRow).2 ((without.keys point).mp row).2
  · intro order same key
    have other := (agree.without order).congr same
    exact ⟨(other.keys key).trans (without.keys key).symm,
      fun point => (other.before key point).trans (without.before key point).symm⟩

end Supergraph

/-- The criterion is below a recursion of two methods, which the entry calls. -/
def spiralListing : Listing where
  entry := some 0
  classes := [⟨0, "Main", none, [], false, false⟩]
  methods := [⟨0, 0, "main", "", true, false, [0, 1]⟩, ⟨1, 0, "even", "", true, false, [2, 3]⟩,
    ⟨2, 0, "odd", "", true, false, [4]⟩, ⟨3, 0, "run", "", true, false, [5]⟩,
    ⟨4, 0, "api", "", true, false, []⟩]
  points := [⟨0, 0, 1, .call ⟨1, .static, none, [], none⟩, ""⟩, ⟨1, 0, 2, .plain, ""⟩,
    ⟨2, 1, 3, .call ⟨2, .static, none, [], none⟩, ""⟩,
    ⟨3, 1, 4, .call ⟨3, .static, none, [], none⟩, ""⟩,
    ⟨4, 2, 5, .call ⟨1, .static, none, [], none⟩, ""⟩,
    ⟨5, 3, 6, .call ⟨4, .static, none, [], none⟩, ""⟩]
  edges := [⟨0, 1, false⟩, ⟨2, 3, false⟩]
  calls := [⟨0, 1⟩, ⟨2, 2⟩, ⟨3, 3⟩, ⟨4, 1⟩, ⟨5, 4⟩]
  allocSites := []
  pointsTo := []

def spiralProgram : Program := ⟨spiralListing, 0, rfl, by decide⟩

def spiralGraph : Supergraph := .assemble spiralProgram [] .empty .default

def spiralTags : TagTable := (TagTable.empty.addMethods spiralProgram).addCycles spiralGraph

theorem spiralTags_eq :
    spiralTags = ⟨[], [(2, .interCycle), (3, .interCycle), (1, .interCycle)], []⟩ := by cbv

/-- The useless calls are on a cycle of the relation. The call of the entry is left. -/
theorem spiralProgram_pruned :
    ∃ full pruned : Extension, Supergraph.build spiralProgram [] .empty .default = .ok spiralGraph ∧
      spiralGraph.extension (.ofList [.seq [5]]) spiralTags .default = .ok pruned ∧
      2 ∈ full.before 4 ∧ 4 ∈ full.before 2 ∧ pruned.before 5 = [0] ∧
      full.Without [2, 3, 4] pruned ∧ full.Reaches 5 0 := by
  have built : Supergraph.build spiralProgram [] .empty .default = .ok spiralGraph :=
    Supergraph.build_empty .default (by simp)
  have rows : spiralGraph.fullExtension (.ofList [.seq [5]]) spiralTags .default =
      .ok ⟨[(5, [3]), (3, [0, 4]), (0, []), (4, [2]), (2, [0, 4])]⟩ := by
    rw [spiralTags_eq]
    cbv
  have found : spiralGraph.extension (.ofList [.seq [5]]) spiralTags .default =
      .ok ⟨[(5, [0]), (0, [])]⟩ := by
    rw [spiralTags_eq]
    cbv
  have useless : spiralGraph.uselessOf (.ofList [.seq [5]]) spiralTags .default
      ⟨[(5, [3]), (3, [0, 4]), (0, []), (4, [2]), (2, [0, 4])]⟩ = [2, 3, 4] := by
    rw [spiralTags_eq]
    cbv
  obtain ⟨full, discovered, _, _, without, _, reaches, _⟩ := Supergraph.extension_pruned built found
  obtain rfl := Except.ok.inj (rows.symm.trans discovered)
  rw [useless] at without
  have reached : Extension.Reaches ⟨[(5, [0]), (0, [])]⟩ 5 0 := .single (by decide)
  exact ⟨_, _, built, found, by decide, by decide, by decide, without,
    (reaches 5 (by decide) 0 (by decide)).mp reached⟩

end SeqSlice
