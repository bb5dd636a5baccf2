import Mathlib.Data.List.Forall2

/-! Computations that may fail, one after the other and along a list. -/

set_option autoImplicit false
namespace SeqSlice

theorem bind_eq_ok_iff {ε α β : Type} {first : Except ε α} {next : α → Except ε β} {value : β} :
    (first >>= next) = .ok value ↔ ∃ found, first = .ok found ∧ next found = .ok value := by
  cases first <;> simp [bind, Except.bind]

theorem bind_eq_error_iff {ε α β : Type} {first : Except ε α} {next : α → Except ε β} {error : ε} :
    (first >>= next) = .error error ↔
      first = .error error ∨ ∃ found, first = .ok found ∧ next found = .error error := by
  cases first <;> simp [bind, Except.bind]

theorem throw_ne_ok {ε α : Type} {error : ε} {value : α} : (throw error : Except ε α) ≠ .ok value :=
  nofun

theorem map_eq_ok_iff {ε α β : Type} {change : α → β} {result : Except ε α} {value : β} :
    result.map change = .ok value ↔ ∃ found, result = .ok found ∧ change found = value := by
  cases result <;> simp [Except.map]

theorem mapError_eq_ok_iff {ε η α : Type} {change : ε → η} {result : Except ε α} {value : α} :
    result.mapError change = .ok value ↔ result = .ok value := by
  cases result <;> simp [Except.mapError]

theorem mapError_eq_error_iff {ε η α : Type} {change : ε → η} {result : Except ε α} {error : η} :
    result.mapError change = .error error ↔ ∃ cause, result = .error cause ∧ change cause = error := by
  cases result <;> simp [Except.mapError]

theorem mapM_eq_ok_iff {ε α β : Type} {work : α → Except ε β} {values : List α} {results : List β} :
    values.mapM work = .ok results ↔
      List.Forall₂ (fun value result => work value = .ok result) values results := by
  induction values generalizing results with
  | nil => simp [pure, Except.pure, eq_comm]
  | cons value rest ih =>
      simp only [List.mapM_cons, bind_eq_ok_iff, List.forall₂_cons_left_iff, ih, pure, Except.pure,
        Except.ok.injEq]
      grind

theorem exists_mapM_eq_ok_iff {ε α β : Type} {work : α → Except ε β} {values : List α} :
    (∃ results, values.mapM work = .ok results) ↔ ∀ value ∈ values, ∃ result, work value = .ok result := by
  simp only [mapM_eq_ok_iff]
  induction values with
  | nil => simp
  | cons value rest ih =>
      rw [List.forall_mem_cons, ← ih]
      constructor
      · rintro ⟨_, _ | ⟨first, others⟩⟩
        exact ⟨⟨_, first⟩, _, others⟩
      · rintro ⟨⟨result, first⟩, results, others⟩
        exact ⟨result :: results, .cons first others⟩

theorem exists_of_mapM_eq_error {ε α β : Type} {work : α → Except ε β} {values : List α} {error : ε}
    (failed : values.mapM work = .error error) : ∃ value ∈ values, work value = .error error := by
  induction values with
  | nil => cases failed
  | cons value rest ih =>
      rw [List.mapM_cons] at failed
      rcases bind_eq_error_iff.mp failed with here | ⟨result, _, failed⟩
      · exact ⟨value, List.mem_cons_self, here⟩
      · rcases bind_eq_error_iff.mp failed with later | ⟨_, _, done⟩
        · obtain ⟨other, listed, there⟩ := ih later
          exact ⟨other, List.mem_cons_of_mem _ listed, there⟩
        · cases done

theorem exists_of_forall₂ {α β : Type} {related : α → β → Prop} {values : List α} {results : List β}
    (each : List.Forall₂ related values results) {result : β} (member : result ∈ results) :
    ∃ value ∈ values, related value result := by
  induction each with
  | nil => cases member
  | cons here _ ih =>
      rcases List.mem_cons.mp member with rfl | later
      · exact ⟨_, List.mem_cons_self, here⟩
      · obtain ⟨value, listed, same⟩ := ih later
        exact ⟨value, List.mem_cons_of_mem _ listed, same⟩

theorem exists_of_mapM_eq_ok {ε α β : Type} {work : α → Except ε β} {values : List α}
    {results : List β} (done : values.mapM work = .ok results) {result : β}
    (member : result ∈ results) : ∃ value ∈ values, work value = .ok result :=
  exists_of_forall₂ (mapM_eq_ok_iff.mp done) member

theorem mapM_eq_some_iff {α β : Type} {work : α → Option β} {values : List α} {results : List β} :
    values.mapM work = some results ↔
      List.Forall₂ (fun value result => work value = some result) values results := by
  induction values generalizing results with
  | nil => simp [eq_comm]
  | cons value rest ih =>
      simp only [List.mapM_cons, Option.bind_eq_bind, Option.bind_eq_some_iff,
        List.forall₂_cons_left_iff, ih, Option.pure_def, Option.some.injEq]
      grind

end SeqSlice
