/-! Cutting a text in two at the first or the last occurrence of a character.
The character itself belongs to neither part. -/

set_option autoImplicit false
namespace SeqSlice.Text

def cutFirst (mark : Char) : List Char → Option (List Char × List Char)
  | [] => none
  | c :: rest =>
      if c = mark then some ([], rest)
      else (cutFirst mark rest).map fun (left, right) => (c :: left, right)

def cutLast (mark : Char) : List Char → Option (List Char × List Char)
  | [] => none
  | c :: rest =>
      match cutLast mark rest with
      | some (left, right) => some (c :: left, right)
      | none => if c = mark then some ([], rest) else none

theorem eq_of_cutFirst {mark : Char} {text left right : List Char}
    (cut : cutFirst mark text = some (left, right)) : text = left ++ mark :: right := by
  induction text generalizing left with
  | nil => simp [cutFirst] at cut
  | cons c rest ih =>
      rw [cutFirst] at cut
      split at cut
      · next same =>
          simp only [Option.some.injEq, Prod.mk.injEq] at cut
          obtain ⟨rfl, rfl⟩ := cut
          simp [same]
      · obtain ⟨⟨first, second⟩, found, same⟩ := Option.map_eq_some_iff.mp cut
        simp only [Prod.mk.injEq] at same
        obtain ⟨rfl, rfl⟩ := same
        simp [ih found]

theorem eq_of_cutLast {mark : Char} {text left right : List Char}
    (cut : cutLast mark text = some (left, right)) : text = left ++ mark :: right := by
  induction text generalizing left with
  | nil => simp [cutLast] at cut
  | cons c rest ih =>
      rw [cutLast] at cut
      split at cut
      · next first second found =>
          simp only [Option.some.injEq, Prod.mk.injEq] at cut
          obtain ⟨rfl, rfl⟩ := cut
          simp [ih found]
      · split at cut
        · next same =>
            simp only [Option.some.injEq, Prod.mk.injEq] at cut
            obtain ⟨rfl, rfl⟩ := cut
            simp [same]
        · simp at cut

end SeqSlice.Text
