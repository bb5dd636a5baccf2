import Mathlib.Data.List.DropRight
import SeqSlice.Text.Blank
import SeqSlice.Text.Cut

/-! Where the characters of the parts of a text come from, and which parts a text has that
was put together. A part has no other characters than the text, and the mark at which the
text is cut is not among those of the part that is cut off. -/

set_option autoImplicit false
namespace SeqSlice.Text

theorem of_mem_splitOnP {isMark : Char → Bool} {text word : List Char}
    (member : word ∈ text.splitOnP isMark) : ∀ c ∈ word, c ∈ text ∧ isMark c = false := by
  induction text generalizing word with
  | nil =>
      rw [List.splitOnP_nil, List.mem_singleton] at member
      simp [member]
  | cons first rest ih =>
      rw [List.splitOnP_cons_eq_if_modifyHead] at member
      have later {other : List Char} (inside : other ∈ rest.splitOnP isMark) (c : Char)
          (inWord : c ∈ other) : c ∈ first :: rest ∧ isMark c = false :=
        ⟨List.mem_cons_of_mem _ (ih inside c inWord).1, (ih inside c inWord).2⟩
      split at member
      · rcases List.mem_cons.mp member with rfl | inside
        · simp
        · exact later inside
      · next solid =>
          -- The character joins the first word of the rest.
          obtain ⟨head, words, split⟩ := List.exists_cons_of_ne_nil (List.splitOnP_ne_nil isMark rest)
          rw [split, List.modifyHead_cons] at member
          rcases List.mem_cons.mp member with rfl | inside
          · intro c inWord
            rcases List.mem_cons.mp inWord with rfl | inHead
            · exact ⟨List.mem_cons_self, by simpa using solid⟩
            · exact later (split ▸ List.mem_cons_self) c inHead
          · exact later (split ▸ List.mem_cons_of_mem _ inside)

theorem of_mem_splitOn {mark : Char} {text word : List Char} (member : word ∈ text.splitOn mark) :
    mark ∉ word ∧ word ⊆ text := by
  have inside := of_mem_splitOnP member
  exact ⟨fun marked => by simpa using (inside mark marked).2, fun c inWord => (inside c inWord).1⟩

theorem subset_of_mem_words {text word : List Char} (member : word ∈ words text) : word ⊆ text :=
  fun c inWord => (of_mem_splitOnP (List.mem_filter.mp member).1 c inWord).1

theorem trim_subset (text : List Char) : trim text ⊆ text := by
  have ends (text : List Char) : trimEnd text ⊆ text := by
    intro c member
    exact List.mem_reverse.mp ((List.dropWhile_suffix _).subset (List.mem_reverse.mp member))
  exact fun c member => (List.dropWhile_suffix _).subset (ends _ member)

theorem trimStart_eq_self_of_prefix {text front : List Char} (kept : trimStart text = text)
    (leads : front <+: text) : trimStart front = front := by
  rw [trimStart, List.dropWhile_eq_self_iff] at kept ⊢
  intro nonempty
  rw [leads.getElem nonempty]
  exact kept (nonempty.trans_le leads.length_le)

theorem trim_trim (text : List Char) : trim (trim text) = trim text := by
  have kept : trimStart (trimStart text) = trimStart text := List.dropWhile_idempotent _ _
  have ended : trimEnd (trim text) = trim text := List.rdropWhile_idempotent _ _
  have begins : trimStart (trim text) = trim text :=
    trimStart_eq_self_of_prefix kept (List.rdropWhile_prefix _ _)
  rw [trim, begins, ended]

theorem cutLast_eq_none {mark : Char} {text : List Char} :
    cutLast mark text = none ↔ mark ∉ text := by
  induction text with
  | nil => simp [cutLast]
  | cons c rest ih =>
      rw [cutLast]
      cases found : cutLast mark rest with
      | some parts => simp [← ih, found]
      | none =>
          have absent := ih.mp found
          by_cases same : c = mark <;> simp [same, absent, Ne.symm]

theorem notMem_of_cutLast {mark : Char} {text left right : List Char}
    (cut : cutLast mark text = some (left, right)) : mark ∉ right := by
  induction text generalizing left with
  | nil => simp [cutLast] at cut
  | cons c rest ih =>
      rw [cutLast] at cut
      cases found : cutLast mark rest with
      | some parts =>
          simp only [found, Option.some.injEq, Prod.mk.injEq] at cut
          obtain ⟨_, rfl⟩ := cut
          exact ih found
      | none =>
          have absent := cutLast_eq_none.mp found
          by_cases same : c = mark
          · simp only [found, if_pos same, Option.some.injEq, Prod.mk.injEq] at cut
            obtain ⟨_, rfl⟩ := cut
            exact absent
          · simp [found, same] at cut

theorem cutFirst_append {mark : Char} {left : List Char} (unmarked : mark ∉ left)
    (right : List Char) : cutFirst mark (left ++ mark :: right) = some (left, right) := by
  induction left with
  | nil => simp [cutFirst]
  | cons c rest ih =>
      obtain ⟨different, further⟩ := List.ne_and_not_mem_of_not_mem_cons unmarked
      rw [List.cons_append, cutFirst, if_neg different.symm, ih further, Option.map_some]

theorem append_mark_inj {mark : Char} {left other right others : List Char}
    (unmarked : mark ∉ left) (unmarkedToo : mark ∉ other) :
    left ++ mark :: right = other ++ mark :: others ↔ left = other ∧ right = others := by
  constructor
  · intro same
    have cut := cutFirst_append unmarked right
    rw [same, cutFirst_append unmarkedToo, Option.some.injEq, Prod.mk.injEq] at cut
    exact ⟨cut.1.symm, cut.2.symm⟩
  · rintro ⟨rfl, rfl⟩
    rfl

def IsTrimmed (text : List Char) : Prop :=
  (∀ c ∈ text.head?, isBlank c = false) ∧ ∀ c ∈ text.getLast?, isBlank c = false

theorem trim_eq_self {text : List Char} (trimmed : IsTrimmed text) : trim text = text := by
  have begins : trimStart text = text := by
    rw [trimStart, List.dropWhile_eq_self_iff]
    intro nonempty
    simpa using trimmed.1 text[0] (by simp [List.head?_eq_getElem?, nonempty])
  have ended : trimEnd text = text := by
    rw [show trimEnd text = text.rdropWhile isBlank from rfl, List.rdropWhile_eq_self_iff]
    intro nonempty
    simpa using trimmed.2 _ (List.getLast?_eq_some_getLast nonempty)
  rw [trim, begins, ended]

theorem cutLast_append {mark : Char} {right : List Char} (unmarked : mark ∉ right)
    (left : List Char) : cutLast mark (left ++ mark :: right) = some (left, right) := by
  induction left with
  | nil => simp [cutLast, cutLast_eq_none.mpr unmarked]
  | cons c rest ih => rw [List.cons_append, cutLast, ih]

theorem words_append_blank {blank : Char} (isBlank : isBlank blank = true) (front rest : List Char) :
    words (front ++ blank :: rest) = words front ++ words rest := by
  rw [words, List.splitOnP_append_cons front rest isBlank, List.filter_append, words, words]

theorem words_of_solid {word : List Char} (nonempty : word ≠ [])
    (solid : ∀ c ∈ word, isBlank c = false) :
    words word = [word] := by
  rw [words, List.splitOnP_eq_singleton solid]
  simp [nonempty]

theorem head?_words {text : List Char} (begins : text.takeWhile (!isBlank ·) ≠ []) :
    (words text).head? = some (text.takeWhile (!isBlank ·)) := by
  have solid : ∀ c ∈ text.takeWhile (!isBlank ·), isBlank c = false := fun c member => by
    simpa using List.mem_takeWhile_imp member
  have word := words_of_solid begins solid
  cases behind : text.dropWhile (!isBlank ·) with
  | nil =>
      have whole := List.takeWhile_append_dropWhile (p := (!isBlank ·)) (l := text)
      rw [behind, List.append_nil] at whole
      rw [whole] at word ⊢
      simp [word]
  | cons blank rest =>
      have stops : isBlank blank = true := by
        have := List.head_dropWhile_not (!isBlank ·) (l := text) (by simp [behind])
        simpa [behind] using this
      have whole := List.takeWhile_append_dropWhile (p := (!isBlank ·)) (l := text)
      rw [behind] at whole
      conv_lhs => rw [← whole, words_append_blank stops, word]
      rfl

end SeqSlice.Text
