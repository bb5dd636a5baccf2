import SeqSlice.Text.Blank
import SeqSlice.Text.Numeral
import Mathlib.Data.List.Basic

/-! Numerals are read back as they are written. -/

set_option autoImplicit false
namespace SeqSlice.Text

theorem digit?_of_isDigit {c : Char} (digit : c.isDigit = true) :
    digit? c = some (c.toNat - '0'.toNat) := by
  have range : 48 ≤ c.val ∧ c.val ≤ 57 := by simpa [Char.isDigit] using digit
  exact if_pos range

theorem isBlank_of_isDigit {c : Char} (digit : c.isDigit = true) : isBlank c = false := by
  rw [Char.isDigit_iff_toNat] at digit
  have range : 48 ≤ c.toNat ∧ c.toNat ≤ 57 := digit
  simp only [isBlank, Bool.or_eq_false_iff, Bool.and_eq_false_iff, decide_eq_false_iff_not,
    beq_eq_false_iff_ne]
  omega

theorem digitsFrom_of_digits {text : List Char} (digits : ∀ c ∈ text, c.isDigit = true) (value : Nat) :
    digitsFrom value text = some (Nat.ofDigitChars 10 text value) := by
  induction text generalizing value with
  | nil => rfl
  | cons c rest ih =>
      obtain ⟨first, others⟩ := List.forall_mem_cons.mp digits
      rw [digitsFrom, digit?_of_isDigit first, Option.bind_some, ih others, Nat.ofDigitChars_cons]

theorem isDigit_of_mem_toDigits {value : Nat} {c : Char} (member : c ∈ Nat.toDigits 10 value) :
    c.isDigit = true := Nat.isDigit_of_mem_toDigits (by decide) (by decide) member

theorem natural?_toDigits (value : Nat) : natural? (Nat.toDigits 10 value) = some value := by
  have digits : ∀ c ∈ Nat.toDigits 10 value, c.isDigit = true := fun _ => isDigit_of_mem_toDigits
  have read := digitsFrom_of_digits digits 0
  rw [Nat.ofDigitChars_ten_toDigits] at read
  unfold natural?
  split
  · next none => exact absurd none Nat.toDigits_ne_nil
  · exact read

theorem toList_toString_int (value : Int) : (toString value).toList =
    if value < 0 then '-' :: Nat.toDigits 10 value.natAbs else Nat.toDigits 10 value.natAbs := by
  cases value with
  | ofNat magnitude => simp [Int.toString_eq_repr, Int.repr, Nat.repr_eq_ofList_toDigits]
  | negSucc magnitude =>
      simp [Int.toString_eq_repr, Int.repr, Nat.repr_eq_ofList_toDigits, Int.negSucc_lt_zero]

theorem integer?_toString (value : Int) : integer? (toString value).toList = some value := by
  rw [toList_toString_int]
  -- What a numeral without a sign begins with is a digit, so neither sign can be read off it.
  by_cases negative : value < 0
  · rw [if_pos negative, integer?, natural?_toDigits]
    have same : -(value.natAbs : Int) = value := by omega
    exact congrArg some same
  · rw [if_neg negative]
    unfold integer?
    split
    · next rest signed =>
        have first : '-' ∈ Nat.toDigits 10 value.natAbs := by simp [signed]
        cases isDigit_of_mem_toDigits first
    · next rest signed =>
        have first : '+' ∈ Nat.toDigits 10 value.natAbs := by simp [signed]
        cases isDigit_of_mem_toDigits first
    · rw [natural?_toDigits]
      exact congrArg some (Int.natAbs_of_nonneg (Int.not_lt.mp negative))

theorem word32?_toString {value : Int} (inRange : isWord32 value = true) :
    word32? (toString value).toList = some value := by
  rw [word32?, integer?_toString, Option.filter_some, if_pos inRange]

theorem of_mem_toString_int {value : Int} {c : Char} (member : c ∈ (toString value).toList) :
    c = '-' ∨ c.isDigit = true := by
  rw [toList_toString_int] at member
  split at member
  · exact (List.mem_cons.mp member).imp_right isDigit_of_mem_toDigits
  · exact .inr (isDigit_of_mem_toDigits member)

end SeqSlice.Text
