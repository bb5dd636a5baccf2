import SeqSlice.Json.Basic
import SeqSlice.Number.Double
import SeqSlice.Text.Numeral

/-! JSON numerals. Those without fraction and exponent are integers. A numeral that
double precision has no room for is well formed, but it cannot be read. -/

set_option autoImplicit false
namespace SeqSlice.Json

def isDigit (c : Char) : Bool := (Text.digit? c).isSome

structure Numeral where
  whole : List Char
  fraction : List Char
  exponent : Int
  deriving DecidableEq, Repr, Inhabited

def exponent? : List Char → Option Int
  | [] => some 0
  | mark :: rest => if mark == 'e' || mark == 'E' then Text.integer? rest else none

namespace Numeral

/-- No leading zero, no leading plus, digits on both sides of a point. -/
def read? (text : List Char) : Option Numeral := do
  let whole := text.takeWhile isDigit
  let behind := text.dropWhile isDigit
  if whole.isEmpty || (whole.head? == some '0' && 1 < whole.length) then none
  match behind with
  | '.' :: rest =>
      let fraction := rest.takeWhile isDigit
      if fraction.isEmpty then none
      return ⟨whole, fraction, ← exponent? (rest.dropWhile isDigit)⟩
  | rest => return ⟨whole, [], ← exponent? rest⟩

def maxSignificand : Nat := 18446744073709551615

/-- Digits that a significand has no room for before the point only count. -/
def addWhole (significand : Nat) : List Char → Nat × Nat
  | [] => (significand, 0)
  | c :: rest =>
      let next := 10 * significand + (Text.digit? c).getD 0
      if next ≤ maxSignificand then addWhole next rest else (significand, rest.length + 1)

def addFraction (significand places : Nat) : List Char → Nat × Nat
  | [] => (significand, places)
  | c :: rest =>
      let next := 10 * significand + (Text.digit? c).getD 0
      if next ≤ maxSignificand then addFraction next (places + 1) rest else (significand, places)

/-- The significand and its power of ten, each rounded to double precision, have an
infinite product. A power beyond the largest finite one is infinite by itself. -/
def isInfinite (numeral : Numeral) : Bool :=
  let (leading, dropped) := addWhole 0 numeral.whole
  let (significand, places) := addFraction leading 0 numeral.fraction
  let power := numeral.exponent + dropped - places
  significand != 0 && decide (0 ≤ power) &&
    (decide (308 < power) || Double.isProductInfinite significand (Nat.pow 10 power.toNat))

end Numeral

def number? (text : List Char) : Option Json := do
  let negative := text.head? == some '-'
  let body := if negative then text.drop 1 else text
  let numeral ← Numeral.read? body
  if numeral.isInfinite then return .unreadable
  match Text.natural? body with
  | some 0 => return if negative then .decimal (String.ofList text) else .int 0
  | some value => return .int (if negative then -(value : Int) else value)
  | none => return .decimal (String.ofList text)

end SeqSlice.Json
