/-! Rounding to double precision. A number that is not negative is given by the
multiple of the smallest positive one that it is, so all of it is arithmetic on
natural numbers. -/

set_option autoImplicit false
namespace SeqSlice.Double

/-- The quotient rounded to an integer; a half goes to the even neighbour. -/
def roundQuotient (num den : Nat) : Nat :=
  let quotient := num / den
  let twice := 2 * (num % den)
  if twice < den then quotient
  else if den < twice then quotient + 1
  else quotient + quotient % 2

/-- The quotient rounded to an integer of at most 53 significant binary digits. -/
def nearest (num den : Nat) : Nat :=
  let unit := Nat.pow 2 ((num / den).log2 - 52)
  unit * roundQuotient num (unit * den)

def limit : Nat := Nat.pow 2 1024

def scale : Nat := Nat.pow 2 1074

/-- The number with these digits, `size` of them, times a power of ten, as a multiple
of the smallest positive number. Absent if it is infinite. -/
def ofDecimal? (digits size : Nat) (power : Int) : Option Nat :=
  -- No power is computed where the number is surely infinite or rounded to zero.
  if digits = 0 ∨ power + size < -330 then some 0
  else if 310 < power + size then none
  else
    let multiple := match power with
      | .ofNat places => nearest (digits * scale * Nat.pow 10 places) 1
      | .negSucc places => nearest (digits * scale) (Nat.pow 10 (places + 1))
    if multiple < limit * scale then some multiple else none

def isProductInfinite (first second : Nat) : Bool :=
  decide (limit ≤ nearest (nearest first 1 * nearest second 1) 1)

end SeqSlice.Double
