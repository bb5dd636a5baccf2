/-! Decimal numerals as they are read from text. -/

set_option autoImplicit false
namespace SeqSlice.Text

def digit? (c : Char) : Option Nat :=
  if '0' ≤ c ∧ c ≤ '9' then some (c.toNat - '0'.toNat) else none

def digitsFrom (value : Nat) : List Char → Option Nat
  | [] => some value
  | c :: rest => (digit? c).bind fun d => digitsFrom (10 * value + d) rest

def natural? : List Char → Option Nat
  | [] => none
  | text => digitsFrom 0 text

def integer? : List Char → Option Int
  | '-' :: rest => (natural? rest).map fun n => -(n : Int)
  | '+' :: rest => (natural? rest).map Int.ofNat
  | text => (natural? text).map Int.ofNat

def isWord32 (value : Int) : Bool := decide (-2147483648 ≤ value) && decide (value ≤ 2147483647)

def word32? (text : List Char) : Option Int := (integer? text).filter isWord32

end SeqSlice.Text
