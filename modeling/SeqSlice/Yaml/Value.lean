import SeqSlice.Number.Double
import SeqSlice.Text.Numeral

/-! YAML values, when two of them are the same, and what a plain scalar stands for. -/

set_option autoImplicit false
namespace SeqSlice.Yaml

inductive Value where
  | null
  | bool (value : Bool)
  | int (value : Int)
  | real (numeral : List Char)
  | text (value : String)
  | list (items : List Value)
  | map (pairs : List (Value × Value))
  /-- A value whose type the document names itself. -/
  | tagged (name : String) (value : Value)
  deriving Repr, Inhabited

def digitBelow? (base : Nat) (c : Char) : Option Nat :=
  let digit :=
    if 'a' ≤ c ∧ c ≤ 'f' then some (c.toNat - 'a'.toNat + 10)
    else if 'A' ≤ c ∧ c ≤ 'F' then some (c.toNat - 'A'.toNat + 10)
    else Text.digit? c
  digit.filter (· < base)

def naturalIn? (base : Nat) (text : List Char) : Option Nat :=
  if text.isEmpty then none
  else text.foldlM (fun value c => (digitBelow? base c).map (base * value + ·)) 0

def withoutSign : List Char → List Char
  | '+' :: rest => rest
  | '-' :: rest => rest
  | text => text

def isPadded (text : List Char) : Bool :=
  match withoutSign text with
  | '0' :: second :: rest => (second :: rest).all fun c => (Text.digit? c).isSome
  | _ => false

def magnitude? : List Char → Option Nat
  | '0' :: 'x' :: digits => naturalIn? 16 digits
  | '0' :: 'o' :: digits => naturalIn? 8 digits
  | '0' :: 'b' :: digits => naturalIn? 2 digits
  | digits => naturalIn? 10 digits

def wordSize (bits : Nat) : Nat := Nat.pow 2 bits

def integer? (text : List Char) : Option Int :=
  if isPadded text then none
  else
    match text with
    | '-' :: rest =>
        ((magnitude? rest).filter (· ≤ wordSize 127)).map fun value => -(value : Int)
    | '+' :: rest => ((magnitude? rest).filter (· < wordSize 128)).map Int.ofNat
    | rest => ((magnitude? rest).filter (· < wordSize 128)).map Int.ofNat

def isWord64 (value : Int) : Bool :=
  decide (-Int.ofNat (wordSize 63) ≤ value) && decide (value < Int.ofNat (wordSize 64))

def isDigit (c : Char) : Bool := (Text.digit? c).isSome

def exponent? : List Char → Option Int
  | [] => some 0
  | mark :: rest => if mark == 'e' || mark == 'E' then Text.integer? rest else none

/-- A decimal numeral without sign: its digits as one number, how many there are
behind leading zeros, and the power of ten that they are multiplied by. -/
def decimal? (text : List Char) : Option (Nat × Nat × Int) := do
  let whole := text.takeWhile isDigit
  let behind := text.dropWhile isDigit
  let (fraction, rest) := match behind with
    | '.' :: more => (more.takeWhile isDigit, more.dropWhile isDigit)
    | more => ([], more)
  let digits ← Text.natural? (whole ++ fraction)
  let power ← exponent? rest
  return (digits, ((whole ++ fraction).dropWhile (· == '0')).length, power - fraction.length)

def isInfinity (text : List Char) : Bool :=
  text == ".inf".toList || text == ".Inf".toList || text == ".INF".toList

def isNotANumber (text : List Char) : Bool :=
  text == ".nan".toList || text == ".NaN".toList || text == ".NAN".toList

inductive RealNumber where
  | notANumber
  /-- A multiple of the smallest positive number. Infinity is the one behind the
  largest finite number, and both zeros are the same. -/
  | multiple (count : Int)
  deriving DecidableEq, Repr, Inhabited

namespace RealNumber

def magnitude? (text : List Char) : Option Nat :=
  if isInfinity text then some (Double.limit * Double.scale)
  else (decimal? text).bind fun (digits, size, power) => Double.ofDecimal? digits size power

def ofText? (text : List Char) : Option RealNumber :=
  if isNotANumber text then some .notANumber
  else (magnitude? (withoutSign text)).map fun size =>
    .multiple (if text.head? == some '-' then -(size : Int) else size)

end RealNumber

def isNullName (text : List Char) : Bool :=
  text == "~".toList || text == "null".toList || text == "Null".toList || text == "NULL".toList

def isNull (text : List Char) : Bool := text.isEmpty || isNullName text

def bool? (text : List Char) : Option Bool :=
  if text == "true".toList || text == "True".toList || text == "TRUE".toList then some true
  else if text == "false".toList || text == "False".toList || text == "FALSE".toList then
    some false
  else none

namespace Value

/-- What a plain scalar stands for. Absent for an integer that is too large. -/
def ofPlain? (text : List Char) : Option Value :=
  if isNull text then some .null
  else
    match bool? text, integer? text with
    | some value, _ => some (.bool value)
    | none, some value => if isWord64 value then some (.int value) else none
    | none, none =>
        some (if !isPadded text && (RealNumber.ofText? text).isSome then .real text
          else .text (String.ofList text))

def untag : Value → Value
  | .tagged _ value => value.untag
  | value => value

def text? : Value → Option String
  | .text value => some value
  | _ => none

def bool? : Value → Option Bool
  | .bool value => some value
  | _ => none

def listOf? {α : Type} (read : Value → Option α) : Value → Option (List α)
  | .list items => items.mapM read
  | _ => none

/-- The exclamation mark before a name does not count, unless it is the name. -/
def bareName (name : String) : List Char :=
  match name.toList with
  | '!' :: first :: rest => first :: rest
  | letters => letters

mutual

/-- Numbers are compared as they are read, and the order of pairs does not count. -/
def same : Value → Value → Bool
  | .null, .null => true
  | .bool first, .bool second => first == second
  | .int first, .int second => first == second
  | .real first, .real second => RealNumber.ofText? first == RealNumber.ofText? second
  | .text first, .text second => first == second
  | .list first, .list second => sameItems first second
  | .map first, .map second => first.length == second.length && samePairs first second
  | .tagged name first, .tagged other second => bareName name == bareName other && same first second
  | _, _ => false

def sameItems : List Value → List Value → Bool
  | [], [] => true
  | first :: rest, second :: others => same first second && sameItems rest others
  | _, _ => false

def samePairs : List (Value × Value) → List (Value × Value) → Bool
  | [], _ => true
  | (key, value) :: rest, others =>
      others.any (fun other => same key other.1 && same value other.2) && samePairs rest others

end

mutual

def isEqual : Value → Value → Bool
  | .null, .null => true
  | .bool first, .bool second => first == second
  | .int first, .int second => first == second
  | .real first, .real second => first == second
  | .text first, .text second => first == second
  | .list first, .list second => areEqual first second
  | .map first, .map second => arePairsEqual first second
  | .tagged name first, .tagged other second => name == other && isEqual first second
  | _, _ => false

def areEqual : List Value → List Value → Bool
  | [], [] => true
  | first :: rest, second :: others => isEqual first second && areEqual rest others
  | _, _ => false

def arePairsEqual : List (Value × Value) → List (Value × Value) → Bool
  | [], [] => true
  | (key, value) :: rest, (other, second) :: others =>
      isEqual key other && isEqual value second && arePairsEqual rest others
  | _, _ => false

end

mutual

theorem isEqual_iff : ∀ first second : Value, isEqual first second = true ↔ first = second
  | .null, second => by cases second <;> simp [isEqual]
  | .bool _, second => by cases second <;> simp [isEqual]
  | .int _, second => by cases second <;> simp [isEqual]
  | .real _, second => by cases second <;> simp [isEqual]
  | .text _, second => by cases second <;> simp [isEqual]
  | .list items, second => by cases second <;> simp [isEqual, areEqual_iff items]
  | .map pairs, second => by cases second <;> simp [isEqual, arePairsEqual_iff pairs]
  | .tagged _ value, second => by cases second <;> simp [isEqual, isEqual_iff value]

theorem areEqual_iff : ∀ first second : List Value, areEqual first second = true ↔ first = second
  | [], second => by cases second <;> simp [areEqual]
  | first :: rest, second => by
      cases second <;> simp [areEqual, isEqual_iff first, areEqual_iff rest]

theorem arePairsEqual_iff : ∀ first second : List (Value × Value),
    arePairsEqual first second = true ↔ first = second
  | [], second => by cases second <;> simp [arePairsEqual]
  | (key, value) :: rest, second => by
      cases second <;>
        simp [arePairsEqual, isEqual_iff key, isEqual_iff value, arePairsEqual_iff rest, Prod.ext_iff]

end

instance : DecidableEq Value := fun first second =>
  decidable_of_iff _ (isEqual_iff first second)

mutual

def isUntagged : Value → Bool
  | .list items => areUntagged items
  | .map pairs => arePairsUntagged pairs
  | .tagged _ _ => false
  | _ => true

def areUntagged : List Value → Bool
  | [] => true
  | first :: rest => isUntagged first && areUntagged rest

def arePairsUntagged : List (Value × Value) → Bool
  | [] => true
  | (key, value) :: rest => isUntagged key && isUntagged value && arePairsUntagged rest

end

end Value
end SeqSlice.Yaml
