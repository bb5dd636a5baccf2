/-! JSON values. Objects keep their fields in the order of the text, repeated
keys included, because a reader of records may refuse a repetition. What is well
formed but stands for no value has a place among the values, because a reader may
skip it. -/

set_option autoImplicit false
namespace SeqSlice

inductive Json where
  | null
  | bool (value : Bool)
  /-- A numeral without fraction and exponent, other than `-0`. -/
  | int (value : Int)
  | decimal (numeral : String)
  | text (value : String)
  | list (items : List Json)
  | object (fields : List (String × Json))
  /-- A text or an object with half a surrogate pair in the text or in a key, or a
  number that is too large. -/
  | unreadable
  deriving Repr, Inhabited

namespace Json

def maxId : Nat := 4294967295

def bool? : Json → Option Bool
  | .bool value => some value
  | _ => none

def text? : Json → Option String
  | .text value => some value
  | _ => none

def int? : Json → Option Int
  | .int value => some value
  | _ => none

def nat? : Json → Option Nat
  | .int (.ofNat value) => some value
  | _ => none

def id? (json : Json) : Option Nat := json.nat?.filter fun value => value ≤ maxId

def list? : Json → Option (List Json)
  | .list items => some items
  | _ => none

def listOf? {α : Type} (read : Json → Option α) (json : Json) : Option (List α) :=
  json.list?.bind fun items => items.mapM read

def field? (json : Json) (key : String) : Option Json :=
  match json with
  | .object fields => (fields.reverse.find? fun field => field.1 == key).map (·.2)
  | _ => none

def option? {α : Type} (read : Json → Option α) : Json → Option (Option α)
  | .null => some none
  | json => (read json).map some

def ofNat (value : Nat) : Json := .int value

def ofOption {α : Type} (write : α → Json) : Option α → Json
  | none => .null
  | some value => write value

def ofList {α : Type} (write : α → Json) (values : List α) : Json := .list (values.map write)

mutual

/-- Of repeated keys in any object, only the last field is kept. -/
def lastWins : Json → Json
  | .list items => .list (lastWinsList items)
  | .object fields => .object (lastWinsFields fields)
  | json => json

def lastWinsList : List Json → List Json
  | [] => []
  | first :: rest => lastWins first :: lastWinsList rest

def lastWinsFields : List (String × Json) → List (String × Json)
  | [] => []
  | (key, value) :: rest =>
      if rest.any (fun field => field.1 == key) then lastWinsFields rest
      else (key, lastWins value) :: lastWinsFields rest

end

mutual

/-- All of the value can be read, and its containers are nested at most this deep. -/
def isReadable (depth : Nat) : Json → Bool
  | .unreadable => false
  | .list items => decide (0 < depth) && areReadable (depth - 1) items
  | .object fields => decide (0 < depth) && areFieldsReadable (depth - 1) fields
  | _ => true

def areReadable (depth : Nat) : List Json → Bool
  | [] => true
  | first :: rest => isReadable depth first && areReadable depth rest

def areFieldsReadable (depth : Nat) : List (String × Json) → Bool
  | [] => true
  | (_, value) :: rest => isReadable depth value && areFieldsReadable depth rest

end

end Json
end SeqSlice
