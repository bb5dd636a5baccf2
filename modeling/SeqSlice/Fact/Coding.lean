import SeqSlice.Fact.Criteria
import SeqSlice.Json.Basic

/-! The JSON form of facts: the list of their statements, or a name for the
complete match. Sets are written in ascending order. -/

set_option autoImplicit false
namespace SeqSlice

def Json.ofIds (ids : List Nat) : Json := .ofList .ofNat ids

def Json.idsOf? (json : Json) : Option (List Nat) := json.listOf? Json.id?

def Json.ofIdRow (row : Nat × List Nat) : Json := .list [.ofNat row.1, .ofIds (ascending row.2)]

def Json.ofIdRows (rows : List (Nat × List Nat)) : Json :=
  .ofList Json.ofIdRow (rows.mergeSort fun first second => Nat.ble first.1 second.1)

namespace Fact

def ofJson? : Json → Option Fact
  | .text "epsilon" => some .epsilon
  | json => json.idsOf?.map .seq

def toJson : Fact → Json
  | .epsilon => .text "epsilon"
  | .seq points => .ofIds points

def setToJson (facts : List Fact) : Json := .ofList toJson (sorted facts)

def summary (fact : Fact) : Json := .object [
  ("points", .ofIds fact.points),
  ("len", .ofNat fact.length),
  ("head", .ofOption .ofNat fact.head?),
  ("tail", .ofOption .ofNat fact.tail?),
  ("empty", .bool fact.isEmpty),
  ("epsilon", .bool fact.isEpsilon),
  ("zero", .bool fact.isZero)]

end Fact

def Extension.toJson (extension : Extension) : Json :=
  .ofIdRows ((ascending extension.keys).map fun point => (point, extension.before point))

namespace Criteria

def followToJson (criteria : Criteria) (point : PointId) : Json :=
  match criteria.follow point with
  | [] => .null
  | found => Fact.setToJson found

def summary (criteria : Criteria) : List (String × Json) := [
  ("criteria", .ofList Fact.toJson criteria.sequences),
  ("api", .ofIds (ascending criteria.points)),
  ("heads", .ofIds (ascending criteria.heads)),
  ("tails", .ofIds (ascending criteria.tails)),
  ("specified", .ofIds (ascending criteria.specified)),
  ("follow", .ofList (fun point => .list [.ofNat point, criteria.followToJson point])
    ((ascending criteria.points).filter fun point => !(criteria.follow point).isEmpty)),
  ("has_extension", .bool criteria.hasExtension),
  ("extension", criteria.extension.toJson)]

end Criteria
end SeqSlice
