import SeqSlice.Json.Parser
import SeqSlice.Program.Check

/-! The JSON form of a listing.

A record is an object, whose unknown fields are skipped and whose known ones may
stand once only, or the list of its fields in order. Statements are objects
only, because the fields of their action stand beside their own. -/

set_option autoImplicit false
namespace SeqSlice
open Json (maxId)

structure Record where
  fields : List (String × Json)
  positional : Bool

namespace Record

/-- Fails on a repeated field, on a list longer than the names, and on a value
that is neither object nor list. -/
def read? (names : List String) : Json → Option Record
  | .object fields =>
      let known := fields.filter fun field => names.contains field.1
      if (known.map (·.1)).Nodup then some ⟨known, false⟩ else none
  | .list items =>
      if items.length ≤ names.length then some ⟨names.zip items, true⟩ else none
  | _ => none

def field? (record : Record) (name : String) : Option Json := record.fields.lookup name

def required {α : Type} (record : Record) (name : String) (read : Json → Option α) : Option α :=
  (record.field? name).bind read

def optional {α : Type} (record : Record) (name : String) (default : α)
    (read : Json → Option α) : Option α :=
  match record.field? name with
  | none => some default
  | some json => read json

end Record

def Class.ofJson? (json : Json) : Option Class := do
  let record ← Record.read?
    ["id", "name", "super_class", "interfaces", "is_interface", "is_library"] json
  return {
    id := ← record.required "id" Json.id?
    name := ← record.required "name" Json.text?
    superClass := ← record.optional "super_class" none (Json.option? Json.id?)
    interfaces := ← record.optional "interfaces" [] (Json.listOf? Json.id?)
    isInterface := ← record.optional "is_interface" false Json.bool?
    isLibrary := ← record.optional "is_library" false Json.bool? }

def Method.ofJson? (json : Json) : Option Method := do
  let record ← Record.read?
    ["id", "class", "name", "signature", "is_static", "is_abstract", "body"] json
  return {
    id := ← record.required "id" Json.id?
    cls := ← record.required "class" Json.id?
    name := ← record.required "name" Json.text?
    signature := ← record.optional "signature" "" Json.text?
    isStatic := ← record.optional "is_static" false Json.bool?
    isAbstract := ← record.optional "is_abstract" false Json.bool?
    body := ← record.optional "body" [] (Json.listOf? Json.id?) }

def Invoke.ofName? : String → Option Invoke
  | "static" => some .static
  | "special" => some .special
  | "virtual" => some .virtual
  | "interface" => some .interface
  | _ => none

def Invoke.ofJson? : Json → Option Invoke
  | .text name => ofName? name
  | .object [(name, .null)] => ofName? name
  | .object [(name, .object [])] => ofName? name
  | _ => none

def CallSite.ofJson? (json : Json) : Option CallSite := do
  let record ← Record.read? ["target", "invoke", "receiver", "args", "assigned"] json
  return {
    target := ← record.required "target" Json.id?
    invoke := ← record.required "invoke" Invoke.ofJson?
    receiver := ← record.optional "receiver" none (Json.option? Json.text?)
    args := ← record.optional "args" [] (Json.listOf? Json.text?)
    assigned := ← record.optional "assigned" none (Json.option? Json.text?) }

inductive ActionKind where
  | plain
  | call
  | new
  | catchEntry
  | nop
  deriving DecidableEq, Repr, Inhabited

def ActionKind.ofJson? : Json → Option ActionKind
  | .text "plain" | .int 0 => some .plain
  | .text "call" | .int 1 => some .call
  | .text "new" | .int 2 => some .new
  | .text "catch_entry" | .int 3 => some .catchEntry
  | .text "nop" | .int 4 => some .nop
  | _ => none

def Action.ofFields? (fields : List (String × Json)) : Option Action := do
  let kinds := fields.filter fun field => field.1 == "kind"
  let [(_, kind)] := kinds | none
  let others := fields.filter fun field => field.1 != "kind"
  match ← ActionKind.ofJson? kind with
  | .plain => return .plain
  | .catchEntry => return .catchEntry
  | .nop => return .nop
  | .call => return .call (← CallSite.ofJson? (.object others))
  | .new =>
      let record ← Record.read? ["local", "class"] (.object others)
      return .new (← record.required "local" Json.text?) (← record.required "class" Json.id?)

def Json.line? (json : Json) : Option Int := json.int?.filter Text.isWord32

/-- Containers are nested at most this deep where they are read. Those of a statement
lie in the statement, in the list of statements and in the listing. -/
def readingDepth : Nat := 127

def Point.ofJson? (json : Json) : Option Point := do
  let .object fields := json | none
  let own := ["id", "method", "line", "text"]
  let record ← Record.read? own json
  let others := fields.filter fun field => !own.contains field.1
  -- Any of them may belong to the action, so all of them are read.
  if !Json.areFieldsReadable (readingDepth - 3) others then none
  return {
    id := ← record.required "id" Json.id?
    method := ← record.required "method" Json.id?
    line := ← record.optional "line" (-1) Json.line?
    action := ← Action.ofFields? others
    text := ← record.optional "text" "" Json.text? }

def FlowEdge.ofJson? (json : Json) : Option FlowEdge := do
  let record ← Record.read? ["from", "to", "exceptional"] json
  return {
    source := ← record.required "from" Json.id?
    target := ← record.required "to" Json.id?
    exceptional := ← record.optional "exceptional" false Json.bool? }

def CallEdge.ofJson? (json : Json) : Option CallEdge := do
  let record ← Record.read? ["site", "callee"] json
  return {
    site := ← record.required "site" Json.id?
    callee := ← record.required "callee" Json.id? }

def AllocSite.ofJson? (json : Json) : Option AllocSite := do
  let record ← Record.read? ["id", "point", "class"] json
  return {
    id := ← record.required "id" Json.id?
    point := ← record.required "point" Json.id?
    cls := ← record.required "class" Json.id? }

def PointsTo.ofJson? (json : Json) : Option PointsTo := do
  let record ← Record.read? ["method", "local", "sites"] json
  return {
    method := ← record.required "method" Json.id?
    var := ← record.required "local" Json.text?
    sites := ← record.required "sites" (Json.listOf? Json.id?) }

def Listing.ofJson? (json : Json) : Option Listing := do
  let record ← Record.read?
    ["entry", "classes", "methods", "points", "edges", "calls", "alloc_sites", "points_to"] json
  let readEntry := Json.option? Json.id?
  return {
    entry := ← if record.positional then record.required "entry" readEntry
      else record.optional "entry" none readEntry
    classes := ← record.required "classes" (Json.listOf? Class.ofJson?)
    methods := ← record.required "methods" (Json.listOf? Method.ofJson?)
    points := ← record.required "points" (Json.listOf? Point.ofJson?)
    edges := ← record.optional "edges" [] (Json.listOf? FlowEdge.ofJson?)
    calls := ← record.optional "calls" [] (Json.listOf? CallEdge.ofJson?)
    allocSites := ← record.optional "alloc_sites" [] (Json.listOf? AllocSite.ofJson?)
    pointsTo := ← record.optional "points_to" [] (Json.listOf? PointsTo.ofJson?) }

inductive LoadError where
  | json
  | defect (defect : Defect)
  deriving DecidableEq, Repr, Inhabited

def Program.ofJson (json : Json) : Except LoadError Program :=
  match Listing.ofJson? json with
  | none => .error .json
  | some listing => (Program.ofListing listing).mapError .defect

def Program.parse (text : String) : Except LoadError Program :=
  match Json.parse? text with
  | none => .error .json
  | some json => Program.ofJson json

def Class.toJson (cls : Class) : Json := .object [
  ("id", .ofNat cls.id),
  ("name", .text cls.name),
  ("super_class", .ofOption .ofNat cls.superClass),
  ("interfaces", .ofList .ofNat cls.interfaces),
  ("is_interface", .bool cls.isInterface),
  ("is_library", .bool cls.isLibrary)]

def Method.toJson (method : Method) : Json := .object [
  ("id", .ofNat method.id),
  ("class", .ofNat method.cls),
  ("name", .text method.name),
  ("signature", .text method.signature),
  ("is_static", .bool method.isStatic),
  ("is_abstract", .bool method.isAbstract),
  ("body", .ofList .ofNat method.body)]

def Invoke.name : Invoke → String
  | .static => "static"
  | .special => "special"
  | .virtual => "virtual"
  | .interface => "interface"

def Action.toFields : Action → List (String × Json)
  | .plain => [("kind", .text "plain")]
  | .nop => [("kind", .text "nop")]
  | .catchEntry => [("kind", .text "catch_entry")]
  | .new var cls => [("kind", .text "new"), ("local", .text var), ("class", .ofNat cls)]
  | .call site =>
      [("kind", .text "call"), ("target", .ofNat site.target), ("invoke", .text site.invoke.name)] ++
      (site.receiver.toList.map fun receiver => ("receiver", Json.text receiver)) ++
      (if site.args.isEmpty then [] else [("args", .ofList .text site.args)]) ++
      (site.assigned.toList.map fun assigned => ("assigned", Json.text assigned))

def Point.toJson (point : Point) : Json := .object
  ([("id", .ofNat point.id), ("method", .ofNat point.method), ("line", .int point.line)] ++
    point.action.toFields ++ [("text", .text point.text)])

def FlowEdge.toJson (edge : FlowEdge) : Json := .object [
  ("from", .ofNat edge.source),
  ("to", .ofNat edge.target),
  ("exceptional", .bool edge.exceptional)]

def CallEdge.toJson (call : CallEdge) : Json := .object [
  ("site", .ofNat call.site),
  ("callee", .ofNat call.callee)]

def AllocSite.toJson (site : AllocSite) : Json := .object [
  ("id", .ofNat site.id),
  ("point", .ofNat site.point),
  ("class", .ofNat site.cls)]

def PointsTo.toJson (row : PointsTo) : Json := .object [
  ("method", .ofNat row.method),
  ("local", .text row.var),
  ("sites", .ofList .ofNat row.sites)]

def Listing.toJson (listing : Listing) : Json := .object [
  ("entry", .ofOption .ofNat listing.entry),
  ("classes", .ofList Class.toJson listing.classes),
  ("methods", .ofList Method.toJson listing.methods),
  ("points", .ofList Point.toJson listing.points),
  ("edges", .ofList FlowEdge.toJson listing.edges),
  ("calls", .ofList CallEdge.toJson listing.calls),
  ("alloc_sites", .ofList AllocSite.toJson listing.allocSites),
  ("points_to", .ofList PointsTo.toJson listing.pointsTo)]

end SeqSlice
