import SeqSlice.Yaml.Node
import SeqSlice.Yaml.Token

/-! The nodes of a document from its tokens. A node that is missing is an empty
scalar. An anchor has the number of names that were given before it; if a name is
given again, its latest number counts from then on. -/

set_option autoImplicit false
namespace SeqSlice.Yaml

/-- What is left to read, and the names of anchors with their numbers. -/
structure Source where
  tokens : List Token
  names : List (List Char × Nat)
  deriving Inhabited

abbrev Reader := StateT Source Option

namespace Reader

def peek : Reader (Option Token) := do return (← get).tokens.head?

def skip : Reader Unit := modify fun source => { source with tokens := source.tokens.tail }

def declare (name : List Char) : Reader Nat := do
  let source ← get
  let number := source.names.length
  set { source with names := (name, number) :: source.names.filter (·.1 != name) }
  return number

def reference (name : List Char) : Reader Node := do
  match (← get).names.lookup name with
  | some number => return .alias number
  | none => failure

def anchor? : Reader (Option Nat) := do
  match ← peek with
  | some (.anchor name) =>
      skip
      return some (← declare name)
  | _ => return none

def tag? (handles : TagHandles) : Reader (Option Octets) := do
  match ← peek with
  | some (.tag tag) =>
      skip
      match handles.resolve? tag with
      | some octets => return some octets
      | none => failure
  | _ => return none

def properties (handles : TagHandles) : Reader Properties := do
  match ← anchor? with
  | some anchor => return ⟨some anchor, ← tag? handles⟩
  | none =>
      match ← tag? handles with
      | some tag => return ⟨← anchor?, some tag⟩
      | none => return .none

end Reader

/-- Where a node stands. Blocks do not stand inside flow collections, and the items
of a list that is part of a pair of a block map need not be indented. -/
inductive Context where
  | flow
  | block
  | underKey
  deriving DecidableEq, Repr, Inhabited

def depthLimit : Nat := 128

def endsItem (token : Option Token) : Bool := token == some .entry || token == some .closeBlock
def endsPart (token : Option Token) : Bool :=
  token == some .key || token == some .value || token == some .closeBlock
def endsFlow (close : Token) (token : Option Token) : Bool :=
  token == some .comma || token == some close

def deeper (depth : Nat) : Reader Nat := if depth = 0 then failure else return depth - 1

open Reader

mutual

/-- Every call takes a token or leads to one that does. -/
def node (handles : TagHandles) (fuel depth : Nat) (context : Context) : Reader Node :=
  match fuel with
  | 0 => failure
  | fuel + 1 => do
      if let some (.alias name) ← peek then
        skip
        return ← reference name
      let properties ← properties handles
      match ← peek, context with
      | some (.scalar plain text), _ =>
          skip
          return .scalar properties plain text
      | some .openList, _ =>
          skip
          return .list properties (← flowItems handles fuel (← deeper depth) [])
      | some .openMap, _ =>
          skip
          return .map properties (← flowPairs handles fuel (← deeper depth) [])
      | some .openBlockList, .block | some .openBlockList, .underKey =>
          skip
          return .list properties (← blockItems handles fuel (← deeper depth) [])
      | some .openBlockMap, .block | some .openBlockMap, .underKey =>
          skip
          return .map properties (← blockPairs handles fuel (← deeper depth) [])
      | some .entry, .underKey =>
          return .list properties (← looseItems handles fuel (← deeper depth) [])
      | _, _ => if properties.isNone then failure else return .scalar properties true []

def blockItems (handles : TagHandles) (fuel depth : Nat) (items : List Node) :
    Reader (List Node) :=
  match fuel with
  | 0 => failure
  | fuel + 1 => do
      let token ← peek
      skip
      match token with
      | some .entry =>
          let item ← if endsItem (← peek) then pure .missing
            else node handles fuel depth .block
          blockItems handles fuel depth (item :: items)
      | some .closeBlock => return items.reverse
      | _ => failure

/-- Items that are not indented: the list ends before the first other token. -/
def looseItems (handles : TagHandles) (fuel depth : Nat) (items : List Node) :
    Reader (List Node) :=
  match fuel with
  | 0 => failure
  | fuel + 1 => do
      match ← peek with
      | some .entry =>
          skip
          let next ← peek
          let item ← if endsItem next || endsPart next then pure .missing
            else node handles fuel depth .block
          looseItems handles fuel depth (item :: items)
      | _ => return items.reverse

def blockPairs (handles : TagHandles) (fuel depth : Nat) (pairs : List (Node × Node)) :
    Reader (List (Node × Node)) :=
  match fuel with
  | 0 => failure
  | fuel + 1 => do
      let token ← peek
      skip
      match token with
      | some .key =>
          let key ← blockPart handles fuel depth
          let value ← if (← peek) == some .value then
              skip
              blockPart handles fuel depth
            else pure .missing
          blockPairs handles fuel depth ((key, value) :: pairs)
      | some .closeBlock => return pairs.reverse
      | _ => failure

def blockPart (handles : TagHandles) (fuel depth : Nat) : Reader Node :=
  match fuel with
  | 0 => failure
  | fuel + 1 => do
      if endsPart (← peek) then return .missing else node handles fuel depth .underKey

def flowItems (handles : TagHandles) (fuel depth : Nat) (items : List Node) :
    Reader (List Node) :=
  match fuel with
  | 0 => failure
  | fuel + 1 => do
      match ← peek with
      | some .closeList =>
          skip
          return items.reverse
      -- An item may be a single pair, which is then a map of its own.
      | some .key =>
          skip
          let pair ← flowPair handles fuel (← deeper depth)
          moreItems handles fuel depth (.map .none [pair] :: items)
      | _ => moreItems handles fuel depth ((← node handles fuel depth .flow) :: items)

def moreItems (handles : TagHandles) (fuel depth : Nat) (items : List Node) :
    Reader (List Node) :=
  match fuel with
  | 0 => failure
  | fuel + 1 => do
      let token ← peek
      skip
      match token with
      | some .closeList => return items.reverse
      | some .comma => flowItems handles fuel depth items
      | _ => failure

def flowPair (handles : TagHandles) (fuel depth : Nat) : Reader (Node × Node) :=
  match fuel with
  | 0 => failure
  | fuel + 1 => do
      let token ← peek
      -- The token before which the key is missing is taken for the key.
      let key ← if token == some .value || endsFlow .closeList token then
          skip
          pure .missing
        else node handles fuel depth .flow
      return (key, ← flowValue handles fuel depth .closeList)

def flowPairs (handles : TagHandles) (fuel depth : Nat) (pairs : List (Node × Node)) :
    Reader (List (Node × Node)) :=
  match fuel with
  | 0 => failure
  | fuel + 1 => do
      match ← peek with
      | some .closeMap =>
          skip
          return pairs.reverse
      | some .key =>
          skip
          let token ← peek
          let key ← if token == some .value || endsFlow .closeMap token then pure .missing
            else node handles fuel depth .flow
          let value ← flowValue handles fuel depth .closeMap
          morePairs handles fuel depth ((key, value) :: pairs)
      | _ =>
          let key ← node handles fuel depth .flow
          morePairs handles fuel depth ((key, .missing) :: pairs)

def morePairs (handles : TagHandles) (fuel depth : Nat) (pairs : List (Node × Node)) :
    Reader (List (Node × Node)) :=
  match fuel with
  | 0 => failure
  | fuel + 1 => do
      let token ← peek
      skip
      match token with
      | some .closeMap => return pairs.reverse
      | some .comma => flowPairs handles fuel depth pairs
      | _ => failure

def flowValue (handles : TagHandles) (fuel depth : Nat) (close : Token) : Reader Node :=
  match fuel with
  | 0 => failure
  | fuel + 1 => do
      if (← peek) == some .value then
        skip
        if endsFlow close (← peek) then return .missing else node handles fuel depth .flow
      else return .missing

end

def cutDirectives : List Token → List Directive × List Token
  | .directive directive :: rest =>
      let (directives, behind) := cutDirectives rest
      (directive :: directives, behind)
  | tokens => ([], tokens)

def isEnd (tokens : List Token) : Bool := tokens.all (· == .documentEnd)

/-- One document. Directives stand only before one whose start is marked. -/
def Node.ofTokens? (tokens : List Token) : Option Node := do
  let read (handles : TagHandles) (tokens : List Token) : Option Node := do
    let reader := node handles (4 * tokens.length + 4) depthLimit .block
    let (root, source) ← reader.run ⟨tokens, []⟩
    if isEnd source.tokens then some root else none
  let (directives, behind) := cutDirectives tokens
  match behind with
  | .documentStart :: content =>
      if !Directive.isVersionKnown directives then none
      let handles ← Directive.handles? directives
      if isEnd content then some .missing else read handles content
  | content =>
      if !directives.isEmpty then none
      if content.isEmpty then some .missing else read .standard content

end SeqSlice.Yaml
