import SeqSlice.Yaml.Document
import SeqSlice.Yaml.Value

/-! YAML values from nodes. What an alias stands for is read again in its place, so
how often that is done is bounded by the size of the document. -/

set_option autoImplicit false
namespace SeqSlice.Yaml

def commonTag (name : String) : Octets := octetsOf (TagHandles.commonStart ++ name).toList

/-- A scalar without the name that the document has for its type, which changes nothing
about how it is read. A common type is asked for by its tag; other tags make a text. -/
def scalar? (tag : Option Octets) (plain : Bool) (text : List Char) : Option Value :=
  match tag with
  | none => if plain then Value.ofPlain? text else some (.text (String.ofList text))
  | some tag =>
      if tag == commonTag "bool" then (bool? text).map .bool
      else if tag == commonTag "int" then ((integer? text).filter isWord64).map .int
      else if tag == commonTag "float" then (RealNumber.ofText? text).map fun _ => .real text
      else if tag == commonTag "null" then if isNullName text then some .null else none
      else if plain && tag.head? == some 0x21 then Value.ofPlain? text
      else some (.text (String.ofList text))

def addPair (pairs : List (Value × Value)) (key value : Value) : Option (List (Value × Value)) :=
  if pairs.any fun pair => key.same pair.1 then none else some ((key, value) :: pairs)

structure Anchors where
  /-- Of several nodes with one anchor, the first counts. -/
  nodes : List (Nat × Node)
  limit : Nat

/-- Of several nodes with one anchor, the last one to begin counts. -/
def Anchors.ofRoot (root : Node) : Anchors := ⟨root.anchored.reverse, 100 * root.size⟩

abbrev Following := StateT Nat Option

/-- An alias is replaced by its node, which is never an alias itself. -/
def Anchors.follow (anchors : Anchors) (node : Node) : Following Node :=
  match node with
  | .alias anchor => do
      let followed ← get
      if anchors.limit ≤ followed then failure
      set (followed + 1)
      match anchors.nodes.lookup anchor with
      | some target => return target
      | none => failure
  | node => return node

def Node.typeName? (node : Node) : Option String := node.properties.tag.bind ownTagName?

def Value.under (name? : Option String) (value : Value) : Value :=
  match name? with
  | some name => .tagged name value
  | none => value

/-- The value of a node. Its tag says nothing about the nodes inside it. -/
def valueOf (anchors : Anchors) (depth : Nat) (node : Node) : Following Value := do
  let target ← anchors.follow node
  let named := Value.under target.typeName?
  match target, depth with
  | .scalar properties plain text, _ =>
      match scalar? properties.tag plain text with
      | some value => return named value
      | none => failure
  | .list _ items, depth + 1 =>
      return named (.list (← items.mapM fun item => valueOf anchors depth item))
  | .map _ pairs, depth + 1 =>
      let read ← pairs.foldlM (fun read (pair : Node × Node) => do
        let key ← valueOf anchors depth pair.1
        let value ← valueOf anchors depth pair.2
        match addPair read key value with
        | some read => return read
        | none => failure) []
      return named (.map read.reverse)
  | _, _ => failure

def Value.ofNode? (root : Node) : Option Value :=
  (valueOf (.ofRoot root) depthLimit root).run' 0

def parse? (text : String) : Option Value :=
  ((tokens? text).bind Node.ofTokens?).bind Value.ofNode?

end SeqSlice.Yaml
