import SeqSlice.Yaml.Tag

/-! The nodes of a YAML document: what is written, before it is known what it stands
for. Names of anchors are already replaced by numbers. -/

set_option autoImplicit false
namespace SeqSlice.Yaml

structure Properties where
  anchor : Option Nat
  tag : Option Octets
  deriving DecidableEq, Repr, Inhabited

namespace Properties

def none : Properties := ⟨.none, .none⟩

def isNone (properties : Properties) : Bool := properties.anchor.isNone && properties.tag.isNone

end Properties

inductive Node where
  | alias (anchor : Nat)
  | scalar (properties : Properties) (plain : Bool) (text : List Char)
  | list (properties : Properties) (items : List Node)
  | map (properties : Properties) (pairs : List (Node × Node))
  deriving Repr, Inhabited

namespace Node

def missing : Node := .scalar .none true []

def properties : Node → Properties
  | .alias _ => .none
  | .scalar properties _ _ | .list properties _ | .map properties _ => properties

mutual

/-- How often a node begins or ends; a node without inner ones does both at once. -/
def size : Node → Nat
  | .alias _ | .scalar _ _ _ => 1
  | .list _ items => 2 + sizeOfItems items
  | .map _ pairs => 2 + sizeOfPairs pairs

def sizeOfItems : List Node → Nat
  | [] => 0
  | first :: rest => size first + sizeOfItems rest

def sizeOfPairs : List (Node × Node) → Nat
  | [] => 0
  | (key, value) :: rest => size key + size value + sizeOfPairs rest

end

def underAnchor (node : Node) : List (Nat × Node) :=
  node.properties.anchor.toList.map fun anchor => (anchor, node)

mutual

def anchored : Node → List (Nat × Node)
  | .list properties items => underAnchor (.list properties items) ++ anchoredItems items
  | .map properties pairs => underAnchor (.map properties pairs) ++ anchoredPairs pairs
  | node => underAnchor node

def anchoredItems : List Node → List (Nat × Node)
  | [] => []
  | first :: rest => anchored first ++ anchoredItems rest

def anchoredPairs : List (Node × Node) → List (Nat × Node)
  | [] => []
  | (key, value) :: rest => anchored key ++ anchored value ++ anchoredPairs rest

end

end Node
end SeqSlice.Yaml
