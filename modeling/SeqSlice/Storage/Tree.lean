/-! A tree of folders and files. -/

set_option autoImplicit false
namespace SeqSlice

abbrev Place := List String

inductive Tree where
  | file (text : String)
  | folder (entries : List (String × Tree))
  deriving Repr, Inhabited

def setEntry {α : Type} (name : String) (value : α) : List (String × α) → List (String × α)
  | [] => [(name, value)]
  | (other, old) :: rest =>
      if other = name then (name, value) :: rest else (other, old) :: setEntry name value rest

namespace Tree

def entries : Tree → List (String × Tree)
  | .file _ => []
  | .folder entries => entries

def at? (tree : Tree) : Place → Option Tree
  | [] => some tree
  | name :: rest => (tree.entries.lookup name).bind (·.at? rest)

def isFolder (tree : Tree) (place : Place) : Bool :=
  match tree.at? place with
  | some (.folder _) => true
  | _ => false

def file? (tree : Tree) (place : Place) : Option String :=
  match tree.at? place with
  | some (.file text) => some text
  | _ => none

/-- Puts something at a place. What is missing on the way becomes a folder. -/
def put (tree : Tree) (value : Tree) : Place → Tree
  | [] => value
  | name :: rest =>
      let inner := (tree.entries.lookup name).getD (.folder [])
      .folder (setEntry name (inner.put value rest) tree.entries)

mutual

def filesFrom (place : Place) : Tree → List (Place × String)
  | .file text => [(place, text)]
  | .folder entries => filesAmong place entries

def filesAmong (place : Place) : List (String × Tree) → List (Place × String)
  | [] => []
  | (name, tree) :: rest => filesFrom (place ++ [name]) tree ++ filesAmong place rest

end

end Tree
end SeqSlice
