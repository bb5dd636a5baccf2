import SeqSlice.Storage.Path
import SeqSlice.Storage.Tree

/-! A tree of files with a working folder, as far as reading inputs and writing
reports needs it. A path is followed step by step from the working folder or, if it
is absolute, from the root; every step but the last must lead to a folder. -/

set_option autoImplicit false
namespace SeqSlice

structure Disk where
  tree : Tree
  work : Place
  deriving Repr, Inhabited

namespace Disk

/-- Nothing is in the working folder, and elsewhere there is only the null device,
which reads as an empty file. -/
def empty : Disk :=
  ⟨.folder [("dev", .folder [("null", .file "")]), ("home", .folder [("work", .folder [])])],
    ["home", "work"]⟩

variable (disk : Disk)

def start (path : String) : Place := if Path.isAbsolute path then [] else disk.work

def enter (place : Place) (step : String) : Place :=
  if step == ".." then place.dropLast else place ++ [step]

def walk? (place : Place) : List String → Option Place
  | [] => some place
  | step :: rest =>
      let next := enter place step
      if disk.tree.isFolder next then walk? next rest else none

def createAlong? (disk : Disk) (place : Place) : List String → Option Disk
  | [] => some disk
  | step :: rest =>
      let next := enter place step
      match disk.tree.at? next with
      | some (.folder _) => createAlong? disk next rest
      | some (.file _) => none
      | none =>
          if Path.isName step then
            createAlong? { disk with tree := disk.tree.put (.folder []) next } next rest
          else none

/-- Creates a folder with all that is missing above it. -/
def createFolder? (path : String) : Option Disk :=
  let start := disk.start path
  let steps := Path.steps path
  if path.isEmpty then some disk
  else if !Path.isUsable path then none
  -- A folder with a dot behind it must be there already.
  else if Path.endsInDot path then do
    let created ← disk.createAlong? start steps.dropLast
    let _ ← created.walk? start steps
    return created
  else disk.createAlong? start steps

def filePlace? (path : String) : Option Place := do
  let name ← Path.fileName? path
  if !Path.isUsable path || !Path.isName name then none
  let parent ← disk.walk? (disk.start path) (Path.steps path).dropLast
  if disk.tree.isFolder (parent ++ [name]) then none else some (parent ++ [name])

def write? (path text : String) : Option Disk := do
  let place ← disk.filePlace? path
  return { disk with tree := disk.tree.put (.file text) place }

def read? (path : String) : Option String := (disk.filePlace? path).bind disk.tree.file?

def save? (base name text : String) : Option Disk :=
  (disk.createFolder? base).bind fun disk => disk.write? (Path.join base name) text

def add? (path text : String) : Option Disk :=
  (disk.createAlong? (disk.start path) (Path.steps path).dropLast).bind (·.write? path text)

def newFiles (before : Disk) : List (String × String) :=
  let files := ((disk.tree.at? disk.work).map (Tree.filesFrom [])).getD []
  let fresh := files.filter fun file => (before.tree.file? (disk.work ++ file.1)).isNone
  (fresh.map fun file => (String.intercalate "/" file.1, file.2)).mergeSort
    fun first second => !decide (second.1 < first.1)

end Disk
end SeqSlice
