import SeqSlice.Yaml.Scalar

/-! The text of block scalars, whose lines are kept or folded and whose extent is
given by their indentation. -/

set_option autoImplicit false
namespace SeqSlice.Yaml

inductive Chomping where
  | strip
  | clip
  | keep
  deriving DecidableEq, Repr, Inhabited

structure BlockHeader where
  folded : Bool
  chomping : Chomping
  increment : Option Nat
  deriving DecidableEq, Repr, Inhabited

def chomping? : Char → Option Chomping
  | '-' => some .strip
  | '+' => some .keep
  | _ => none

def increment? (c : Char) : Option Nat := (Text.digit? c).filter (0 < ·)

def BlockHeader.ofIndicators? (folded : Bool) : List Char → Option BlockHeader
  | [] => some ⟨folded, .clip, none⟩
  | [only] =>
      match chomping? only with
      | some chomping => some ⟨folded, chomping, none⟩
      | none => (increment? only).map fun digit => ⟨folded, .clip, some digit⟩
  | [first, second] =>
      match chomping? first, chomping? second with
      | some chomping, none => (increment? second).map fun digit => ⟨folded, chomping, some digit⟩
      | none, some chomping => (increment? first).map fun digit => ⟨folded, chomping, some digit⟩
      | _, _ => none
  | _ => none

/-- The header and the text behind its line. Indicators end at a blank, and only a
comment may follow on the line. -/
def BlockHeader.read? (folded : Bool) (text : List Glyph) : Option (BlockHeader × List Glyph) := do
  let indicators := text.takeWhile fun glyph => !glyph.isBlank && glyph.char != '#'
  let header ← BlockHeader.ofIndicators? folded (indicators.map (·.char))
  return (header, ← behindLine? (text.drop indicators.length))

/-- The deepest indentation among the leading blank lines and the first other one.
A tab may not indent. -/
def deepestMargin (widest : Nat) : List Glyph → Option Nat
  | [] => some widest
  | glyph :: rest =>
      if glyph.char == ' ' then deepestMargin (max widest (glyph.column + 1)) rest
      else if glyph.char == '\t' then none
      else if glyph.isBreak then deepestMargin widest rest
      else some widest

structure BlockState where
  text : List Char
  lastBreak : List Char
  breaks : List Char
  indented : Bool
  inLine : Bool
  deriving Repr, Inhabited

namespace BlockState

def start : BlockState := ⟨[], [], [], false, false⟩

def beginLine (state : BlockState) (folded : Bool) (first : Char) : BlockState :=
  let indented := isSpace first
  -- Folding joins two lines unless one of them begins with a blank.
  let joint :=
    if folded && state.lastBreak == ['\n'] && !state.indented && !indented then
      if state.breaks.isEmpty then [' '] else []
    else state.lastBreak
  { text := first :: ((joint ++ state.breaks).reverse ++ state.text)
    lastBreak := [], breaks := [], indented, inLine := true }

def finish (state : BlockState) : Chomping → List Char
  | .strip => state.text.reverse
  | .clip => state.text.reverse ++ state.lastBreak
  | .keep => state.text.reverse ++ state.lastBreak ++ state.breaks

end BlockState

/-- Reads lines indented to the given column, up to the first that is not. -/
def blockFrom (folded : Bool) (indent : Nat) (state : BlockState) :
    List Glyph → Option (BlockState × List Glyph)
  | [] => some (state, [])
  | glyph :: rest =>
      if state.inLine then
        if glyph.isBreak then
          blockFrom folded indent { state with inLine := false, lastBreak := [glyph.char] } rest
        else blockFrom folded indent { state with text := glyph.char :: state.text } rest
      else if glyph.isBreak then
        blockFrom folded indent { state with breaks := state.breaks ++ [glyph.char] } rest
      else if glyph.column < indent then
        if glyph.char == ' ' then blockFrom folded indent state rest
        else if glyph.char == '\t' then none
        else some (state, glyph :: rest)
      else blockFrom folded indent (state.beginLine folded glyph.char) rest

def block? (folded : Bool) (parent : Option Nat) (text : List Glyph) : Option ScalarEnd := do
  let (header, rest) ← BlockHeader.read? folded text
  let least := match parent with
    | some column => column + 1
    | none => 1
  let indent ← match header.increment with
    | some more => some (parent.getD 0 + more)
    | none => (deepestMargin 0 rest).map (max least)
  let (state, rest) ← blockFrom folded indent .start rest
  return ⟨state.finish header.chomping, rest, true⟩

end SeqSlice.Yaml
