/-! The characters of a YAML text with the places where they stand. Indentation is
part of the notation, so what reads it needs columns, and a key must stand on one
line and may not be long, so it needs lines and byte counts. -/

set_option autoImplicit false
namespace SeqSlice.Yaml

def isLineBreak (c : Char) : Bool :=
  c == '\n' || c == '\r' || c == '\u0085' || c == '\u2028' || c == '\u2029'

def isSpace (c : Char) : Bool := c == ' ' || c == '\t'

def isAllowed (c : Char) : Bool :=
  let code := c.toNat
  code == 0x09 || code == 0x0A || code == 0x0D || (0x20 ≤ code && code ≤ 0x7E) || code == 0x85 ||
    (0xA0 ≤ code && code ≤ 0xFFFD) || 0x10000 ≤ code

structure Glyph where
  char : Char
  offset : Nat
  line : Nat
  column : Nat
  deriving DecidableEq, Repr, Inhabited

namespace Glyph

def isBreak (glyph : Glyph) : Bool := isLineBreak glyph.char

def isBlank (glyph : Glyph) : Bool := isSpace glyph.char || glyph.isBreak

/-- All line breaks but the two separators become a line feed. -/
def plainBreak (c : Char) : Char := if c == '\u2028' || c == '\u2029' then c else '\n'

def place (offset line column : Nat) : List Char → List Glyph
  | [] => []
  | '\r' :: '\n' :: rest => ⟨'\n', offset, line, column⟩ :: place (offset + 2) (line + 1) 0 rest
  | c :: rest =>
      let behind := offset + c.utf8Size
      if isLineBreak c then ⟨plainBreak c, offset, line, column⟩ :: place behind (line + 1) 0 rest
      else ⟨c, offset, line, column⟩ :: place behind line (column + 1) rest

def ofText? (text : List Char) : Option (List Glyph) :=
  if text.all isAllowed then some (place 0 0 0 text) else none

def isWordPart (glyph : Glyph) : Bool :=
  let c := glyph.char
  ('0' ≤ c && c ≤ '9') || ('a' ≤ c && c ≤ 'z') || ('A' ≤ c && c ≤ 'Z') || c == '_' || c == '-'

end Glyph

def atBlank : List Glyph → Bool
  | [] => true
  | glyph :: _ => glyph.isBlank

def cutWord (text : List Glyph) : List Char × List Glyph :=
  ((text.takeWhile Glyph.isWordPart).map (·.char), text.dropWhile Glyph.isWordPart)

def skipSpaces (text : List Glyph) : List Glyph := text.dropWhile fun glyph => isSpace glyph.char

/-- The text behind this line. Only spaces and a comment may be left on it. -/
def behindLine? (text : List Glyph) : Option (List Glyph) :=
  match skipSpaces text with
  | [] => some []
  | glyph :: rest =>
      if glyph.char == '#' || glyph.isBreak then
        some (((glyph :: rest).dropWhile fun glyph => !glyph.isBreak).drop 1)
      else none

/-- Three times the same character at the start of a line, with a blank behind. -/
def atMark (mark : Char) : List Glyph → Bool
  | first :: second :: third :: rest =>
      first.column == 0 && first.char == mark && second.char == mark && third.char == mark &&
        atBlank rest
  | _ => false

def atDocumentMark (text : List Glyph) : Bool := atMark '-' text || atMark '.' text

end SeqSlice.Yaml
