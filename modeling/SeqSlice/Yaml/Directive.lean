import SeqSlice.Text.Numeral
import SeqSlice.Yaml.Tag

/-! Directives, the lines before a document that say how to read it: which version of
the notation it is in, and what the handles of its tags stand for. -/

set_option autoImplicit false
namespace SeqSlice.Yaml

inductive Directive where
  | version (major minor : Nat)
  | tagHandle (name : List Char) (start : Octets)
  deriving DecidableEq, Repr, Inhabited

namespace Directive

def maxDigits : Nat := 9

def number? (text : List Glyph) : Option (Nat × List Glyph) := do
  let isDigit (glyph : Glyph) : Bool := (Text.digit? glyph.char).isSome
  let digits := text.takeWhile isDigit
  if maxDigits < digits.length then none
  return (← Text.natural? (digits.map (·.char)), text.dropWhile isDigit)

def version? (text : List Glyph) : Option (Directive × List Glyph) := do
  let (major, rest) ← number? (skipSpaces text)
  match rest with
  | point :: rest =>
      if point.char != '.' then none
      let (minor, rest) ← number? rest
      return (.version major minor, rest)
  | [] => none

def tagHandle? (text : List Glyph) : Option (Directive × List Glyph) := do
  match skipSpaces text with
  | mark :: rest =>
      if mark.char != '!' then none
      let (name, rest) := cutHandle rest
      if !(isHandle name || name == ['!']) then none
      if !rest.head?.any (fun glyph => isSpace glyph.char) then none
      let (start, rest) ← octets? true (skipSpaces rest)
      if atBlank rest then return (.tagHandle name start, rest) else none
  | [] => none

def read? (text : List Glyph) : Option (Directive × List Glyph) := do
  let (name, rest) := cutWord text
  if !atBlank rest then none
  let (directive, rest) ←
    if name == "YAML".toList then version? rest
    else if name == "TAG".toList then tagHandle? rest
    else none
  return (directive, ← behindLine? rest)

/-- The documents that are read are of one of two versions, which is said at most once. -/
def isVersionKnown (directives : List Directive) : Bool :=
  let versions := directives.filterMap fun directive =>
    match directive with
    | .version major minor => some (major, minor)
    | .tagHandle _ _ => none
  versions.isEmpty || versions == [(1, 1)] || versions == [(1, 2)]

/-- What the handles of a document stand for. Each is declared at most once, and those
that need no declaration may have one. -/
def handles? (directives : List Directive) : Option TagHandles :=
  let declared := directives.filterMap fun directive =>
    match directive with
    | .version _ _ => none
    | .tagHandle name start => some (name, start)
  if (declared.map (·.1)).Nodup then some (declared ++ TagHandles.standard) else none

end Directive
end SeqSlice.Yaml
