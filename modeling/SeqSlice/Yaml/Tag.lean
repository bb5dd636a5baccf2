import SeqSlice.Json.Token
import SeqSlice.Yaml.Glyph

/-! Tags, which name the type of a value. A tag is written with a handle, which stands
for the start of it, or in full. Its characters are octets, because those that may
not be written are escaped by octet; what the octets spell need not be a text. -/

set_option autoImplicit false
namespace SeqSlice.Yaml

abbrev Octets := List Nat

def octetsOf (text : List Char) : Octets := text.map Char.toNat

/-- A tag as written: the handle, empty for a tag in full, and the rest. -/
structure TagText where
  handle : List Char
  rest : Octets
  deriving DecidableEq, Repr, Inhabited

/-- Some marks have a meaning in flow collections and stand only in tags in full. -/
def isTagMark (inFull : Bool) (c : Char) : Bool :=
  ";/?:@&=+$.!~*'()".toList.contains c || (inFull && (c == ',' || c == '[' || c == ']'))

def octetsBehind? (octet : Nat) : Option Nat :=
  if octet < 0x80 then some 0
  else if 0xC0 ≤ octet ∧ octet < 0xE0 then some 1
  else if 0xE0 ≤ octet ∧ octet < 0xF0 then some 2
  else if 0xF0 ≤ octet ∧ octet < 0xF8 then some 3
  else none

def isInnerOctet (octet : Nat) : Bool := decide (0x80 ≤ octet) && decide (octet < 0xC0)

/-- Reads on inside a tag; the octets so far are in reverse, and this many octets of a
begun character must follow by escapes. -/
def octetsFrom (inFull : Bool) (missing : Nat) (read : Octets) :
    List Glyph → Option (Octets × List Glyph)
  | [] => if missing = 0 then some (read.reverse, []) else none
  | glyph :: rest =>
      if glyph.char == '%' then
        match rest with
        | high :: low :: more =>
            match Json.hexDigit? high.char, Json.hexDigit? low.char with
            | some high, some low =>
                let octet := 16 * high + low
                if missing = 0 then
                  match octetsBehind? octet with
                  | some missing => octetsFrom inFull missing (octet :: read) more
                  | none => none
                else if isInnerOctet octet then octetsFrom inFull (missing - 1) (octet :: read) more
                else none
            | _, _ => none
        | _ => none
      else if missing ≠ 0 then none
      else if glyph.isWordPart || isTagMark inFull glyph.char then
        octetsFrom inFull 0 (glyph.char.toNat :: read) rest
      else some (read.reverse, glyph :: rest)

def octets? (inFull : Bool) (text : List Glyph) : Option (Octets × List Glyph) := do
  let (octets, rest) ← octetsFrom inFull 0 [] text
  if octets.isEmpty then none else some (octets.takeWhile (· != 0), rest)

/-- The handle whose first exclamation mark stands before the text: it ends with
another one, unless it is only the first one or no handle at all. -/
def cutHandle (text : List Glyph) : List Char × List Glyph :=
  let (name, rest) := cutWord text
  match rest with
  | glyph :: more => if glyph.char == '!' then ('!' :: name ++ ['!'], more) else ('!' :: name, rest)
  | [] => ('!' :: name, [])

def isHandle (handle : List Char) : Bool :=
  decide (1 < handle.length) && handle.getLast? == some '!'

def fullTag? (text : List Glyph) : Option (TagText × List Glyph) := do
  let (octets, rest) ← octets? true text
  match rest with
  | glyph :: more => if glyph.char == '>' then some (⟨[], octets⟩, more) else none
  | [] => none

/-- A tag with a handle, or behind a single exclamation mark, which is a handle too. The
mark alone is a tag in full. -/
def shortTag? (text : List Glyph) : Option (TagText × List Glyph) := do
  let (handle, rest) := cutHandle text
  if isHandle handle then
    let (octets, rest) ← octets? false rest
    return (⟨handle, octets⟩, rest)
  else
    let (octets, rest) ← octetsFrom false 0 (octetsOf handle.tail).reverse rest
    let shown := octets.takeWhile (· != 0)
    return (if shown.isEmpty then ⟨[], octetsOf ['!']⟩ else ⟨['!'], shown⟩, rest)

def tag? (inFlow : Bool) (text : List Glyph) : Option (TagText × List Glyph) := do
  let (tag, rest) ← match text with
    | glyph :: more => if glyph.char == '<' then fullTag? more else shortTag? text
    | [] => shortTag? []
  if atBlank rest || (inFlow && rest.head?.any (·.char == ',')) then some (tag, rest) else none

abbrev TagHandles := List (List Char × Octets)

namespace TagHandles

def commonStart : String := "tag:yaml.org,2002:"

def standard : TagHandles := [(['!'], octetsOf ['!']), (['!', '!'], octetsOf commonStart.toList)]

def resolve? (handles : TagHandles) (tag : TagText) : Option Octets :=
  if tag.handle.isEmpty then some tag.rest
  else (handles.lookup tag.handle).map (· ++ tag.rest)

end TagHandles

def textOfOctets? (octets : Octets) : Option String :=
  String.fromUTF8? (ByteArray.mk (octets.map Nat.toUInt8).toArray)

/-- The name of a tag that belongs to the document itself, which begins with an
exclamation mark. The mark is no part of the name, unless it is all of it. -/
def ownTagName? : Octets → Option String
  | 0x21 :: rest => textOfOctets? (if rest.isEmpty then [0x21] else rest)
  | _ => none

end SeqSlice.Yaml
