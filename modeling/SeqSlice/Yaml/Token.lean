import SeqSlice.Yaml.Block
import SeqSlice.Yaml.Directive

/-! The tokens of a YAML text. That a scalar or a flow collection is a key is known
only at the colon behind it, so places where a key may begin are remembered, and
the tokens that announce it are put in there afterwards. -/

set_option autoImplicit false
namespace SeqSlice.Yaml

inductive Token where
  | directive (directive : Directive)
  | documentStart
  | documentEnd
  | openBlockList
  | openBlockMap
  | closeBlock
  | openList
  | closeList
  | openMap
  | closeMap
  | entry
  | comma
  | key
  | value
  | anchor (name : List Char)
  | alias (name : List Char)
  | tag (tag : TagText)
  | scalar (plain : Bool) (text : List Char)
  deriving DecidableEq, Repr, Inhabited

/-- A place where a key may have begun. -/
structure PossibleKey where
  token : Nat
  offset : Nat
  line : Nat
  column : Nat
  /-- In this place nothing but a key can stand. -/
  required : Bool
  deriving DecidableEq, Repr, Inhabited

def keyLimit : Nat := 1024

def PossibleKey.isStale (key : PossibleKey) (place : Glyph) : Bool :=
  decide (key.line < place.line) || decide (key.offset + keyLimit < place.offset)

/-- Tokens are kept last first, open blocks and flow collections innermost first. -/
structure Lexer where
  rest : List Glyph
  tokens : List Token
  count : Nat
  indents : List Nat
  key : Option PossibleKey
  outerKeys : List (Option PossibleKey)
  keyAllowed : Bool
  deriving Inhabited

def insertAt {α : Type} (position : Nat) (item : α) (items : List α) : List α :=
  items.take position ++ item :: items.drop position

/-- Spaces, comments and line breaks. Outside flow collections a new line may begin
a key, and where a key may begin a tab may not stand. A byte order mark may begin a
line. -/
def skipBlanks (inFlow keyAllowed comment : Bool) : List Glyph → Bool × List Glyph
  | [] => (keyAllowed, [])
  | glyph :: rest =>
      if glyph.isBreak then skipBlanks inFlow (keyAllowed || !inFlow) false rest
      else if comment || glyph.char == '#' then skipBlanks inFlow keyAllowed true rest
      else if glyph.char == ' ' || (glyph.char == '\t' && (inFlow || !keyAllowed)) ||
          (glyph.char == '\ufeff' && glyph.column == 0) then
        skipBlanks inFlow keyAllowed false rest
      else (keyAllowed, glyph :: rest)

namespace Lexer

variable (lexer : Lexer)

def inFlow : Bool := !lexer.outerKeys.isEmpty

def emit (token : Token) : Lexer :=
  { lexer with tokens := token :: lexer.tokens, count := lexer.count + 1 }

def emitAt (position : Nat) (token : Token) : Lexer :=
  { lexer with
    tokens := insertAt (lexer.count - position) token lexer.tokens, count := lexer.count + 1 }

def dropKey : Option Lexer :=
  if lexer.key.any (·.required) then none else some { lexer with key := none }

def saveKey (place : Glyph) : Option Lexer :=
  if lexer.keyAllowed then do
    let required := !lexer.inFlow && lexer.indents.head? == some place.column
    let dropped ← lexer.dropKey
    return { dropped with
      key := some ⟨lexer.count, place.offset, place.line, place.column, required⟩ }
  else some lexer

def dropStale (place : Glyph) : Option Lexer :=
  let fresh (key : Option PossibleKey) : Option PossibleKey := key.filter (!·.isStale place)
  let lost := (lexer.key :: lexer.outerKeys).any fun key =>
    key.any fun key => key.required && key.isStale place
  if lost then none
  else some { lexer with key := fresh lexer.key, outerKeys := lexer.outerKeys.map fresh }

def closeBlocks (number : Nat) : Lexer :=
  { lexer with
    tokens := List.replicate number .closeBlock ++ lexer.tokens
    count := lexer.count + number
    indents := lexer.indents.drop number }

def unroll (column : Nat) : Lexer :=
  if lexer.inFlow then lexer
  else lexer.closeBlocks (lexer.indents.takeWhile (column < ·)).length

def unrollAll : Lexer :=
  if lexer.inFlow then lexer else lexer.closeBlocks lexer.indents.length

def roll (column : Nat) (token : Token) (position : Nat) : Lexer :=
  if lexer.inFlow || lexer.indents.head?.any (column ≤ ·) then lexer
  else { lexer.emitAt position token with indents := column :: lexer.indents }

def directive (rest : List Glyph) : Option Lexer := do
  let lexer ← lexer.unrollAll.dropKey
  let (directive, rest) ← Directive.read? rest
  return { lexer with keyAllowed := false, rest }.emit (.directive directive)

def documentMark (token : Token) : Option Lexer := do
  let lexer ← lexer.unrollAll.dropKey
  return { lexer with keyAllowed := false, rest := lexer.rest.drop 3 }.emit token

def openFlow (place : Glyph) (rest : List Glyph) (token : Token) : Option Lexer := do
  let lexer ← lexer.saveKey place
  return { lexer with
    key := none, outerKeys := lexer.key :: lexer.outerKeys, keyAllowed := true, rest }.emit token

def closeFlow (rest : List Glyph) (token : Token) : Option Lexer := do
  let lexer ← lexer.dropKey
  return { lexer with
    key := lexer.outerKeys.head?.join, outerKeys := lexer.outerKeys.tail
    keyAllowed := false, rest }.emit token

def comma (rest : List Glyph) : Option Lexer := do
  let lexer ← lexer.dropKey
  return { lexer with keyAllowed := true, rest }.emit .comma

/-- In a block, an indicator stands only where a key may begin. -/
def allowed : Option Unit := if lexer.inFlow || lexer.keyAllowed then some () else none

def entry (place : Glyph) (rest : List Glyph) : Option Lexer := do
  lexer.allowed
  let lexer ← (lexer.roll place.column .openBlockList lexer.count).dropKey
  return { lexer with keyAllowed := true, rest }.emit .entry

def explicitKey (place : Glyph) (rest : List Glyph) : Option Lexer := do
  lexer.allowed
  let lexer ← (lexer.roll place.column .openBlockMap lexer.count).dropKey
  return { lexer with keyAllowed := !lexer.inFlow, rest }.emit .key

def colon (place : Glyph) (rest : List Glyph) : Option Lexer :=
  match lexer.key with
  | some key =>
      -- The possible key is one, and is announced where it began.
      let announced := { lexer.emitAt key.token .key with key := none, keyAllowed := false, rest }
      some ((announced.roll key.column .openBlockMap key.token).emit .value)
  | none => do
      lexer.allowed
      let lexer := lexer.roll place.column .openBlockMap lexer.count
      return { lexer with keyAllowed := !lexer.inFlow, rest }.emit .value

def named (place : Glyph) (rest : List Glyph) (token : List Char → Token) : Option Lexer := do
  let lexer ← lexer.saveKey place
  let (name, rest) := cutWord rest
  let ended := atBlank rest ||
    rest.head?.any fun glyph => "?:,]%@".toList.contains glyph.char ||
      glyph.char == '\x7d' || glyph.char == '\x60'
  if name.isEmpty || !ended then none
  return { lexer with keyAllowed := false, rest }.emit (token name)

def tag (place : Glyph) (rest : List Glyph) : Option Lexer := do
  let lexer ← lexer.saveKey place
  let (tag, rest) ← tag? lexer.inFlow rest
  return { lexer with keyAllowed := false, rest }.emit (.tag tag)

def plain (place : Glyph) : Option Lexer := do
  let lexer ← lexer.saveKey place
  let indent := match lexer.indents.head? with
    | some column => column + 1
    | none => 0
  let found ← plainFrom lexer.inFlow indent [] [] lexer.rest
  return { lexer with keyAllowed := found.broken, rest := found.rest }.emit
    (.scalar true found.text)

def quoted (place : Glyph) (rest : List Glyph) (double : Bool) : Option Lexer := do
  let lexer ← lexer.saveKey place
  let found ← quotedFrom double .text [] rest
  return { lexer with keyAllowed := false, rest := found.rest }.emit (.scalar false found.text)

def block (rest : List Glyph) (folded : Bool) : Option Lexer := do
  if lexer.inFlow then none
  let lexer ← lexer.dropKey
  let found ← block? folded lexer.indents.head? rest
  return { lexer with keyAllowed := true, rest := found.rest }.emit (.scalar false found.text)

def token (place : Glyph) (rest : List Glyph) : Option Lexer :=
  if place.char == '%' && place.column == 0 then lexer.directive rest
  else if atMark '-' lexer.rest then lexer.documentMark .documentStart
  else if atMark '.' lexer.rest then lexer.documentMark .documentEnd
  else
    match place.char with
    | '[' => lexer.openFlow place rest .openList
    | '\x7b' => lexer.openFlow place rest .openMap
    | ']' => lexer.closeFlow rest .closeList
    | '\x7d' => lexer.closeFlow rest .closeMap
    | ',' => lexer.comma rest
    | '-' => if atBlank rest then lexer.entry place rest else lexer.plain place
    | '?' =>
        if lexer.inFlow || atBlank rest then lexer.explicitKey place rest else lexer.plain place
    | ':' => if lexer.inFlow || atBlank rest then lexer.colon place rest else lexer.plain place
    | '|' => lexer.block rest false
    | '>' => lexer.block rest true
    | '\'' => lexer.quoted place rest false
    | '"' => lexer.quoted place rest true
    | '&' => lexer.named place rest .anchor
    | '*' => lexer.named place rest .alias
    | '!' => lexer.tag place rest
    | '#' | '%' | '@' | '\x60' | '\t' => none
    | _ => lexer.plain place

def step : Option Lexer := do
  let (keyAllowed, rest) := skipBlanks lexer.inFlow lexer.keyAllowed false lexer.rest
  let lexer := { lexer with keyAllowed, rest }
  match rest with
  | [] => return lexer
  | place :: behind =>
      let lexer ← lexer.dropStale place
      (lexer.unroll place.column).token place behind

def finish : Option (List Token) := lexer.unrollAll.dropKey.map (·.tokens.reverse)

/-- Each step takes at least one character, so there are no more steps than those. -/
def runFor : Nat → Lexer → Option (List Token)
  | 0, _ => none
  | steps + 1, lexer =>
      match lexer.rest with
      | [] => lexer.finish
      | _ => lexer.step.bind (runFor steps)

def run : Option (List Token) := runFor (lexer.rest.length + 1) lexer

end Lexer

def tokens? (text : String) : Option (List Token) :=
  (Glyph.ofText? text.toList).bind fun glyphs => Lexer.run ⟨glyphs, [], 0, [], none, [], true⟩

end SeqSlice.Yaml
