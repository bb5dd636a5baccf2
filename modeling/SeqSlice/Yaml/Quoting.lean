import SeqSlice.Yaml.Glyph
import SeqSlice.Yaml.Value

/-! How a text is written: plainly where it reads back as itself, else in single
quotes, in double quotes if it holds a character that must be escaped, and line by
line if it holds line feeds. Of the other line breaks, the two separators may stand
inside single quotes and in lines; a line is ended by the break that it has. -/

set_option autoImplicit false
namespace SeqSlice.Yaml

def isPrintable (c : Char) : Bool :=
  let code := c.toNat
  code == 0x0A || (0x20 ≤ code && code ≤ 0x7E) ||
    (0xA0 ≤ code && code ≤ 0xFFFD && code != 0xFEFF) || 0x10000 ≤ code

def isIndicator (c : Char) : Bool :=
  "#,[]&*!|>'\"%@".toList.contains c || c == '\x7b' || c == '\x7d' || c == '\x60'

def atSpace : List Char → Bool
  | [] => true
  | c :: _ => isSpace c

/-- A colon before a space would end the scalar, a number sign behind one begin a
comment. -/
def hasInnerMark (behindSpace : Bool) : List Char → Bool
  | [] => false
  | c :: rest =>
      (c == ':' && atSpace rest) || (c == '#' && behindSpace) || hasInnerMark (isSpace c) rest

def hasOuterMark : List Char → Bool
  | '-' :: '-' :: '-' :: _ => true
  | '.' :: '.' :: '.' :: _ => true
  | c :: rest => isIndicator c || ((c == '-' || c == '?' || c == ':') && atSpace rest)
  | [] => false

def isAmbiguous (text : List Char) : Bool :=
  isPadded text ||
    match Value.ofPlain? text with
    | some (.text _) => false
    | _ => true

def isPlain (text : List Char) : Bool :=
  !text.any isLineBreak && !isAmbiguous text && !hasOuterMark text && !hasInnerMark false text &&
    text.head? != some ' ' && text.getLast? != some ' '

def singleQuoted (text : List Char) : List Char :=
  '\'' :: (text.flatMap fun c => if c == '\'' then ['\'', '\''] else [c]) ++ ['\'']

def hexDigit (value : Nat) : Char :=
  if value < 10 then Char.ofNat ('0'.toNat + value) else Char.ofNat ('A'.toNat + (value - 10))

def hexDigits : Nat → Nat → List Char
  | 0, _ => []
  | size + 1, value => hexDigits size (value / 16) ++ [hexDigit (value % 16)]

def escapeCode (c : Char) : List Char :=
  let code := c.toNat
  if code ≤ 0xFF then 'x' :: hexDigits 2 code
  else if code ≤ 0xFFFF then 'u' :: hexDigits 4 code
  else 'U' :: hexDigits 8 code

def escapeName (c : Char) : List Char :=
  match c with
  | '\x00' => ['0']
  | '\x07' => ['a']
  | '\x08' => ['b']
  | '\t' => ['t']
  | '\n' => ['n']
  | '\x0b' => ['v']
  | '\x0c' => ['f']
  | '\r' => ['r']
  | '\x1b' => ['e']
  | '"' => ['"']
  | '\\' => ['\\']
  | '\u0085' => ['N']
  | '\u2028' => ['L']
  | '\u2029' => ['P']
  | c => escapeCode c

def doubleQuoted (text : List Char) : List Char :=
  '"' :: (text.flatMap fun c =>
    if isPrintable c && !isLineBreak c && c != '"' && c != '\\' then [c]
    else '\\' :: escapeName c) ++ ['"']

structure Line where
  text : List Char
  ending : Char
  deriving DecidableEq, Repr, Inhabited

def Line.ofText (text : List Char) : Line := ⟨text, '\n'⟩

/-- The lines of a text. What stands behind the last break is ended by a line feed. -/
def Line.split : List Char → List Line
  | [] => []
  | c :: rest =>
      if isLineBreak c then ⟨[], c⟩ :: split rest
      else
        match split rest with
        | [] => [.ofText [c]]
        | line :: more => ⟨c :: line.text, line.ending⟩ :: more

def hasPair (first second : Char → Bool) : List Char → Bool
  | c :: next :: rest => (first c && second next) || hasPair first second (next :: rest)
  | _ => false

def hasSpaceBeforeBreak (text : List Char) : Bool := hasPair (· == ' ') isLineBreak text

def hasSpaceBehindBreak (text : List Char) : Bool := hasPair isLineBreak (· == ' ') text

/-- The marks of a literal block: an indentation that cannot be read off its first
line, and what becomes of the breaks at its end. -/
def literalHeader (text : List Char) : List Char :=
  let indentation := if text.head?.any fun c => c == ' ' || isLineBreak c then ['2'] else []
  let breaks := (text.reverse.takeWhile isLineBreak).length
  let ending :=
    if breaks = 0 then ['-'] else if 1 < breaks || breaks = text.length then ['+'] else []
  '|' :: indentation ++ ending

def textLines (text : List Char) : List Line :=
  let special := !text.all isPrintable || hasSpaceBeforeBreak text
  if text.contains '\n' then
    if special || text.getLast? == some ' ' then [.ofText (doubleQuoted text)]
    else .ofText (literalHeader text) :: Line.split text
  else if special then [.ofText (doubleQuoted text)]
  else if isPlain text then [.ofText text]
  else if hasSpaceBehindBreak text then [.ofText (doubleQuoted text)]
  else Line.split (singleQuoted text)

end SeqSlice.Yaml
