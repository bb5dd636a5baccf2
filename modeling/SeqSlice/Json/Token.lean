import SeqSlice.Json.Number

/-! Lexical analysis of JSON by one automaton that reads a character at a time.
Escapes inside a text are first collected as pieces, because two `\u` escapes
may have to be joined to one code point. -/

set_option autoImplicit false
namespace SeqSlice.Json

inductive Token where
  | openList
  | closeList
  | openObject
  | closeObject
  | comma
  | colon
  | atom (value : Json)
  | text (value : Option String)
  deriving Repr, Inhabited

/-- Part of a text: a character, or the 16-bit unit of a `\u` escape. -/
inductive Piece where
  | char (value : Char)
  | unit (value : Nat)
  deriving Repr, Inhabited

/-- Joins each high surrogate with the low one that must follow it; absent if one
stands alone. -/
def joinPieces : List Piece → Option (List Char)
  | [] => some []
  | .char c :: rest => (joinPieces rest).map (c :: ·)
  | .unit high :: .unit low :: rest =>
      if 0xD800 ≤ high ∧ high < 0xDC00 then
        if 0xDC00 ≤ low ∧ low < 0xE000 then
          (joinPieces rest).map
            (Char.ofNat (0x10000 + (high - 0xD800) * 0x400 + (low - 0xDC00)) :: ·)
        else none
      else if 0xDC00 ≤ high ∧ high < 0xE000 then none
      else (joinPieces (.unit low :: rest)).map (Char.ofNat high :: ·)
  | .unit value :: rest =>
      if 0xD800 ≤ value ∧ value < 0xE000 then none
      else (joinPieces rest).map (Char.ofNat value :: ·)

def hexDigit? (c : Char) : Option Nat :=
  if '0' ≤ c ∧ c ≤ '9' then some (c.toNat - '0'.toNat)
  else if 'a' ≤ c ∧ c ≤ 'f' then some (c.toNat - 'a'.toNat + 10)
  else if 'A' ≤ c ∧ c ≤ 'F' then some (c.toNat - 'A'.toNat + 10)
  else none

def simpleEscape? : Char → Option Char
  | '"' => some '"'
  | '\\' => some '\\'
  | '/' => some '/'
  | 'b' => some '\x08'
  | 'f' => some '\x0c'
  | 'n' => some '\n'
  | 'r' => some '\r'
  | 't' => some '\t'
  | _ => none

def literal? (name : List Char) : Option Json :=
  if name = ['n', 'u', 'l', 'l'] then some .null
  else if name = ['t', 'r', 'u', 'e'] then some (.bool true)
  else if name = ['f', 'a', 'l', 's', 'e'] then some (.bool false)
  else none

/-- Where the automaton stands; what it has collected is in reverse. -/
inductive Mode where
  | between
  | name (read : List Char)
  | number (read : List Char)
  | text (read : List Piece)
  | escape (read : List Piece)
  | unit (read : List Piece) (digits : Nat) (value : Nat)
  deriving Repr, Inhabited

structure Lexer where
  mode : Mode
  tokens : List Token
  deriving Inhabited

namespace Lexer

def start : Lexer := ⟨.between, []⟩

/-- Ends a name or a number, which nothing but the next character delimits. -/
def flush (lexer : Lexer) : Option Lexer :=
  match lexer.mode with
  | .between => some lexer
  | .name read => (literal? read.reverse).map fun value => ⟨.between, .atom value :: lexer.tokens⟩
  | .number read => (number? read.reverse).map fun value => ⟨.between, .atom value :: lexer.tokens⟩
  | _ => none

def begin (tokens : List Token) (c : Char) : Option Lexer :=
  match c with
  | ' ' | '\n' | '\r' | '\t' => some ⟨.between, tokens⟩
  | '[' => some ⟨.between, .openList :: tokens⟩
  | ']' => some ⟨.between, .closeList :: tokens⟩
  | '\x7b' => some ⟨.between, .openObject :: tokens⟩
  | '\x7d' => some ⟨.between, .closeObject :: tokens⟩
  | ',' => some ⟨.between, .comma :: tokens⟩
  | ':' => some ⟨.between, .colon :: tokens⟩
  | '"' => some ⟨.text [], tokens⟩
  | c =>
      if isDigit c || c == '-' then some ⟨.number [c], tokens⟩
      else if 'a' ≤ c ∧ c ≤ 'z' then some ⟨.name [c], tokens⟩
      else none

def step (lexer : Lexer) (c : Char) : Option Lexer :=
  let tokens := lexer.tokens
  match lexer.mode with
  | .between => begin tokens c
  | .name read =>
      if 'a' ≤ c ∧ c ≤ 'z' then some ⟨.name (c :: read), tokens⟩
      else lexer.flush.bind fun done => begin done.tokens c
  | .number read =>
      if isDigit c || c == '-' || c == '+' || c == '.' || c == 'e' || c == 'E' then
        some ⟨.number (c :: read), tokens⟩
      else lexer.flush.bind fun done => begin done.tokens c
  | .text read =>
      if c = '"' then
        some ⟨.between, .text ((joinPieces read.reverse).map String.ofList) :: tokens⟩
      else if c = '\\' then some ⟨.escape read, tokens⟩
      else if c.toNat < 0x20 then none
      else some ⟨.text (.char c :: read), tokens⟩
  | .escape read =>
      if c = 'u' then some ⟨.unit read 0 0, tokens⟩
      else (simpleEscape? c).map fun value => ⟨.text (.char value :: read), tokens⟩
  | .unit read digits value =>
      (hexDigit? c).map fun digit =>
        let value := 16 * value + digit
        if digits = 3 then ⟨.text (.unit value :: read), tokens⟩
        else ⟨.unit read (digits + 1) value, tokens⟩

end Lexer

def tokens? (text : List Char) : Option (List Token) :=
  ((text.foldlM Lexer.step Lexer.start).bind Lexer.flush).map fun lexer => lexer.tokens.reverse

end SeqSlice.Json
