import SeqSlice.Json.Token
import SeqSlice.Yaml.Glyph

/-! The text of plain and of quoted scalars. Inside both, a run of blanks is kept
if it lies on one line; if it spans lines it is folded. -/

set_option autoImplicit false
namespace SeqSlice.Yaml

/-- What a run of blanks stands for. A single line break becomes a space, and of
several the first is dropped. Behind an escaped line break only the breaks are kept. -/
def foldBlanks (escaped : Bool) (run : List Char) : List Char :=
  let breaks := run.filter isLineBreak
  if escaped then breaks
  else
    match breaks with
    | [] => run
    | ['\n'] => [' ']
    | '\n' :: more => more
    | more => more

structure ScalarEnd where
  text : List Char
  rest : List Glyph
  broken : Bool
  deriving Repr, Inhabited

/-- A plain scalar ends here, before or behind a run of blanks. Run and text are in
reverse. -/
def plainEnd (run : List Glyph) (text : List Char) (rest : List Glyph) : Option ScalarEnd :=
  some ⟨text.reverse, rest, run.any Glyph.isBreak⟩

def isFlowMark (c : Char) : Bool :=
  c == ',' || c == '[' || c == ']' || c == '\x7b' || c == '\x7d'

/-- Reads on inside a plain scalar. The run of blanks before this place and the
text before that run are in reverse. Lines go on at the given column or behind it. -/
def plainFrom (inFlow : Bool) (indent : Nat) (run : List Glyph) (text : List Char) :
    List Glyph → Option ScalarEnd
  | [] => plainEnd run text []
  | glyph :: rest =>
      if glyph.isBlank then
        if glyph.char == '\t' && run.any Glyph.isBreak && glyph.column < indent then none
        else plainFrom inFlow indent (glyph :: run) text rest
      else if !run.isEmpty && (atDocumentMark (glyph :: rest) || glyph.char == '#' ||
          (!inFlow && glyph.column < indent)) then plainEnd run text (glyph :: rest)
      else if inFlow && glyph.char == ':' &&
          rest.head?.any (fun next => isFlowMark next.char || next.char == '?') then none
      else if (glyph.char == ':' && atBlank rest) || (inFlow && isFlowMark glyph.char) then
        plainEnd run text (glyph :: rest)
      else
        let blanks := foldBlanks false (run.reverse.map (·.char))
        plainFrom inFlow indent [] (glyph.char :: (blanks.reverse ++ text)) rest

def escape? : Char → Option Char
  | '0' => some '\x00'
  | 'a' => some '\x07'
  | 'b' => some '\x08'
  | 't' | '\t' => some '\t'
  | 'n' => some '\n'
  | 'v' => some '\x0b'
  | 'f' => some '\x0c'
  | 'r' => some '\r'
  | 'e' => some '\x1b'
  | ' ' => some ' '
  | '"' => some '"'
  | '/' => some '/'
  | '\\' => some '\\'
  | 'N' => some '\u0085'
  | '_' => some '\u00a0'
  | 'L' => some '\u2028'
  | 'P' => some '\u2029'
  | _ => none

def codeLength? : Char → Option Nat
  | 'x' => some 2
  | 'u' => some 4
  | 'U' => some 8
  | _ => none

def charOfCode? (code : Nat) : Option Char :=
  if code < 0xD800 ∨ (0xDFFF < code ∧ code ≤ 0x10FFFF) then some (Char.ofNat code) else none

/-- Where the reader of a quoted scalar stands. -/
inductive QuoteMode where
  | text
  | blanks (escaped : Bool) (run : List Char)
  | quote
  | escape
  | code (missing value : Nat)
  deriving Repr, Inhabited

def QuoteMode.flush (mode : QuoteMode) (text : List Char) : List Char :=
  match mode with
  | .blanks escaped run => (foldBlanks escaped run.reverse).reverse ++ text
  | _ => text

def quotedFrom (double : Bool) (mode : QuoteMode) (text : List Char) :
    List Glyph → Option ScalarEnd
  | [] =>
      match mode with
      | .quote => some ⟨text.reverse, [], false⟩
      | _ => none
  | glyph :: rest =>
      let c := glyph.char
      match mode with
      | .quote =>
          if c == '\'' then quotedFrom double .text ('\'' :: text) rest
          else some ⟨text.reverse, glyph :: rest, false⟩
      | .escape =>
          if glyph.isBreak then quotedFrom double (.blanks true []) text rest
          else
            match codeLength? c, escape? c with
            | some digits, _ => quotedFrom double (.code digits 0) text rest
            | none, some plain => quotedFrom double .text (plain :: text) rest
            | none, none => none
      | .code missing value =>
          match Json.hexDigit? c with
          | none => none
          | some digit =>
              let value := 16 * value + digit
              if missing ≤ 1 then
                match charOfCode? value with
                | some plain => quotedFrom double .text (plain :: text) rest
                | none => none
              else quotedFrom double (.code (missing - 1) value) text rest
      | _ =>
          if atDocumentMark (glyph :: rest) then none
          else if glyph.isBlank then
            match mode with
            | .blanks escaped run => quotedFrom double (.blanks escaped (c :: run)) text rest
            | _ => quotedFrom double (.blanks false [c]) text rest
          else
            let text := mode.flush text
            if double then
              if c == '"' then some ⟨text.reverse, rest, false⟩
              else if c == '\\' then quotedFrom double .escape text rest
              else quotedFrom double .text (c :: text) rest
            else if c == '\'' then quotedFrom double .quote text rest
            else quotedFrom double .text (c :: text) rest

end SeqSlice.Yaml
