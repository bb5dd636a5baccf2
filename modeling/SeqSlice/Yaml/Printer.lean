import SeqSlice.Yaml.Quoting

/-! YAML values as text. Collections are written as blocks, empty ones inline. The
items of a list stand at the column of its key, the pairs of a map two columns
behind it. -/

set_option autoImplicit false
namespace SeqSlice.Yaml

def Line.indent (line : Line) : Line :=
  if line.text.isEmpty then line else { line with text := ' ' :: ' ' :: line.text }

def mark (start : List Char) : List Line → List Line
  | [] => [.ofText start]
  | first :: rest => { first with text := start ++ first.text } :: rest.map Line.indent

namespace Value

mutual

def lines : Value → List Line
  | .null => [.ofText "null".toList]
  | .bool true => [.ofText "true".toList]
  | .bool false => [.ofText "false".toList]
  | .int value => [.ofText (toString value).toList]
  | .real numeral => [.ofText numeral]
  | .text value => textLines value.toList
  | .list [] => [.ofText "[]".toList]
  | .list items => itemLines items
  | .map [] => [.ofText ['\x7b', '\x7d']]
  | .map pairs => pairLines pairs
  | .tagged name value =>
      let start := '!' :: name.toList
      match value with
      | .list (_ :: _) | .map (_ :: _) => .ofText start :: lines value
      | _ => mark (start ++ [' ']) (lines value)

def itemLines : List Value → List Line
  | [] => []
  | item :: rest => mark ['-', ' '] (lines item) ++ itemLines rest

def pairLines : List (Value × Value) → List Line
  | [] => []
  | (key, value) :: rest =>
      let start := (lines key).flatMap (·.text)
      let written := lines value
      (match value with
        | .list (_ :: _) => .ofText (start ++ [':']) :: written
        | .map (_ :: _) => .ofText (start ++ [':']) :: written.map Line.indent
        | _ => mark (start ++ [':', ' ']) written) ++ pairLines rest

end

def render (value : Value) : String :=
  String.ofList (value.lines.flatMap fun line => line.text ++ [line.ending])

end Value
end SeqSlice.Yaml
