import SeqSlice.Json.Token

/-! JSON values from tokens, by a pushdown automaton: the stack holds the
containers that are still open. -/

set_option autoImplicit false
namespace SeqSlice.Json

/-- An open container; what it holds so far is in reverse. -/
inductive Frame where
  | list (items : List Json)
  | object (fields : List (Option String × Json)) (key : Option String)
  deriving Inhabited

inductive Expected where
  | value
  | valueOrClose
  | key
  | keyOrClose
  | colon
  | commaOrClose
  | nothing (value : Json)
  deriving Inhabited

structure ParserState where
  stack : List Frame
  expected : Expected
  deriving Inhabited

def ofFields (fields : List (Option String × Json)) : Json :=
  match fields.mapM fun (key, value) => key.map (·, value) with
  | some fields => .object fields
  | none => .unreadable

namespace ParserState

def start : ParserState := ⟨[], .value⟩

def deliver (stack : List Frame) (value : Json) : ParserState :=
  match stack with
  | [] => ⟨[], .nothing value⟩
  | .list items :: rest => ⟨.list (value :: items) :: rest, .commaOrClose⟩
  | .object fields key :: rest => ⟨.object ((key, value) :: fields) key :: rest, .commaOrClose⟩

def beginValue (stack : List Frame) : Token → Option ParserState
  | .openList => some ⟨.list [] :: stack, .valueOrClose⟩
  | .openObject => some ⟨.object [] none :: stack, .keyOrClose⟩
  | .atom value => some (deliver stack value)
  | .text (some value) => some (deliver stack (.text value))
  | .text none => some (deliver stack .unreadable)
  | _ => none

def beginField (stack : List Frame) : Token → Option ParserState
  | .text key =>
      match stack with
      | .object fields _ :: rest => some ⟨.object fields key :: rest, .colon⟩
      | _ => none
  | _ => none

def close (stack : List Frame) (token : Token) : Option ParserState :=
  match token, stack with
  | .closeList, .list items :: rest => some (deliver rest (.list items.reverse))
  | .closeObject, .object fields _ :: rest => some (deliver rest (ofFields fields.reverse))
  | _, _ => none

def step (state : ParserState) (token : Token) : Option ParserState :=
  let stack := state.stack
  match state.expected with
  | .value => beginValue stack token
  | .valueOrClose => (close stack token).orElse fun _ => beginValue stack token
  | .key => beginField stack token
  | .keyOrClose => (close stack token).orElse fun _ => beginField stack token
  | .colon =>
      match token with
      | .colon => some ⟨stack, .value⟩
      | _ => none
  | .commaOrClose =>
      match token, stack with
      | .comma, .list _ :: _ => some ⟨stack, .value⟩
      | .comma, .object _ _ :: _ => some ⟨stack, .key⟩
      | _, _ => close stack token
  | .nothing _ => none

end ParserState

def ofTokens? (tokens : List Token) : Option Json :=
  (tokens.foldlM ParserState.step ParserState.start).bind fun state =>
    match state.expected with
    | .nothing value => some value
    | _ => none

def parse? (text : String) : Option Json := (tokens? text.toList).bind ofTokens?

end SeqSlice.Json
