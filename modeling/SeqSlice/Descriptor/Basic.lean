import SeqSlice.Program.Name
import SeqSlice.Text.Numeral

/-! Descriptors of calls, `caller/callee/line`. A method is written `Class.method`
or as a signature `<Class: result method(arguments)>`. Without a line, any line is
meant. -/

set_option autoImplicit false
namespace SeqSlice

inductive DescriptorFlaw where
  | missingCallee
  | invalidLine (line : String)
  | tooManyFields
  | missingColon
  | missingMethodName
  | missingDot
  | emptyName
  deriving DecidableEq, Repr, Inhabited

def DescriptorFlaw.reason : DescriptorFlaw → String
  | .missingCallee => "missing callee"
  | .invalidLine line => s!"invalid line '{line}'"
  | .tooManyFields => "too many '/' separated fields"
  | .missingColon => "missing ':' in signature"
  | .missingMethodName => "missing method name in signature"
  | .missingDot => "expected Class.method"
  | .emptyName => "empty class or method name"

inductive CriteriaError where
  | io
  | unknownClass (name : String) (line : Nat)
  | malformed (text : String) (flaw : DescriptorFlaw)
  deriving DecidableEq, Repr, Inhabited

def CriteriaError.message : CriteriaError → String
  | .io => "Cannot read criteria"
  | .unknownClass name line => s!"Unknown class '{name}' in criteria line {line}"
  | .malformed text flaw => s!"Malformed call descriptor '{text}': {flaw.reason}"

namespace MethodName

/-- What stands behind the angle bracket of a signature: the class up to the first
colon, then the second word up to its parenthesis. -/
def ofSignature (inner : List Char) : Except DescriptorFlaw (List Char × List Char) :=
  let inner := if inner.getLast? = some '>' then inner.dropLast else inner
  match Text.cutFirst ':' inner with
  | none => .error .missingColon
  | some (cls, rest) =>
      match (Text.words rest)[1]? with
      | none => .error .missingMethodName
      | some word => .ok (Text.trim cls, word.takeWhile (· != '('))

def ofReference (text : List Char) : Except DescriptorFlaw (List Char × List Char) :=
  match text with
  | '<' :: inner => ofSignature inner
  | _ =>
      match Text.cutLast '.' text with
      | some parts => .ok parts
      | none => .error .missingDot

/-- Reads either way of writing a method. Errors quote the trimmed text. -/
def parseReference (text : List Char) : Except CriteriaError MethodName :=
  let trimmed := Text.trim text
  match ofReference trimmed with
  | .error flaw => .error (.malformed (String.ofList trimmed) flaw)
  | .ok (cls, name) =>
      if cls.isEmpty || name.isEmpty then .error (.malformed (String.ofList trimmed) .emptyName)
      else .ok ⟨String.ofList cls, String.ofList name⟩

end MethodName

structure CallDescriptor where
  caller : MethodName
  callee : MethodName
  line : Option Int
  deriving DecidableEq, Repr, Inhabited

namespace CallDescriptor

def parseLine (field : List Char) : Except DescriptorFlaw (Option Int) :=
  match Text.trim field with
  | [] => .ok none
  | trimmed =>
      match Text.word32? trimmed with
      | some line => .ok (some line)
      | none => .error (.invalidLine (String.ofList trimmed))

/-- The fields of a descriptor; faults of the line come before faults of the
methods. -/
def fields (text : List Char) : Except DescriptorFlaw (List Char × List Char × Option Int) :=
  match text.splitOn '/' with
  | caller :: callee :: rest =>
      match rest with
      | [] => .ok (caller, callee, none)
      | line :: more => do
          let line ← parseLine line
          if more.isEmpty then return (caller, callee, line) else throw .tooManyFields
  | _ => .error .missingCallee

def parse (text : List Char) : Except CriteriaError CallDescriptor :=
  match fields text with
  | .error flaw => .error (.malformed (String.ofList text) flaw)
  | .ok (caller, callee, line) => do
      let caller ← MethodName.parseReference caller
      let callee ← MethodName.parseReference callee
      return { caller, callee, line }

def render (descriptor : CallDescriptor) : String :=
  descriptor.caller.render ++ "/" ++ descriptor.callee.render ++ "/" ++
    match descriptor.line with
    | some line => toString line
    | none => ""

def matchesLine (descriptor : CallDescriptor) (line : Int) : Bool :=
  descriptor.line.all (· == line)

end CallDescriptor
end SeqSlice
