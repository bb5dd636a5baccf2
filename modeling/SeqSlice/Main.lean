import SeqSlice.Cli.Script

/-! The program: reads the files that a command names and makes its effects. -/

set_option autoImplicit false
namespace SeqSlice

def usage : String :=
  "usage: run --program FILE --sc-file FILE [--config FILE] [--out-dir DIR]\n" ++
  "         [--retain-cycle BOOL] [--extend-sc BOOL] [--exclude-library BOOL]\n" ++
  "         [--exclude-library-extension BOOL] [--block-package-prefix TEXT]...\n" ++
  "       default-config"

def readText (path : String) : IO (Option String) := do
  try
    return some (← IO.FS.readFile path)
  catch _ => return none

def Effect.perform : Effect → IO Bool
  | .print text => do
      IO.print text
      return true
  | .save base name text => do
      try
        unless base.isEmpty do
          IO.FS.createDirAll base
        IO.FS.writeFile (Path.join base name) text
        return true
      catch _ => return false

def performAll : List Effect → IO Bool
  | [] => return true
  | effect :: rest => do
      if ← effect.perform then performAll rest else return false

def fail (error : Error) : IO UInt32 := do
  IO.eprintln s!"Error: {error.message}"
  return UInt32.ofNat error.exitCode

def runArguments (arguments : List String) : IO UInt32 := do
  match Command.ofArguments? arguments with
  | none =>
      IO.eprintln usage
      return UInt32.ofNat badArgumentsCode
  | some command =>
      let texts ← command.inputs.mapM fun path => do return (path, ← readText path)
      let script := command.script fun path => (texts.lookup path).join
      if ← performAll script.effects then
        match script.failure with
        | none => return 0
        | some error => fail error
      else fail .io

end SeqSlice

def main (arguments : List String) : IO UInt32 := SeqSlice.runArguments arguments
