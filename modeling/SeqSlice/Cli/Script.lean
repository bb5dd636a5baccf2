import SeqSlice.Cli.Command
import SeqSlice.Config.Yaml
import SeqSlice.Slice.Report
import SeqSlice.Storage.Disk

/-! What a command does, as a list of effects that is fixed by the files it reads.
All files are read before the first one is written. -/

set_option autoImplicit false
namespace SeqSlice

inductive Effect where
  | print (text : String)
  | save (base name text : String)
  deriving DecidableEq, Repr, Inhabited

structure Script where
  effects : List Effect
  failure : Option Error
  deriving DecidableEq, Repr, Inhabited

/-- Unknown ids end a run in a different way from all other failures. -/
def Error.exitCode : Error → Nat
  | .unknown _ => 101
  | _ => 1

def badArgumentsCode : Nat := 2

namespace RunOptions

variable (options : RunOptions) (read : String → Option String)

def readConfig : Except Error Config :=
  match options.config with
  | none => .ok Config.default
  | some path =>
      match read path with
      | none => .error (.config .io)
      | some text => (Config.parse text).mapError Error.config

def load : Except Error (Program × Config) := do
  let config := options.override (← options.readConfig read)
  config.validate.mapError Error.config
  match read options.program with
  | none => throw .io
  | some text => return (← (Program.parse text).mapError Error.ofLoad, config)

def readReports (program : Program) (config : Config) : Except Error (List Report) :=
  match read options.criteria with
  | none => .error (.criteria .io)
  | some text => Report.ofCriteria program config text

end RunOptions

def Report.effects (report : Report) (base : String) : List Effect :=
  (if report.slice.isEmpty then
    [.print (s!"The tailored program for tail p{report.slice.tail} is empty, which means that " ++
      "the given criteria should be infeasible (if the ICFG is sound).\n")]
  else []) ++
  [.save base report.name report.text,
    .print s!"Dumping analysis results to {Path.join base report.name} ...\n"]

def RunOptions.script (options : RunOptions) (read : String → Option String) : Script :=
  match options.load read with
  | .error error => ⟨[], some error⟩
  | .ok (program, config) =>
      let start := Effect.print "Tailor starts.\n"
      match options.readReports read program config with
      | .error error => ⟨[start], some error⟩
      | .ok reports =>
          ⟨start :: reports.flatMap (·.effects config.outDir) ++ [.print "Tailor finishes.\n"], none⟩

def Command.script (command : Command) (read : String → Option String) : Script :=
  match command with
  | .run options => options.script read
  | .defaultConfig => ⟨[.print Config.default.render], none⟩

def Command.inputs : Command → List String
  | .run options => options.config.toList ++ [options.program, options.criteria]
  | .defaultConfig => []

structure Outcome where
  code : Nat
  output : String
  disk : Disk
  deriving Repr, Inhabited

/-- Makes the effects one by one; a file that cannot be written ends it. -/
def Script.performFrom (failure : Option Error) (output : String) (disk : Disk) :
    List Effect → Outcome
  | [] => ⟨(failure.map Error.exitCode).getD 0, output, disk⟩
  | .print text :: rest => performFrom failure (output ++ text) disk rest
  | .save base name text :: rest =>
      match disk.save? base name text with
      | none => ⟨Error.io.exitCode, output, disk⟩
      | some disk => performFrom failure output disk rest

def Disk.runCommand (disk : Disk) (arguments : List String) : Outcome :=
  match Command.ofArguments? arguments with
  | none => ⟨badArgumentsCode, "", disk⟩
  | some command =>
      let script := command.script disk.read?
      Script.performFrom script.failure "" disk script.effects

end SeqSlice
