import SeqSlice.Config.Basic

/-! The command line: which command is given, and with which options. -/

set_option autoImplicit false
namespace SeqSlice

inductive OptionKey where
  | program
  | criteria
  | config
  | outDir
  | retainCycle
  | extendCriteria
  | excludeLibrary
  | excludeLibraryExtension
  | blockPackagePrefix
  deriving DecidableEq, Repr, Inhabited

namespace OptionKey

def all : List OptionKey :=
  [.program, .criteria, .config, .outDir, .retainCycle, .extendCriteria, .excludeLibrary,
    .excludeLibraryExtension, .blockPackagePrefix]

def long : OptionKey → String
  | .program => "program"
  | .criteria => "sc-file"
  | .config => "config"
  | .outDir => "out-dir"
  | .retainCycle => "retain-cycle"
  | .extendCriteria => "extend-sc"
  | .excludeLibrary => "exclude-library"
  | .excludeLibraryExtension => "exclude-library-extension"
  | .blockPackagePrefix => "block-package-prefix"

def short? : OptionKey → Option Char
  | .program => some 'p'
  | .criteria => some 's'
  | .config => some 'c'
  | .outDir => some 'o'
  | _ => none

def isPath : OptionKey → Bool
  | .program | .criteria | .config | .outDir => true
  | _ => false

/-- Paths are not empty, switches are set by name, and a package may be any text. -/
def accepts (key : OptionKey) (value : String) : Bool :=
  if key.isPath then !value.isEmpty
  else key == .blockPackagePrefix || value == "true" || value == "false"

def isRepeatable (key : OptionKey) : Bool := key == .blockPackagePrefix

def ofLong? (name : String) : Option OptionKey := all.find? (·.long == name)

def ofShort? (letter : Char) : Option OptionKey := all.find? (·.short? == some letter)

end OptionKey

/-- An option as written, with the value that is attached to it: behind an equals
sign or, for a letter, directly. -/
def readOption? (argument : String) : Option (OptionKey × Option String) :=
  match argument.toList with
  | '-' :: '-' :: body =>
      match Text.cutFirst '=' body with
      | some (name, value) =>
          (OptionKey.ofLong? (String.ofList name)).map (·, some (String.ofList value))
      | none => (OptionKey.ofLong? (String.ofList body)).map (·, none)
  | '-' :: letter :: body =>
      let value := match body with
        | [] => none
        | '=' :: value => some (String.ofList value)
        | value => some (String.ofList value)
      (OptionKey.ofShort? letter).map (·, value)
  | _ => none

/-- Taken for an option, so it is no value; a lone dash is one. -/
def looksLikeOption (argument : String) : Bool :=
  match argument.toList with
  | '-' :: _ :: _ => true
  | _ => false

/-- The options in order. Two dashes end them, and nothing may follow. -/
def readOptions? : List String → Option (List (OptionKey × String))
  | [] => some []
  | ["--"] => some []
  | [argument] =>
      match readOption? argument with
      | some (key, some value) => some [(key, value)]
      | _ => none
  | argument :: next :: rest =>
      match readOption? argument with
      | some (key, some value) => (readOptions? (next :: rest)).map ((key, value) :: ·)
      | some (key, none) =>
          if looksLikeOption next then none else (readOptions? rest).map ((key, next) :: ·)
      | none => none

structure RunOptions where
  program : String
  criteria : String
  config : Option String
  outDir : Option String
  retainCycle : Option Bool
  extendCriteria : Option Bool
  excludeLibrary : Option Bool
  excludeLibraryExtension : Option Bool
  blockPackagePrefixes : List String
  deriving DecidableEq, Repr, Inhabited

namespace RunOptions

def ofSettings? (settings : List (OptionKey × String)) : Option RunOptions := do
  let single := (settings.map (·.1)).filter fun key => !key.isRepeatable
  if !(settings.all fun setting => setting.1.accepts setting.2) || !decide single.Nodup then none
  let switch (key : OptionKey) : Option Bool := (settings.lookup key).map (· == "true")
  return {
    program := ← settings.lookup .program
    criteria := ← settings.lookup .criteria
    config := settings.lookup .config
    outDir := settings.lookup .outDir
    retainCycle := switch .retainCycle
    extendCriteria := switch .extendCriteria
    excludeLibrary := switch .excludeLibrary
    excludeLibraryExtension := switch .excludeLibraryExtension
    blockPackagePrefixes :=
      (settings.filter fun setting => setting.1 == .blockPackagePrefix).map (·.2) }

def changes (options : RunOptions) : List ConfigChange :=
  options.outDir.toList.map .outDir ++ options.retainCycle.toList.map .retainCycle ++
    options.extendCriteria.toList.map .extendCriteria ++
    options.excludeLibrary.toList.map .excludeLibrary ++
    options.excludeLibraryExtension.toList.map .excludeLibraryExtension ++
    options.blockPackagePrefixes.map .blockPackagePrefix

/-- What is given replaces what is configured; package prefixes are added. -/
def override (options : RunOptions) (config : Config) : Config :=
  config.changeAll options.changes

end RunOptions

inductive Command where
  | run (options : RunOptions)
  | defaultConfig
  deriving DecidableEq, Repr, Inhabited

def Command.ofArguments? : List String → Option Command
  | "run" :: rest => ((readOptions? rest).bind RunOptions.ofSettings?).map .run
  | ["default-config"] | ["default-config", "--"] => some .defaultConfig
  | _ => none

end SeqSlice
