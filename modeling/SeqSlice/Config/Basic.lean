import SeqSlice.Program.Name

/-! The configuration of a run, and when it is acceptable. -/

set_option autoImplicit false
namespace SeqSlice

structure Reflection where
  /-- Calls that look up a class by name. A criterion that holds one makes the
  methods below opaque. -/
  classLookup : List MethodName
  classNewInstance : MethodName
  constructorNewInstance : MethodName
  /-- Takes the object it acts on as its first argument. -/
  methodInvoke : MethodName
  deriving DecidableEq, Repr, Inhabited

namespace Reflection

def default : Reflection where
  classLookup := [⟨"java.lang.Class", "forName"⟩, ⟨"java.lang.Object", "getClass"⟩]
  classNewInstance := ⟨"java.lang.Class", "newInstance"⟩
  constructorNewInstance := ⟨"java.lang.reflect.Constructor", "newInstance"⟩
  methodInvoke := ⟨"java.lang.reflect.Method", "invoke"⟩

def reflectiveMethods (reflection : Reflection) : List MethodName :=
  [reflection.classNewInstance, reflection.constructorNewInstance, reflection.methodInvoke]

def isNewInstance (reflection : Reflection) (cls name : String) : Bool :=
  reflection.classNewInstance.names cls name ||
    reflection.constructorNewInstance.names cls name

end Reflection

structure Config where
  /-- Keep loops and recursion; otherwise both are cut. -/
  retainCycle : Bool
  /-- Extend criteria by the calls that create their receivers. -/
  extendCriteria : Bool
  excludeLibrary : Bool
  excludeLibraryExtension : Bool
  /-- Methods of packages that begin with one of these are not entered. -/
  blockPackagePrefixes : List String
  outDir : String
  reflection : Reflection
  staticInitializerName : String
  classLiteralMethod : String
  deriving DecidableEq, Repr, Inhabited

namespace Config

def default : Config where
  retainCycle := true
  extendCriteria := true
  excludeLibrary := false
  excludeLibraryExtension := false
  blockPackagePrefixes := []
  outDir := "output"
  reflection := Reflection.default
  staticInitializerName := "<clinit>"
  classLiteralMethod := "class$"

def isStaticInitializer (config : Config) (method : String) : Bool :=
  method == config.staticInitializerName

end Config

inductive ConfigChange where
  | retainCycle (value : Bool)
  | extendCriteria (value : Bool)
  | excludeLibrary (value : Bool)
  | excludeLibraryExtension (value : Bool)
  | blockPackagePrefix (packagePrefix : String)
  | outDir (dir : String)
  deriving DecidableEq, Repr, Inhabited

namespace Config

def change (config : Config) : ConfigChange → Config
  | .retainCycle value => { config with retainCycle := value }
  | .extendCriteria value => { config with extendCriteria := value }
  | .excludeLibrary value => { config with excludeLibrary := value }
  | .excludeLibraryExtension value => { config with excludeLibraryExtension := value }
  | .blockPackagePrefix packagePrefix =>
      { config with blockPackagePrefixes := config.blockPackagePrefixes ++ [packagePrefix] }
  | .outDir dir => { config with outDir := dir }

def changeAll (config : Config) (changes : List ConfigChange) : Config :=
  changes.foldl change config

end Config

inductive ConfigFlaw where
  | emptyOutDir
  | emptyStaticInitializer
  | blankPrefix
  | duplicatePrefix (packagePrefix : String)
  | blankPattern (pattern : MethodName)
  deriving DecidableEq, Repr, Inhabited

def ConfigFlaw.message : ConfigFlaw → String
  | .emptyOutDir => "TailorConfig: out_dir must not be empty"
  | .emptyStaticInitializer => "TailorConfig: static_initializer_name must not be empty"
  | .blankPrefix => "TailorConfig: blank package prefix in block_package_prefixes"
  | .duplicatePrefix packagePrefix =>
      s!"TailorConfig: duplicate package prefix '{packagePrefix}'"
  | .blankPattern pattern => s!"ReflectionConfig: blank method pattern '{pattern.render}'"

inductive ConfigError where
  | missingVersion
  | unsupportedVersion (version : Nat)
  | methodPattern (text : String)
  | io
  | yaml
  | invalid (flaw : ConfigFlaw)
  deriving DecidableEq, Repr, Inhabited

def ConfigError.message : ConfigError → String
  | .missingVersion => "tailor config has no 'version' key (expected 'version: 1')"
  | .unsupportedVersion version =>
      s!"tailor config version {version} is not supported (known: 1)"
  | .methodPattern text => s!"'{text}' is not a qualified method name (Class.method)"
  | .io => "cannot read tailor config"
  | .yaml => "malformed tailor config"
  | .invalid flaw => flaw.message

namespace Config

def prefixFlaws (seen : List String) : List String → List ConfigFlaw
  | [] => []
  | first :: rest =>
      (if Text.isBlankText first then [ConfigFlaw.blankPrefix]
        else if seen.contains first then [.duplicatePrefix first] else []) ++
      prefixFlaws (first :: seen) rest

def patternFlaws (reflection : Reflection) : List ConfigFlaw :=
  ((reflection.classLookup ++ reflection.reflectiveMethods).filter fun pattern =>
    Text.isBlankText pattern.cls || Text.isBlankText pattern.name).map .blankPattern

/-- Every flaw, in the order in which they are looked for. -/
def flaws (config : Config) : List ConfigFlaw :=
  (if config.outDir.isEmpty then [.emptyOutDir] else []) ++
  (if Text.isBlankText config.staticInitializerName then [.emptyStaticInitializer] else []) ++
  prefixFlaws [] config.blockPackagePrefixes ++
  patternFlaws config.reflection

def validate (config : Config) : Except ConfigError Unit :=
  match config.flaws with
  | [] => .ok ()
  | flaw :: _ => .error (.invalid flaw)

end Config
end SeqSlice
