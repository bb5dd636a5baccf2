import SeqSlice.Config.Basic
import SeqSlice.Json.Basic

/-! The JSON form of a configuration. -/

set_option autoImplicit false
namespace SeqSlice

def Reflection.toJson (reflection : Reflection) : Json := .object [
  ("class_lookup", .ofList (fun pattern => .text pattern.render) reflection.classLookup),
  ("class_new_instance", .text reflection.classNewInstance.render),
  ("constructor_new_instance", .text reflection.constructorNewInstance.render),
  ("method_invoke", .text reflection.methodInvoke.render)]

def Config.toJson (config : Config) : Json := .object [
  ("retain_cycle", .bool config.retainCycle),
  ("extend_sc", .bool config.extendCriteria),
  ("exclude_library", .bool config.excludeLibrary),
  ("exclude_library_extension", .bool config.excludeLibraryExtension),
  ("block_package_prefixes", .ofList .text config.blockPackagePrefixes),
  ("out_dir", .text config.outDir),
  ("reflection", config.reflection.toJson),
  ("static_initializer_name", .text config.staticInitializerName),
  ("class_literal_method", .text config.classLiteralMethod)]

end SeqSlice
