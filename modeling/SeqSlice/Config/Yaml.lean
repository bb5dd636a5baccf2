import SeqSlice.Config.Basic
import SeqSlice.Yaml.Parser
import SeqSlice.Yaml.Printer

/-! Configurations as YAML: a version and beside it the fields, each of which may be
left out and then has its default. Names that a document has for types do not count
for the configuration itself, for its version and for its keys; anywhere else they
are refused. -/

set_option autoImplicit false
namespace SeqSlice

open Yaml (Value)

def MethodName.ofYaml? (value : Value) : Option MethodName := value.text?.bind MethodName.parse?

def MethodName.toYaml (method : MethodName) : Value := .text method.render

abbrev YamlFields := List (String × Value)

def YamlFields.get? {α : Type} (fields : YamlFields) (name : String) (default : α)
    (read : Value → Option α) : Option α :=
  match fields.lookup name with
  | none => some default
  | some value => read value

namespace Reflection

def fieldNames : List String :=
  ["class_lookup", "class_new_instance", "constructor_new_instance", "method_invoke"]

/-- The name of a field that is written by name or by its position. Positions that
no field has are kept apart from names. -/
def fieldName? : Value → Option (Option String)
  | .text name => some (if fieldNames.contains name then some name else none)
  | .int (.ofNat position) => some fieldNames[position]?
  | _ => none

/-- A map, or the list of the first fields in order. A field may stand once only. -/
def fieldsOfYaml? : Value → Option YamlFields
  | .map pairs => do
      let named ← pairs.mapM fun (key, value) => do return (← fieldName? key, value)
      let known := named.filterMap fun (name, value) => name.map (·, value)
      if (known.map (·.1)).Nodup then some known else none
  | .list items =>
      if items.length ≤ fieldNames.length then some (fieldNames.zip items) else none
  | _ => none

def ofYaml? (value : Value) : Option Reflection := do
  let fields ← fieldsOfYaml? value
  let base := Reflection.default
  return {
    classLookup := ← fields.get? "class_lookup" base.classLookup
      (Value.listOf? MethodName.ofYaml?)
    classNewInstance := ← fields.get? "class_new_instance" base.classNewInstance
      MethodName.ofYaml?
    constructorNewInstance := ← fields.get? "constructor_new_instance"
      base.constructorNewInstance MethodName.ofYaml?
    methodInvoke := ← fields.get? "method_invoke" base.methodInvoke MethodName.ofYaml? }

def toYaml (reflection : Reflection) : Value := .map [
  (.text "class_lookup", .list (reflection.classLookup.map MethodName.toYaml)),
  (.text "class_new_instance", reflection.classNewInstance.toYaml),
  (.text "constructor_new_instance", reflection.constructorNewInstance.toYaml),
  (.text "method_invoke", reflection.methodInvoke.toYaml)]

end Reflection

namespace Config

def version : Nat := 1

def fieldNames : List String :=
  ["version", "retain_cycle", "extend_sc", "exclude_library", "exclude_library_extension",
    "block_package_prefixes", "out_dir", "reflection", "static_initializer_name",
    "class_literal_method"]

/-- A configuration is a map whose keys are texts, and known ones stand once only. -/
def fieldsOfYaml? (value : Value) : Option YamlFields :=
  match value.untag with
  | .map pairs => do
      let fields ← pairs.mapM fun (key, value) => do return (← key.untag.text?, value)
      -- Keys of different types may be the same text.
      let known := (fields.map (·.1)).filter fieldNames.contains
      let plain := fields.all fun field => field.1 == "version" || field.2.isUntagged
      if known.Nodup && plain then some fields else none
  | _ => none

def ofFields? (fields : YamlFields) : Option Config := do
  let base := Config.default
  return {
    retainCycle := ← fields.get? "retain_cycle" base.retainCycle Value.bool?
    extendCriteria := ← fields.get? "extend_sc" base.extendCriteria Value.bool?
    excludeLibrary := ← fields.get? "exclude_library" base.excludeLibrary Value.bool?
    excludeLibraryExtension := ← fields.get? "exclude_library_extension"
      base.excludeLibraryExtension Value.bool?
    blockPackagePrefixes := ← fields.get? "block_package_prefixes" base.blockPackagePrefixes
      (Value.listOf? Value.text?)
    outDir := ← fields.get? "out_dir" base.outDir Value.text?
    reflection := ← fields.get? "reflection" base.reflection Reflection.ofYaml?
    staticInitializerName := ← fields.get? "static_initializer_name"
      base.staticInitializerName Value.text?
    classLiteralMethod := ← fields.get? "class_literal_method" base.classLiteralMethod
      Value.text? }

def valueOfKey? (name : String) (value : Value) : Option Value :=
  match value.untag with
  | .map pairs => (pairs.find? fun pair => pair.1.text? == some name).map (·.2)
  | _ => none

def ofYaml (value : Value) : Except ConfigError Config := do
  match (valueOfKey? "version" value).map Value.untag with
  | some (.int (.ofNat found)) =>
      -- The low 32 bits tell which version it is, but the whole of it must fit them.
      let low := found % Yaml.wordSize 32
      if low ≠ version then throw (.unsupportedVersion low)
      match (fieldsOfYaml? value).bind ofFields? with
      | some config =>
          if found ≠ version then throw .yaml
          config.validate
          return config
      | none => throw .yaml
  | _ => throw .missingVersion

def toYaml (config : Config) : Value := .map [
  (.text "version", .int version),
  (.text "retain_cycle", .bool config.retainCycle),
  (.text "extend_sc", .bool config.extendCriteria),
  (.text "exclude_library", .bool config.excludeLibrary),
  (.text "exclude_library_extension", .bool config.excludeLibraryExtension),
  (.text "block_package_prefixes", .list (config.blockPackagePrefixes.map .text)),
  (.text "out_dir", .text config.outDir),
  (.text "reflection", config.reflection.toYaml),
  (.text "static_initializer_name", .text config.staticInitializerName),
  (.text "class_literal_method", .text config.classLiteralMethod)]

def parse (text : String) : Except ConfigError Config :=
  match Yaml.parse? text with
  | none => .error .yaml
  | some value => ofYaml value

def render (config : Config) : String := config.toYaml.render

end Config
end SeqSlice
