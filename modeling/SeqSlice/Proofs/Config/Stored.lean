import SeqSlice.Config.Yaml
import SeqSlice.Proofs.Error
import SeqSlice.Proofs.Text.Part

/-! Configurations survive being stored: what was written is read back as the same
configuration. This rests on the method names of a configuration, which were read
themselves and so can be read again from how they are written. -/

set_option autoImplicit false
namespace SeqSlice

namespace MethodName

def Written (method : MethodName) : Prop := parse? method.render = some method

instance (method : MethodName) : Decidable method.Written :=
  inferInstanceAs (Decidable (parse? method.render = some method))

theorem toList_render (method : MethodName) :
    method.render.toList = method.cls.toList ++ '.' :: method.name.toList := by
  simp [render, String.toList_append]

theorem written_of_parse? {text : String} {method : MethodName} (found : parse? text = some method) :
    method.Written := by
  have again : Text.trim method.render.toList = Text.trim text.toList := by
    unfold parse? at found
    split at found
    · next cls name cut =>
        split at found
        · cases found
        · obtain rfl := Option.some.inj found
          rw [toList_render, String.toList_ofList, String.toList_ofList, ← Text.eq_of_cutLast cut,
            Text.trim_trim]
    · cases found
  rw [Written, parse?, again]
  exact found

theorem written_of_ofYaml? {value : Yaml.Value} {method : MethodName}
    (found : ofYaml? value = some method) : method.Written := by
  obtain ⟨text, _, parsed⟩ := Option.bind_eq_some_iff.mp found
  exact written_of_parse? parsed

theorem Written.ofYaml?_toYaml {method : MethodName} (written : method.Written) :
    ofYaml? method.toYaml = some method := written

end MethodName

namespace YamlFields

variable {α : Type} {fields : YamlFields} {name : String} {default : α} {read : Yaml.Value → Option α}

theorem get?_eq_some {found : α} (got : fields.get? name default read = some found) :
    found = default ∨ ∃ value, read value = some found := by
  unfold get? at got
  split at got
  · exact .inl (Option.some.inj got).symm
  · next value _ => exact .inr ⟨value, got⟩

theorem get?_cons_self (value : Yaml.Value) :
    get? ((name, value) :: fields) name default read = read value := by
  simp [get?]

theorem get?_cons_of_ne {other : String} (different : name ≠ other) (value : Yaml.Value) :
    get? ((other, value) :: fields) name default read = get? fields name default read := by
  rw [get?, List.lookup_cons, beq_eq_false_iff_ne.mpr different, get?]

end YamlFields

theorem Yaml.Value.listOf?_map {α : Type} {read : Yaml.Value → Option α} {write : α → Yaml.Value}
    {values : List α} (kept : ∀ value ∈ values, read (write value) = some value) :
    Yaml.Value.listOf? read (.list (values.map write)) = some values := by
  rw [listOf?, mapM_eq_some_iff, List.forall₂_map_left_iff, List.forall₂_same]
  exact kept

namespace Reflection

structure Written (reflection : Reflection) : Prop where
  classLookup : ∀ method ∈ reflection.classLookup, method.Written
  classNewInstance : reflection.classNewInstance.Written
  constructorNewInstance : reflection.constructorNewInstance.Written
  methodInvoke : reflection.methodInvoke.Written

theorem written_default : default.Written where
  classLookup := by decide +kernel
  classNewInstance := by decide +kernel
  constructorNewInstance := by decide +kernel
  methodInvoke := by decide +kernel

theorem written_of_get? {fields : YamlFields} {name : String} {default method : MethodName}
    (written : default.Written)
    (got : fields.get? name default MethodName.ofYaml? = some method) : method.Written := by
  rcases YamlFields.get?_eq_some got with rfl | ⟨value, found⟩
  · exact written
  · exact MethodName.written_of_ofYaml? found

theorem written_of_listOf? {value : Yaml.Value} {methods : List MethodName}
    (found : value.listOf? MethodName.ofYaml? = some methods) : ∀ method ∈ methods, method.Written := by
  intro method member
  cases value with
  | list items =>
      obtain ⟨item, _, read⟩ := exists_of_forall₂ (mapM_eq_some_iff.mp found) member
      exact MethodName.written_of_ofYaml? read
  | _ => cases found

theorem written_of_ofYaml? {value : Yaml.Value} {reflection : Reflection}
    (found : ofYaml? value = some reflection) : reflection.Written := by
  simp only [ofYaml?, Option.bind_eq_bind, Option.bind_eq_some_iff, Option.pure_def,
    Option.some.injEq] at found
  obtain ⟨_, _, _, lookups, _, byClass, _, byConstructor, _, invoked, rfl⟩ := found
  refine ⟨?_, written_of_get? written_default.classNewInstance byClass,
    written_of_get? written_default.constructorNewInstance byConstructor,
    written_of_get? written_default.methodInvoke invoked⟩
  rcases YamlFields.get?_eq_some lookups with rfl | ⟨listed, read⟩
  · exact written_default.classLookup
  · exact written_of_listOf? read

theorem fieldsOfYaml?_toYaml (reflection : Reflection) : fieldsOfYaml? reflection.toYaml = some [
    ("class_lookup", .list (reflection.classLookup.map MethodName.toYaml)),
    ("class_new_instance", reflection.classNewInstance.toYaml),
    ("constructor_new_instance", reflection.constructorNewInstance.toYaml),
    ("method_invoke", reflection.methodInvoke.toYaml)] := by
  simp [fieldsOfYaml?, toYaml, fieldName?, fieldNames]

theorem Written.ofYaml?_toYaml {reflection : Reflection} (written : reflection.Written) :
    ofYaml? reflection.toYaml = some reflection := by
  have lookups := Yaml.Value.listOf?_map fun method member =>
    (written.classLookup method member).ofYaml?_toYaml
  simp [ofYaml?, fieldsOfYaml?_toYaml, YamlFields.get?_cons_self, YamlFields.get?_cons_of_ne, lookups,
    written.classNewInstance.ofYaml?_toYaml, written.constructorNewInstance.ofYaml?_toYaml,
    written.methodInvoke.ofYaml?_toYaml]

end Reflection

namespace Config

variable {config : Config}

def storedFields (config : Config) : YamlFields := [
  ("version", .int version),
  ("retain_cycle", .bool config.retainCycle),
  ("extend_sc", .bool config.extendCriteria),
  ("exclude_library", .bool config.excludeLibrary),
  ("exclude_library_extension", .bool config.excludeLibraryExtension),
  ("block_package_prefixes", .list (config.blockPackagePrefixes.map .text)),
  ("out_dir", .text config.outDir),
  ("reflection", config.reflection.toYaml),
  ("static_initializer_name", .text config.staticInitializerName),
  ("class_literal_method", .text config.classLiteralMethod)]

theorem areUntagged_texts (texts : List String) :
    Yaml.Value.areUntagged (texts.map .text) = true := by
  induction texts with
  | nil => rfl
  | cons first rest ih => simp [Yaml.Value.areUntagged, Yaml.Value.isUntagged, ih]

theorem isUntagged_toYaml (reflection : Reflection) : reflection.toYaml.isUntagged = true := by
  have lookups : Yaml.Value.areUntagged (reflection.classLookup.map MethodName.toYaml) = true := by
    rw [show MethodName.toYaml = Yaml.Value.text ∘ MethodName.render from rfl, ← List.map_map]
    exact areUntagged_texts _
  simp [Reflection.toYaml, Yaml.Value.isUntagged, Yaml.Value.arePairsUntagged, lookups,
    MethodName.toYaml]

theorem fieldsOfYaml?_toYaml (config : Config) :
    fieldsOfYaml? config.toYaml = some config.storedFields := by
  simp [fieldsOfYaml?, toYaml, storedFields, fieldNames, Yaml.Value.untag, Yaml.Value.text?,
    Yaml.Value.isUntagged, areUntagged_texts, isUntagged_toYaml]

theorem ofFields?_storedFields (written : config.reflection.Written) :
    ofFields? config.storedFields = some config := by
  have prefixes : Yaml.Value.listOf? Yaml.Value.text? (.list (config.blockPackagePrefixes.map .text)) =
      some config.blockPackagePrefixes := Yaml.Value.listOf?_map fun _ _ => rfl
  simp [ofFields?, storedFields, YamlFields.get?_cons_self, YamlFields.get?_cons_of_ne,
    Yaml.Value.bool?, Yaml.Value.text?, prefixes, written.ofYaml?_toYaml]

theorem checked_eq_ok_iff {read : Config} :
    (do read.validate; return read : Except ConfigError Config) = .ok config ↔
      read = config ∧ config.validate = .ok () := by
  rw [bind_eq_ok_iff]
  constructor
  · rintro ⟨_, checked, returned⟩
    obtain rfl := Except.ok.inj returned
    exact ⟨rfl, checked⟩
  · rintro ⟨rfl, checked⟩
    exact ⟨(), checked, rfl⟩

theorem ofYaml_eq_ok_iff {value : Yaml.Value} :
    ofYaml value = .ok config ↔
      (valueOfKey? "version" value).map Yaml.Value.untag = some (.int (.ofNat version)) ∧
        (fieldsOfYaml? value).bind ofFields? = some config ∧ config.validate = .ok () := by
  unfold ofYaml
  split
  · next found known =>
      rw [known, Option.some.injEq, Yaml.Value.int.injEq, Int.ofNat.injEq]
      by_cases same : found = version
      · subst same
        rw [if_neg (not_not.mpr (by decide))]
        cases (fieldsOfYaml? value).bind ofFields? with
        -- With the version right, what is left is the check of the fields.
        | none => exact iff_of_false throw_ne_ok (by simp)
        | some read => simpa using checked_eq_ok_iff
      · -- A version that only agrees in its low bits is refused after the fields are read.
        rw [iff_false_right (fun all => same all.1)]
        by_cases low : found % Yaml.wordSize 32 = version
        · rw [if_neg (not_not.mpr low)]
          cases (fieldsOfYaml? value).bind ofFields? with
          | none => exact throw_ne_ok
          | some read =>
              simp only [if_pos same]
              exact throw_ne_ok
        · rw [if_pos low]
          exact throw_ne_ok
  · next unknown =>
      rw [iff_false_right fun all => unknown version all.1]
      exact throw_ne_ok

theorem ofYaml_toYaml (written : config.reflection.Written) (valid : config.validate = .ok ()) :
    ofYaml config.toYaml = .ok config := by
  refine ofYaml_eq_ok_iff.mpr ⟨rfl, ?_, valid⟩
  rw [fieldsOfYaml?_toYaml, Option.bind_some, ofFields?_storedFields written]

/-! ## Where configurations come from -/

/-- The configurations of users: the default, what was read, and changes of these. -/
inductive Made : Config → Prop where
  | default : Made default
  | read {text : String} {config : Config} : parse text = .ok config → Made config
  | change {config : Config} (change : ConfigChange) : Made config → Made (config.change change)

theorem written_of_ofFields? {fields : YamlFields} (found : ofFields? fields = some config) :
    config.reflection.Written := by
  simp only [ofFields?, Option.bind_eq_bind, Option.bind_eq_some_iff, Option.pure_def,
    Option.some.injEq] at found
  obtain ⟨_, _, _, _, _, _, _, _, _, _, _, _, reflection, got, _, _, _, _, rfl⟩ := found
  rcases YamlFields.get?_eq_some got with rfl | ⟨value, read⟩
  · exact Reflection.written_default
  · exact Reflection.written_of_ofYaml? read

theorem Made.written {config : Config} (made : config.Made) : config.reflection.Written := by
  induction made with
  | default => exact Reflection.written_default
  | @read text config found =>
      unfold parse at found
      split at found
      · cases found
      · next value _ =>
          obtain ⟨fields, _, read⟩ := Option.bind_eq_some_iff.mp (ofYaml_eq_ok_iff.mp found).2.1
          exact written_of_ofFields? read
  | change change _ ih => cases change <;> exact ih

theorem Made.changeAll {config : Config} (made : config.Made) (changes : List ConfigChange) :
    (config.changeAll changes).Made := by
  induction changes generalizing config with
  | nil => exact made
  | cons first rest ih => exact ih (.change first made)

/-- A configuration without flaws is the same after it was stored and loaded, if the text
that is stored is read as the values that were written. -/
theorem Made.parse_render {config : Config} (made : config.Made) (valid : config.validate = .ok ())
    (reads : Yaml.parse? config.render = some config.toYaml) :
    parse config.render = .ok config := by
  rw [parse, reads]
  exact ofYaml_toYaml made.written valid

end Config

/-- The method names as a list, one with blanks around and in it. -/
def spacedText : String := "version: 1\nreflection: [[], Type.make, ' Run time.go ', Call.run]\n"

def spacedConfig : Config :=
  { Config.default with
    reflection := ⟨[], ⟨"Type", "make"⟩, ⟨"Run time", "go"⟩, ⟨"Call", "run"⟩⟩ }

def spacedChanges : List ConfigChange :=
  [.retainCycle false, .blockPackagePrefix "sun.", .outDir "a: b"]

theorem spacedConfig_parse_render :
    Config.parse spacedText = .ok spacedConfig ∧ (spacedConfig.changeAll spacedChanges).Made ∧
      (spacedConfig.changeAll spacedChanges).validate = .ok () ∧
      Yaml.parse? (spacedConfig.changeAll spacedChanges).render =
        some (spacedConfig.changeAll spacedChanges).toYaml ∧
      Config.parse (spacedConfig.changeAll spacedChanges).render =
        .ok (spacedConfig.changeAll spacedChanges) := by
  have found : Config.parse spacedText = .ok spacedConfig := by decide +kernel
  have made : (spacedConfig.changeAll spacedChanges).Made := (Config.Made.read found).changeAll _
  have valid : (spacedConfig.changeAll spacedChanges).validate = .ok () := by decide +kernel
  have reads : Yaml.parse? (spacedConfig.changeAll spacedChanges).render =
      some (spacedConfig.changeAll spacedChanges).toYaml := by
    -- The written text is taken as characters, which is how it is made and read.
    rw [Config.render, Yaml.Value.render, Yaml.parse?, Yaml.tokens?, String.toList_ofList]
    decide +kernel
  exact ⟨found, made, valid, reads, made.parse_render valid reads⟩

end SeqSlice
