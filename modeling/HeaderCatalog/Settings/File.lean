import HeaderCatalog.Json.Shape
import HeaderCatalog.Settings.Basic
import HeaderCatalog.Yaml.Document
import HeaderCatalog.Yaml.Printer

set_option autoImplicit false

/-!
# Settings files

A settings file names its version and any of the settings; what it does not name keeps its value.  Unlike in other
structures, a key that names no field is an error.  A file is read from YAML, where an unquoted scalar is a number, a
truth value or nothing where the field asks for it.
-/

namespace HeaderCatalog

/-- What a settings file says. -/
structure SettingsFile where
  version : Option UInt32 := none
  sdkPath : Option String := none
  minVersion : Option String := none
  excludeSystem : Option Bool := none
  frameworkFilter : Option String := none
  frameworkName : Option String := none
  deriving DecidableEq, Repr, Inhabited

namespace SettingsFile

/-- The fields of a settings file, in order. -/
def fieldNames : List String :=
  ["version", "sdk_path", "min_version", "exclude_system_apis", "framework_filter", "framework_name"]

/-- Whether keys name fields, and each at most once. -/
def areFields (keys : List String) : Bool := keys.all fieldNames.contains && decide keys.Nodup

/-- The settings that result from a file on top of others. -/
def apply (file : SettingsFile) (settings : Settings) : Settings where
  sdkPath := file.sdkPath.getD settings.sdkPath
  minVersion := file.minVersion.getD settings.minVersion
  excludeSystem := file.excludeSystem.getD settings.excludeSystem
  frameworkFilter := file.frameworkFilter.getD settings.frameworkFilter
  frameworkName := file.frameworkName.getD settings.frameworkName

/-- The file that names every setting. -/
def ofSettings (settings : Settings) : SettingsFile where
  version := some supportedFileVersion
  sdkPath := some settings.sdkPath
  minVersion := some settings.minVersion
  excludeSystem := some settings.excludeSystem
  frameworkFilter := some settings.frameworkFilter
  frameworkName := some settings.frameworkName

@[simp] theorem apply_ofSettings (settings other : Settings) : (ofSettings settings).apply other = settings := rfl

/-! ## JSON -/

/-- Reads a settings file from an object without further keys, or from a list of all its fields. -/
def ofJson? (value : Json) : Option SettingsFile := do
  let complete := match value with
    | .object entries => areFields (entries.map (·.1))
    | .list items => items.length == fieldNames.length
    | _ => false
  if !complete then none
  else
    match ← value.fields? fieldNames with
    | [version, sdkPath, minVersion, excludeSystem, frameworkFilter, frameworkName] =>
      return {
        version := ← Json.optional Json.uint32? version
        sdkPath := ← Json.optional Json.text? sdkPath
        minVersion := ← Json.optional Json.text? minVersion
        excludeSystem := ← Json.optional Json.bool? excludeSystem
        frameworkFilter := ← Json.optional Json.text? frameworkFilter
        frameworkName := ← Json.optional Json.text? frameworkName }
    | _ => none

/-! ## YAML -/

/-- Reads a settings file from the scalars of its fields. -/
def ofScalars? (scalarOf : String → Option Yaml.Scalar) : Option SettingsFile := do
  return {
    version := ← Yaml.Scalar.optional Yaml.Scalar.uint32? (scalarOf "version")
    sdkPath := ← Yaml.Scalar.optional Yaml.Scalar.text? (scalarOf "sdk_path")
    minVersion := ← Yaml.Scalar.optional Yaml.Scalar.text? (scalarOf "min_version")
    excludeSystem := ← Yaml.Scalar.optional Yaml.Scalar.bool? (scalarOf "exclude_system_apis")
    frameworkFilter := ← Yaml.Scalar.optional Yaml.Scalar.text? (scalarOf "framework_filter")
    frameworkName := ← Yaml.Scalar.optional Yaml.Scalar.text? (scalarOf "framework_name") }

/-- Reads a settings file from a mapping without further keys, or from an empty document. -/
def ofYaml? : Yaml.Document → Option SettingsFile
  | .mapping entries =>
    let fields := entries.map fun (key, value) => (key.text, value)
    if areFields (fields.map (·.1)) then ofScalars? (fields.lookup ·) else none
  | .scalar scalar => if scalar.form == .plain && scalar.text.isEmpty then some {} else none

/-- The text of a settings file, with the fields that it names.  The version always stands first. -/
def toYaml (file : SettingsFile) : String :=
  Yaml.wordEntry "version" (file.version.elim "null" fun version => toString version.toNat) ++
    file.sdkPath.elim "" (Yaml.textEntry "sdk_path") ++
    file.minVersion.elim "" (Yaml.textEntry "min_version") ++
    file.excludeSystem.elim ""
      (fun excludes => Yaml.wordEntry "exclude_system_apis" (if excludes then "true" else "false")) ++
    file.frameworkFilter.elim "" (Yaml.textEntry "framework_filter") ++
    file.frameworkName.elim "" (Yaml.textEntry "framework_name")

end SettingsFile

namespace Settings

/-- The text of a file that names every setting. -/
def toFile (settings : Settings) : String := (SettingsFile.ofSettings settings).toYaml

/-- Reads settings from the text of a file, whose version has to be the supported one.  What the file does not name
keeps its default, and the result is checked. -/
def ofFile? (text : String) : Except SettingsError Settings :=
  match (Yaml.Document.ofText? text).bind SettingsFile.ofYaml? with
  | none => .error .malformed
  | some file =>
    match file.version with
    | none => .error .missingFileVersion
    | some version =>
      if version != supportedFileVersion then .error (.unsupportedFileVersion version)
      else
        let settings := file.apply {}
        settings.validate.map fun _ => settings

end Settings

end HeaderCatalog
