import HeaderCatalog.Json.Shape
import HeaderCatalog.Settings.Basic

set_option autoImplicit false

/-!
# Settings as JSON

Settings are written with all five fields, and read from nothing less.
-/

namespace HeaderCatalog.Settings

/-- The settings with every field. -/
def toJson (settings : Settings) : Json :=
  .object
    [("sdk_path", .text settings.sdkPath), ("min_version", .text settings.minVersion),
      ("exclude_system_apis", .bool settings.excludeSystem), ("framework_filter", .text settings.frameworkFilter),
      ("framework_name", .text settings.frameworkName)]

/-- Reads settings; every field has to be there. -/
def ofJson? (value : Json) : Option Settings := do
  match ← value.fields? ["sdk_path", "min_version", "exclude_system_apis", "framework_filter", "framework_name"] with
  | [sdkPath, minVersion, excludeSystem, frameworkFilter, frameworkName] =>
    return {
      sdkPath := ← Json.required Json.text? sdkPath
      minVersion := ← Json.required Json.text? minVersion
      excludeSystem := ← Json.required Json.bool? excludeSystem
      frameworkFilter := ← Json.required Json.text? frameworkFilter
      frameworkName := ← Json.required Json.text? frameworkName }
  | _ => none

/-- Reading what was written gives the settings back. -/
theorem ofJson?_toJson (settings : Settings) : ofJson? settings.toJson = some settings := rfl

end HeaderCatalog.Settings
