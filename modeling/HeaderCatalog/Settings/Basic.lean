import HeaderCatalog.Location
import HeaderCatalog.Path
import HeaderCatalog.Text.Part
import HeaderCatalog.Version

set_option autoImplicit false

/-!
# Settings of a run

Five settings drive a run: where the SDK lies, the oldest version to be served, whether the SDK's own declarations are
left out, the one framework to keep, and the framework the catalogue is for.  They decide how a place is classified
and which places are left out.
-/

namespace HeaderCatalog

/-- The settings of a run. -/
structure Settings where
  /-- The root of the SDK; what lies under it comes with the system. -/
  sdkPath : String := ""
  /-- The oldest version to be served. -/
  minVersion : String := "9.0"
  /-- Whether declarations of the SDK are left out. -/
  excludeSystem : Bool := false
  /-- The only framework to keep, or empty for all. -/
  frameworkFilter : String := ""
  /-- The framework the catalogue is for. -/
  frameworkName : String := ""
  deriving DecidableEq, Repr, Inhabited

/-- What can be wrong with settings. -/
inductive SettingsError where
  | invalidVersion (version : String)
  | invalidFrameworkFilter (filter : String)
  | missingFileVersion
  | unsupportedFileVersion (found : UInt32)
  /-- The file is no settings file at all. -/
  | malformed
  deriving DecidableEq, Repr

/-- The version of settings files that is understood. -/
def supportedFileVersion : UInt32 := 1

/-- What is said about an error. -/
def SettingsError.message : SettingsError → String
  | invalidVersion version =>
    "Invalid minimum version '" ++ version ++ "'. Expected a dotted numeric version such as '9.0' or '12.4.1'."
  | invalidFrameworkFilter filter =>
    "Invalid framework filter '" ++ filter ++
      "'. Use the framework name without path or '.framework' suffix (e.g. 'UIKit')."
  | missingFileVersion =>
    "Missing 'version' field in configuration file. Add 'version: 1' to the top of your YAML file."
  | unsupportedFileVersion found =>
    "Unsupported configuration version " ++ toString found.toNat ++ ". Supported versions: " ++
      toString supportedFileVersion.toNat
  | malformed => "YAML parsing error"

namespace Settings

/-- Whether only one framework is kept. -/
def keepsOneFramework (settings : Settings) : Bool := !settings.frameworkFilter.isEmpty

/-- Whether a filter can name a framework: it is no path and no bundle. -/
def isFrameworkName (filter : String) : Bool :=
  !filter.toList.contains '/' && !Path.bundleEnding.isSuffixOf filter.toList

/-- Checks the settings whose text is restricted; the version comes first. -/
def validate (settings : Settings) : Except SettingsError Unit :=
  if (Version.parse? settings.minVersion.toList).isNone then .error (.invalidVersion settings.minVersion)
  else if !isFrameworkName settings.frameworkFilter then .error (.invalidFrameworkFilter settings.frameworkFilter)
  else .ok ()

/-! ## Places -/

/-- The place of a declaration, classified.  A place without a file is unresolved.  A bundle in the path names the
framework; without one, a file of the SDK belongs to none and any other to the framework of the run. -/
def classify (settings : Settings) (location : Option Location) : Source :=
  match location with
  | none => .unresolved
  | some location =>
    if location.filename.isEmpty then .unresolved
    else
      let system := Path.isUnder settings.sdkPath location.filename
      match Path.framework? location.filename with
      | some framework => ⟨location.filename, location.line, framework, if system then .system else .framework⟩
      | none =>
        if system then ⟨location.filename, location.line, "", .system⟩
        else ⟨location.filename, location.line, settings.frameworkName, .user⟩

/-- Whether declarations at a place are left out.  An unresolved place never is. -/
def excludes (settings : Settings) (source : Source) : Bool :=
  !source.isUnresolved &&
    ((settings.excludeSystem && source.isSystem) ||
      (settings.keepsOneFramework && source.framework != settings.frameworkFilter))

end Settings

end HeaderCatalog
