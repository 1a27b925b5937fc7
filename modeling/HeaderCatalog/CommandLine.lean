import HeaderCatalog.Document
import HeaderCatalog.Node.Json
import HeaderCatalog.Settings.File

set_option autoImplicit false

/-!
# The command line

A run takes a syntax tree from one file and writes its catalogue to another.  Settings come from a settings file, if one
is named, and options on the command line win over it.  The settings are looked at before the tree, so of two faults
theirs is the one that is reported.
-/

namespace HeaderCatalog

/-- What a run was asked for. -/
structure Options where
  /-- The path of the syntax tree. -/
  input : String
  /-- The path of the catalogue. -/
  output : String
  sdkPath : Option String := none
  minVersion : Option String := none
  excludeSystem : Bool := false
  frameworkFilter : Option String := none
  frameworkName : Option String := none
  /-- The path of the settings file. -/
  config : Option String := none
  /-- Whether the catalogue is indented. -/
  pretty : Bool := false
  deriving DecidableEq, Repr

/-- Why a run fails. -/
inductive CommandError where
  /-- The settings file is missing or wrong. -/
  | settingsFile (path : String)
  /-- The settings, put together, are wrong. -/
  | settings (error : SettingsError)
  /-- The syntax tree is missing or wrong. -/
  | syntaxTree (path : String)
  /-- There is no place for the catalogue. -/
  | catalogue (path : String)
  deriving DecidableEq, Repr

/-- What is said about an error. -/
def CommandError.message : CommandError → String
  | settingsFile path => "loading config " ++ path
  | settings error => error.message
  | syntaxTree path => "reading syntax tree " ++ path
  | catalogue path => "creating " ++ path

namespace Options

/-- The settings that the options name, put on top of others.  Leaving out the SDK can be asked for, but not undone. -/
def overlay (options : Options) (settings : Settings) : Settings where
  sdkPath := options.sdkPath.getD settings.sdkPath
  minVersion := options.minVersion.getD settings.minVersion
  excludeSystem := options.excludeSystem || settings.excludeSystem
  frameworkFilter := options.frameworkFilter.getD settings.frameworkFilter
  frameworkName := options.frameworkName.getD settings.frameworkName

/-- The settings of the settings file, given its text if it can be read; the defaults if no file is named. -/
def fileSettings (options : Options) (text : Option String) : Except CommandError Settings :=
  match options.config with
  | none => .ok {}
  | some path =>
    match text.map Settings.ofFile? with
    | some (.ok settings) => .ok settings
    | _ => .error (.settingsFile path)

/-- The settings of a run. -/
def settings (options : Options) (text : Option String) : Except CommandError Settings := do
  let settings := options.overlay (← options.fileSettings text)
  match settings.validate with
  | .ok () => return settings
  | .error error => .error (.settings error)

/-- A run, given the texts of the settings file and the syntax tree as far as they can be read. -/
def run (options : Options) (settingsText treeText : Option String) : Except CommandError Session := do
  let settings ← options.settings settingsText
  match treeText.map Node.treeOfText with
  | some (.ok root) => return survey root settings
  | _ => .error (.syntaxTree options.input)

/-! ## Arguments -/

/-- The arguments of a command line, by their names. -/
structure Arguments where
  /-- The names with a value behind them. -/
  values : List (String × String) := []
  /-- The names that stand alone. -/
  flags : List String := []

/-- The names that take a value. -/
def valueNames : List String :=
  ["--input", "--output", "--sdk-path", "--min-version", "--framework-filter", "--framework-name", "--config"]

/-- The names that stand alone. -/
def flagNames : List String := ["--exclude-system-apis", "--pretty"]

/-- The long name for a short one. -/
def longName (name : String) : String :=
  if name = "-i" then "--input" else if name = "-o" then "--output" else if name = "-c" then "--config" else name

/-- Sorts arguments by their names, each of which may be given once; `none` if one is unknown or lacks its value. -/
def sort? : List String → Arguments → Option Arguments
  | [], sorted => some sorted
  | argument :: rest, sorted =>
    let name := longName argument
    if flagNames.contains name then
      if sorted.flags.contains name then none else sort? rest { sorted with flags := name :: sorted.flags }
    else
      match rest with
      | value :: rest =>
        if valueNames.contains name && (sorted.values.lookup name).isNone then
          sort? rest { sorted with values := (name, value) :: sorted.values }
        else none
      | [] => none

/-- The options that arguments name; the paths of the tree and the catalogue are needed. -/
def ofArguments? (arguments : List String) : Option Options := do
  let sorted ← sort? arguments {}
  return {
    input := ← sorted.values.lookup "--input"
    output := ← sorted.values.lookup "--output"
    sdkPath := sorted.values.lookup "--sdk-path"
    minVersion := sorted.values.lookup "--min-version"
    excludeSystem := sorted.flags.contains "--exclude-system-apis"
    frameworkFilter := sorted.values.lookup "--framework-filter"
    frameworkName := sorted.values.lookup "--framework-name"
    config := sorted.values.lookup "--config"
    pretty := sorted.flags.contains "--pretty" }

end Options

end HeaderCatalog
