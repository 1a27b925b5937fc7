import HeaderCatalog.CommandLine

set_option autoImplicit false

/-!
# The program

Reads the files that the command line names and writes the catalogue.  The moment of a catalogue is the moment at which
its file is made.
-/

open HeaderCatalog

/-- How the program is called. -/
def usage : String :=
  "Usage: header-catalog --input PATH --output PATH [--config PATH] [--sdk-path PATH] [--min-version VERSION] " ++
    "[--exclude-system-apis] [--framework-filter NAME] [--framework-name NAME] [--pretty]"

/-- The text of a file, if it can be read. -/
def readText? (path : String) : IO (Option String) :=
  try some <$> IO.FS.readFile path catch _ => return none

/-- Makes an empty file and tells when, in seconds since the start of 1970. -/
def makeFile (path : String) : IO Int := do
  IO.FS.writeFile path ""
  return (← (← IO.FS.realPath path).metadata).modified.sec

def main (arguments : List String) : IO UInt32 := do
  match Options.ofArguments? arguments with
  | none =>
    IO.eprintln usage
    return 2
  | some options =>
    let settingsText ← match options.config with
      | some path => readText? path
      | none => pure none
    match options.run settingsText (← readText? options.input) with
    | .error error =>
      IO.eprintln ("Error: " ++ error.message)
      return 1
    | .ok session =>
      try
        let generated ← makeFile options.output
        IO.FS.writeFile options.output (session.documentText generated options.pretty)
        return 0
      catch _ =>
        IO.eprintln ("Error: " ++ (CommandError.catalogue options.output).message)
        return 1
