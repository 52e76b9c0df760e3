/-
  FlatBundle.Command.Execution
  ────────────────────────────
  **WHAT THE COMMANDS DO.**

  `bundle` writes the bundle of a root module to a file or to the output;
  `index` writes a bundle and its index next to the root module.  Both list the
  hoisted private symbols.  A failure is reported with its causes, outermost
  first; files that were written before it stay.
-/
import FlatBundle.Command.Help
import FlatBundle.Config
import FlatBundle.Disk.Library

namespace FlatBundle.Command

open Disk

/-! ## §1. Outcomes -/

/-- What a command leaves behind besides files. -/
structure Outcome where
  code : Nat
  output : String
  errors : String
  deriving DecidableEq, Repr

/-- Lines of text, each ended. -/
def unlines (lines : List String) : String :=
  String.join (lines.map (· ++ "\n"))

/-- A failure: what failed, and the causes from the outside in. -/
structure Failure where
  what : String
  causes : List String

/-- A text with something in front of its first line and of all other lines. -/
def indent (first others : String) (text : String) : String :=
  first ++ ("\n" ++ others).intercalate (text.splitOn "\n")

/-- The lines of a failure.  Causes are numbered if there are several, and their
lines stand below one another. -/
def Failure.lines (failure : Failure) : List String :=
  let causes :=
    match failure.causes with
    | [] => []
    | [cause] => ["", "Caused by:", indent "    " "    " cause]
    | causes =>
        "" :: "Caused by:" :: causes.zipIdx.map fun cause =>
          indent ("    " ++ toString cause.2 ++ ": ") "       " cause.1
  ("Error: " ++ failure.what) :: causes

/-- The code of a command that failed. -/
def failureCode : Nat := 1

/-- The code of a command line that asks for nothing sensible. -/
def usageCode : Nat := 2

/-- The outcome of a failure, after some lines about it. -/
def failed (lines : List String) (failure : Failure) : Outcome :=
  ⟨failureCode, "", unlines (lines ++ failure.lines)⟩

/-! ## §2. Reports -/

/-- The lines about the private symbols of a bundle. -/
def privateLines (privates : List PrivateEntry) : List String :=
  if privates = [] then ["No private symbols hoisted."]
  else
    ("Private symbols (" ++ toString privates.length ++ "):")
      :: privates.map fun entry =>
        "  " ++ entry.privateName ++ " = " ++ entry.name ++ " (" ++ entry.module ++ ")"

/-- A success with output lines and the list of private symbols. -/
def succeeded (output : List String) (privates : List PrivateEntry) : Outcome :=
  ⟨0, unlines output, unlines (privateLines privates)⟩

/-- A file could not be written. -/
def writeFailure (path : String) (error : FileError) : Failure :=
  ⟨"Failed to write " ++ path, [error.message]⟩

/-! ## §3. The command `bundle` -/

/-- The root module of a path that may end like a source or a metadata file. -/
def rootOf (path : String) : String :=
  match [metadataEnding, ".d.ts", ".ts"].find? (ModulePath.hasEnding · path) with
  | some ending => ModulePath.dropEnding ending path
  | none => path

/-- The text of the bundle of a root module, and the bundle. -/
def bundleText (root importAs : String) (pretty : Bool) (host : Host) :
    Bundling (Bundle × String) := do
  let made ← FlatBundle.bundle root importAs host
  return (made, ← made.render pretty)

/-- Write the bundle of a root module. -/
def runBundle (root importAs : String) (out : Option String) (base : String) (pretty : Bool) :
    Program Outcome :=
  .isDirectory base fun isDirectory =>
    if !isDirectory then
      return failed [] ⟨"Base directory not found: " ++ base, []⟩
    else do
      let host ← readHost base (rootOf root)
      match bundleText (rootOf root) importAs pretty host with
      | .error error => return failed [] ⟨"Failed to bundle " ++ root, [error.message]⟩
      | .ok (made, text) =>
          match out with
          | none => return succeeded [text] made.privates
          | some path =>
              .writeText path text fun answer =>
                match answer with
                | .ok _ => return succeeded [] made.privates
                | .error error => return failed [] (writeFailure path error)

/-! ## §4. The command `index` -/

/-- Why the configuration could not be loaded. -/
def loadFailure (path : String) (causes : List String) : Failure :=
  ⟨"Failed to load " ++ path, causes⟩

/-- The causes of a faulty configuration.  What is wrong with an ill-formed text
is a cause of its own. -/
def configCauses : ConfigError → List String
  | .parse => [ConfigError.parse.message, parseProblem]
  | error => [error.message]

/-- The directory of a configuration file, from which its paths are seen. -/
def baseOf (config : String) : String :=
  match parent? config with
  | some "" | none => "."
  | some directory => directory

/-- Write two files, one after the other. -/
def writeBoth (first second : String × String) (success : Outcome) : Program Outcome :=
  .writeText first.1 first.2 fun answer =>
    match answer with
    | .error error => return failed [] (writeFailure first.1 error)
    | .ok _ =>
        .writeText second.1 second.2 fun answer =>
          match answer with
          | .error error => return failed [] (writeFailure second.1 error)
          | .ok _ => return success

/-- Write an index and its metadata; the directory is made if it is missing. -/
def writeIndex (base : String) (flat : FlatIndex) (text : String) : Program Outcome :=
  let metadataPath := join base flat.metadataName
  let files := writeBoth (metadataPath, text) (join base flat.indexName, flat.source)
    (succeeded ["Wrote " ++ flat.indexName, "Wrote " ++ flat.metadataName]
      flat.bundle.privates)
  match parent? metadataPath with
  | none => files
  | some directory =>
      .makeDirectories directory fun answer =>
        match answer with
        | .ok _ => files
        | .error error => return failed [] ⟨"Failed to create " ++ directory, [error.message]⟩

/-- Make the index that a configuration asks for. -/
def runConfig (path : String) (config : Config) (pretty : Bool) : Program Outcome := do
  let base := baseOf path
  let host ←
    match rootFile? config.files with
    | some file => readHost base (ModulePath.dropEnding ".ts" file)
    | none => pure Entries.empty
  match flatIndex config.options config.files host with
  | .error (.config diagnostics) =>
      return failed (diagnostics.map fun diagnostic => "error: " ++ diagnostic.text)
        ⟨"Invalid configuration in " ++ path, []⟩
  | .error (.bundle error) =>
      return failed [] ⟨"Failed to create bundle index", [error.message]⟩
  | .ok flat =>
      match flat.bundle.render pretty with
      | .error error => return failed [] ⟨error.message, []⟩
      | .ok text => writeIndex base flat text

/-- Make a flat index as a configuration file says. -/
def runIndex (path : String) (pretty : Bool) : Program Outcome :=
  .readText path fun answer =>
    match answer with
    | .error error =>
        return failed [] (loadFailure path
          ["Failed to read " ++ path ++ ": " ++ error.message, error.message])
    | .ok text =>
        match Config.parse text with
        | .error error => return failed [] (loadFailure path (configCauses error))
        | .ok config => runConfig path config pretty

/-! ## §5. The whole program -/

/-- Do what a command asks for. -/
def execute : Command → Program Outcome
  | .bundle root importAs out base pretty => runBundle root importAs out base pretty
  | .index config pretty => runIndex config pretty

/-- The outcome where there is no command. -/
def halted : Halt → Outcome
  | .usage => ⟨usageCode, "", ""⟩
  | .help topic => ⟨0, unlines (helpLines topic), ""⟩
  | .version => ⟨0, unlines [versionLine], ""⟩

/-- Do what the arguments ask for. -/
def run (arguments : List String) : Program Outcome :=
  match ofArguments arguments with
  | .ok command => execute command
  | .error halt => return halted halt

end FlatBundle.Command
