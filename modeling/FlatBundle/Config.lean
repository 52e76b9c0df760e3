/-
  FlatBundle.Config
  ─────────────────
  **THE CONFIGURATION FILE OF A FLAT INDEX.**

  The configuration is a TOML text with a table `bundle`, which has the two
  options of the index and may have a list of root files.  Everything else in
  the text is passed over.  Neither option may be empty.
-/
import FlatBundle.FlatIndex
import FlatBundle.Toml.Reader

namespace FlatBundle

/-- A configuration. -/
structure Config where
  /-- The root files of the compilation. -/
  files : List String
  options : IndexOptions
  deriving DecidableEq, Repr

/-- Why a text is no configuration. -/
inductive ConfigError where
  /-- It is no TOML text, or lacks a part, or a part has the wrong type. -/
  | parse
  /-- An option that must not be empty is. -/
  | emptyOption (name : String)
  deriving DecidableEq, Repr

/-- What is said of an ill-formed text. -/
def parseProblem : String := "TOML parse error"

/-- The text of an error. -/
def ConfigError.message : ConfigError → String
  | .parse => "Failed to parse bundle config: " ++ parseProblem
  | .emptyOption name => "Invalid bundle config: " ++ name ++ " cannot be empty"

namespace Config

/-- The name of the option for the file. -/
def outFileKey : String := "flat-module-out-file"

/-- The name of the option for the module. -/
def moduleIdKey : String := "flat-module-id"

/-- A string. -/
def string? : Toml.Item → Option String
  | .str value => some value
  | _ => none

/-- A list of strings. -/
def strings? : Toml.Item → Option (List String)
  | .arr items => items.mapM string?
  | _ => none

/-- The configuration that a table has. -/
def ofTable? (table : Toml.Table) : Option Config :=
  match Pairs.find? "bundle" table with
  | some (.table _ entries) => do
      let outFile ← (← Pairs.find? outFileKey entries) |> string?
      let moduleId ← (← Pairs.find? moduleIdKey entries) |> string?
      let files ←
        match Pairs.find? "files" entries with
        | none => some []
        | some item => strings? item
      return ⟨files, ⟨outFile, moduleId⟩⟩
  | _ => none

/-- The configuration, if no option is empty. -/
def validate (config : Config) : Except ConfigError Config :=
  if config.options.moduleId = "" then .error (.emptyOption moduleIdKey)
  else if config.options.outFile = "" then .error (.emptyOption outFileKey)
  else .ok config

/-- The configuration that a text spells. -/
def parse (text : String) : Except ConfigError Config :=
  match (Toml.read? text).bind ofTable? with
  | none => .error .parse
  | some config => config.validate

end Config

end FlatBundle
