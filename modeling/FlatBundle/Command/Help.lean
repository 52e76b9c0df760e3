/-
  FlatBundle.Command.Help
  ───────────────────────
  **WHAT THE PROGRAM SAYS ABOUT ITSELF.**

  One page on the program and one on each command: what it is for, how it is
  called, and a table of its arguments and options.
-/
import FlatBundle.Command.Arguments

namespace FlatBundle.Command

/-- The name of the program. -/
def programName : String := "metabundle"

/-- The name of the program and its version. -/
def versionLine : String := programName ++ " 0.1.0"

/-- A line of a table: a term and what it means, the meanings below one
another. -/
def tableLine (width : Nat) (row : String × String) : String :=
  "  " ++ row.1 ++ String.ofList (List.replicate (width - row.1.length + 2) ' ') ++ row.2

/-- A table with a heading. -/
def table (heading : String) (rows : List (String × String)) : List String :=
  let width := (rows.map fun row => row.1.length).foldl max 0
  ["", heading ++ ":"] ++ rows.map (tableLine width)

/-- What the command `bundle` is for. -/
def aboutBundle : String := "Bundle a root module and everything it re-exports"

/-- What the command `index` is for. -/
def aboutIndex : String := "Generate a flat-module index from a bundle.toml"

/-- What the command `help` is for. -/
def aboutHelp : String := "Print this message or the help of the given subcommand(s)"

/-- The row about saying more. -/
def verboseRow : String × String :=
  ("-v, --verbose...", "Increase log verbosity (-v info, -vv debug, -vvv trace)")

/-- The row about help. -/
def helpRow : String × String := ("-h, --help", "Print help")

/-- The row about the form of the output. -/
def prettyRow : String × String := ("    --pretty", "Pretty-print the JSON output")

/-- The page about a topic. -/
def helpLines : Topic → List String
  | .program =>
      ["Flat metadata bundler", "", "Usage: metabundle [OPTIONS] <COMMAND>"]
        ++ table "Commands"
          [("bundle", aboutBundle), ("index", aboutIndex), ("help", aboutHelp)]
        ++ table "Options" [verboseRow, helpRow, ("-V, --version", "Print version")]
  | .bundle =>
      [aboutBundle, "",
        "Usage: metabundle bundle [OPTIONS] --import-as <IMPORT_AS> <ROOT>"]
        ++ table "Arguments"
          [("<ROOT>", "Root module, relative to the base directory (e.g. \"src/public_api\")")]
        ++ table "Options"
          [("    --import-as <IMPORT_AS>", "Module name the bundle is imported as"), verboseRow,
            ("-o, --out <OUT>", "Output file (defaults to stdout)"),
            ("-b, --base <BASE>", "Directory the metadata files are read from [default: .]"),
            prettyRow, helpRow]
  | .index =>
      [aboutIndex, "", "Usage: metabundle index [OPTIONS]"]
        ++ table "Options"
          [("-c, --config <CONFIG>", "Configuration file [default: bundle.toml]"), verboseRow,
            prettyRow, helpRow]
  | .help =>
      [aboutHelp, "", "Usage: metabundle help [COMMAND]..."]
        ++ table "Arguments" [("[COMMAND]...", "Print help for the subcommand(s)")]

end FlatBundle.Command
