/-
  FlatBundle.FlatIndex
  ────────────────────
  **A BUNDLE WITH AN INDEX MODULE BESIDE IT.**

  The index is a source file that exports the library and, under their private
  names, the hoisted symbols, so that the names of the bundle can be resolved.
  It stands in the directory of the root module, with the metadata of the bundle
  next to it.  Its text lists modules and names in the order of their code
  points, whatever the order of the symbols.
-/
import FlatBundle.Bundle

namespace FlatBundle

/-! ## §1. Options and problems -/

/-- How a flat index is made. -/
structure IndexOptions where
  /-- The file name of the index, as it is after compilation. -/
  outFile : String
  /-- The name under which the library is imported. -/
  moduleId : String
  deriving DecidableEq, Repr

/-- A problem with the options. -/
structure Diagnostic where
  message : String
  /-- The file with the problem, if it is in a file. -/
  file : Option String
  deriving DecidableEq, Repr

/-- A problem as a line of text. -/
def Diagnostic.text (diagnostic : Diagnostic) : String :=
  match diagnostic.file with
  | some file => file ++ ": " ++ diagnostic.message
  | none => diagnostic.message

/-- Problems as text, one line each. -/
def Diagnostic.textOfAll (diagnostics : List Diagnostic) : String :=
  "\n".intercalate (diagnostics.map Diagnostic.text)

/-- The problem with root files that do not name exactly one module. -/
def oneRootFileRequired : Diagnostic :=
  ⟨"flat module index requires one and only one .ts file in the \"files\" field", none⟩

/-- Why there is no index. -/
inductive IndexError where
  | config (diagnostics : List Diagnostic)
  | bundle (error : BundleError)
  deriving DecidableEq, Repr

/-- The text of an error. -/
def IndexError.message : IndexError → String
  | .config diagnostics => Diagnostic.textOfAll diagnostics
  | .bundle error => error.message

/-! ## §2. The source of the index -/

/-- The comment at the top of an index. -/
def indexHeader : String := "/**\n * Generated bundle index. Do not edit.\n */\n"

/-- Entries sorted by name; entries of one name keep their order. -/
def sortByName (entries : List PrivateEntry) : List PrivateEntry :=
  entries.mergeSort fun a b => a.name ≤ b.name

/-- The modules of entries, each once, sorted. -/
def modulesOf (entries : List PrivateEntry) : List String :=
  (entries.map PrivateEntry.module).eraseDups.mergeSort fun a b => a ≤ b

/-- A name and the name under which it is exported. -/
def exportClause (entry : PrivateEntry) : String :=
  entry.name ++ " as " ++ entry.privateName

/-- The line that exports the entries of one module. -/
def exportLine (entries : List PrivateEntry) (module : String) : String :=
  let clauses := (sortByName (entries.filter (·.module = module))).map exportClause
  "export \x7b" ++ ",".intercalate clauses ++ "\x7d from '" ++ module ++ "';"

/-- The source of an index that exports a library and private symbols. -/
def indexSource (libraryIndex : String) (privates : List PrivateEntry) : String :=
  "\n".intercalate
    ([indexHeader, "export * from '" ++ libraryIndex ++ "';", ""]
      ++ (modulesOf privates).map (exportLine privates))

/-! ## §3. The index -/

/-- A bundle and the index that belongs to it. -/
structure FlatIndex where
  /-- The path of the index source. -/
  indexName : String
  /-- The path of the bundle's metadata. -/
  metadataName : String
  /-- The root module as seen from the index. -/
  libraryIndex : String
  /-- The source of the index. -/
  source : String
  bundle : Bundle

/-- The ending of metadata files. -/
def metadataEnding : String := ".metadata.json"

/-- The name of the index source for a compiled file. -/
def sourceFileName (outFile : String) : String :=
  ModulePath.dropEnding ".js" outFile ++ ".ts"

/-- A file in a directory, in normal form without `./` in front. -/
def fileIn (directory file : String) : String :=
  let joined := ModulePath.normalize (directory ++ "/" ++ file)
  match joined.toList with
  | '.' :: '/' :: rest => String.ofList rest
  | _ => joined

/-- The only root file that is no declaration file. -/
def rootFile? (files : List String) : Option String :=
  match files.filter fun file => !ModulePath.hasEnding ".d.ts" file with
  | [file] => some file
  | _ => none

/-- The path of the index for a root module. -/
def indexNameFor (rootModule outFile : String) : String :=
  fileIn (ModulePath.dirname rootModule) (sourceFileName outFile)

/-- Bundle the only root file of a compilation and make an index for it. -/
def flatIndex (options : IndexOptions) (files : List String) (host : Host) :
    Except IndexError FlatIndex :=
  match rootFile? files with
  | none => .error (.config [oneRootFileRequired])
  | some file =>
      let root := ModulePath.dropEnding ".ts" file
      match bundle root options.moduleId host with
      | .error error => .error (.bundle error)
      | .ok bundle =>
          let indexName := indexNameFor root options.outFile
          let libraryIndex := "./" ++ ModulePath.basename root
          .ok
            { indexName := indexName
              metadataName := ModulePath.dropEnding ".ts" indexName ++ metadataEnding
              libraryIndex := libraryIndex
              source := indexSource libraryIndex bundle.privates
              bundle := bundle }

end FlatBundle
