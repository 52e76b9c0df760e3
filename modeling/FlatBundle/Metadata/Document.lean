/-
  FlatBundle.Metadata.Document
  ────────────────────────────
  **THE METADATA DOCUMENT OF ONE MODULE.**

  A document has an entry for every name that the module declares, and a list of
  declarations that export names of other modules: all of them, or chosen ones,
  under their own names or others.
-/
import FlatBundle.Metadata.Value

namespace FlatBundle

/-- One name of an export declaration. -/
inductive ExportItem where
  /-- Exported under its own name. -/
  | plain (name : String)
  /-- Exported under another name. -/
  | renamed (name newName : String)
  deriving DecidableEq, Repr

/-- The name in the module that the item comes from. -/
def ExportItem.name : ExportItem → String
  | .plain name => name
  | .renamed name _ => name

/-- The name in the module that exports the item. -/
def ExportItem.exportedAs : ExportItem → String
  | .plain name => name
  | .renamed _ newName => newName

/-- A declaration that exports names of another module. -/
structure ExportDeclaration where
  /-- The specifier of the other module. -/
  source : String
  /-- The names exported; none exports all that the other module exports. -/
  items : Option (List ExportItem)
  deriving DecidableEq, Repr

/-- The version of the document format. -/
def formatVersion : UInt32 := 3

/-- The metadata document of a module. -/
structure Document where
  /-- The version of the format in which the document is written. -/
  version : UInt32 := formatVersion
  /-- The values of the module's names, in order of declaration. -/
  entries : Entries Value := Entries.empty
  /-- Export declarations; none where the document does not mention any. -/
  exports : Option (List ExportDeclaration) := none
  /-- The name under which other libraries import the module. -/
  importAs : Option String := none

namespace Document

instance : Inhabited Document := ⟨⟨formatVersion, Entries.empty, none, none⟩⟩

/-- A document of entries alone. -/
def ofEntries (entries : Entries Value) : Document :=
  { version := formatVersion, entries := entries, exports := none, importAs := none }

/-- The document with one more export declaration at the end. -/
def addExport (document : Document) (declaration : ExportDeclaration) : Document :=
  { document with exports := some (document.exports.getD [] ++ [declaration]) }

/-- The export declarations, in order. -/
def declarations (document : Document) : List ExportDeclaration :=
  document.exports.getD []

/-- The value of a name. -/
def get? (document : Document) (name : String) : Option Value :=
  document.entries.get? name

/-- Whether the module declares a name. -/
def declares (document : Document) (name : String) : Bool :=
  document.entries.contains name

end Document

end FlatBundle
