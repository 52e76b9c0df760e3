/-
  FlatBundle.Metadata.Text
  ────────────────────────
  **VALUES AND DOCUMENTS AS TEXT.**

  A text is read into a tree and decoded, or encoded and printed.  In the text of
  a document, fields that documents do not have are passed over without a look
  at what they hold, as long as the text is well formed.
-/
import FlatBundle.Json.Printer
import FlatBundle.Json.Reader
import FlatBundle.Metadata.Decode
import FlatBundle.Metadata.Encode

namespace FlatBundle

/-- The value that a text spells. -/
def Value.parse? (text : String) : Option Value :=
  (Json.read? text).map Value.ofJson

/-- The text of a value; none if it holds a handle. -/
def Value.render? (value : Value) : Option String :=
  value.encode?.map Json.compact

/-- The parts of an export declaration that are looked at. -/
def ExportDeclaration.outline : Json.Outline :=
  .record [("from", .whole), ("export", .whole)]

/-- The parts of a document that are looked at. -/
def Document.outline : Json.Outline :=
  .record [(tagKey, .whole), ("version", .whole), ("metadata", .whole),
    ("exports", .list ExportDeclaration.outline), ("importAs", .whole)]

/-- The document that a text spells. -/
def Document.parse? (text : String) : Option Document := do
  let draft ← Json.draft? text
  Document.ofJson? (← draft.fit? Document.outline)

/-- The text of a document, indented or on one line; none if it holds a
handle. -/
def Document.render? (indented : Bool) (document : Document) : Option String :=
  document.encode?.map (Json.render indented)

end FlatBundle
