/-
  FlatBundle.Bundle
  ─────────────────
  **ONE DOCUMENT FOR A WHOLE LIBRARY.**

  A bundle is the document of a root module in which everything that its exports
  refer to, directly or not, has an entry of its own.  Symbols that the root
  module does not export appear under private names; the bundle lists where they
  came from.

  `bundleFrom` runs the phases in order: resolve the exports of the root, settle
  the identities of all symbols met so far, convert what the root exports, hand
  out private names in order of creation, and put final names into the converted
  values.
-/
import FlatBundle.Conversion
import FlatBundle.Finalization
import FlatBundle.Metadata.Text
import FlatBundle.PrivateName

namespace FlatBundle

/-! ## §1. Bundles -/

/-- A symbol that appears in a bundle under a private name. -/
structure PrivateEntry where
  /-- The name in the bundle. -/
  privateName : String
  /-- The name in its module. -/
  name : String
  module : String
  deriving DecidableEq, Repr

/-- A bundled library. -/
structure Bundle where
  document : Document
  privates : List PrivateEntry

/-! ## §2. Phases of a run -/

/-- Settle the identities of all symbols created so far, against the exports of
the root module. -/
def settleSymbols (exported : List SymbolId) : RunM Unit := do
  RunM.perform (.roots exported)
  (← get).symbols.ids.forM fun id => RunM.perform (.settle id)

/-- Convert everything that the root module exports. -/
def convertExports (exported : List SymbolId) : ConvertM Unit :=
  exported.forM convertSymbol

/-- The symbols whose values are in the bundle, in order of creation. -/
def SymbolTable.referenced (table : SymbolTable) : List SymbolId :=
  table.ids.filter fun id => ((table.get? id).map Symbol.referenced).getD false

/-- Give the next free private name to a symbol if it is private. -/
def nameSymbol (state : PrivateName.Allocator × SymbolTable) (id : SymbolId) :
    Bundling (PrivateName.Allocator × SymbolTable) := do
  let (allocator, table) := state
  if (← table.canonical id).isPrivate then
    let (name, allocator) := allocator.fresh
    return (allocator, table.modify id fun symbol => { symbol with privateName := some name })
  else return (allocator, table)

/-- Private names for all private symbols of the bundle; names that the root
module exports are left alone. -/
def SymbolTable.namePrivates (table : SymbolTable) (exported : List SymbolId) :
    Bundling SymbolTable := do
  let reserved := exported.map fun id => ((table.get? id).getD default).name
  let (_, table) ← table.referenced.foldlM nameSymbol (PrivateName.Allocator.new reserved, table)
  return table

/-- Write the entry of a symbol, if it has a value. -/
def addEntry (table : SymbolTable) (entries : Entries Value) (id : SymbolId) :
    Bundling (Entries Value) := do
  let symbol := (table.get? id).getD default
  match symbol.value with
  | none => return entries
  | some value =>
      return entries.insert (symbol.privateName.getD symbol.name) (← value.finalize table)

/-- The entries of the bundle, in order of creation of their symbols. -/
def SymbolTable.bundleEntries (table : SymbolTable) : Bundling (Entries Value) :=
  table.referenced.foldlM (addEntry table) Entries.empty

/-- The symbols with private names, in order of creation. -/
def SymbolTable.privates (table : SymbolTable) : List PrivateEntry :=
  table.toList.filterMap fun symbol =>
    symbol.privateName.map fun privateName => ⟨privateName, symbol.name, symbol.module⟩

/-! ## §3. Bundling -/

/-- Convert everything; the result is the exports of the root module. -/
def convertRoot (root : String) : ConvertM (List SymbolId) := do
  let exported ← askExports (rootModule root)
  settleSymbols exported
  convertExports exported
  return exported

/-- The bundle that a symbol table holds once everything is converted. -/
def SymbolTable.toBundle (table : SymbolTable) (exported : List SymbolId) (importAs : String) :
    Bundling Bundle := do
  let table ← table.namePrivates exported
  let entries ← table.bundleEntries
  let document := { Document.ofEntries entries with importAs := some importAs }
  return ⟨document, table.privates⟩

/-- Bundle a root module from the state of a run, in which exports of modules
may have been resolved before. -/
def bundleFrom (root importAs : String) : RunM (Bundling Bundle) := do
  match ← (convertRoot root).run with
  | .ok exported => return (← get).symbols.toBundle exported importAs
  | .error error => return .error error

/-- Bundle a root module. -/
def bundle (root importAs : String) (host : Host) : Bundling Bundle :=
  (bundleFrom root importAs (Run.start host root)).1

/-! ## §4. Text -/

namespace Bundle

/-- The text of the bundle's document. -/
def render (bundle : Bundle) (indented : Bool) : Bundling String :=
  match bundle.document.render? indented with
  | some text => .ok text
  | none => .error .unwritableHandle

/-- The tree of a symbol with a private name. -/
def encodePrivate (entry : PrivateEntry) : Json :=
  .obj [("privateName", .str entry.privateName), ("name", .str entry.name),
    ("module", .str entry.module)]

/-- The tree of a whole bundle; none if it holds a handle. -/
def encode? (bundle : Bundle) : Option Json := do
  let document ← bundle.document.encode?
  return .obj [("metadata", document), ("privates", .arr (bundle.privates.map encodePrivate))]

/-- The fields of a symbol with a private name, in order. -/
def privateFields : List String := ["privateName", "name", "module"]

/-- A symbol with a private name. -/
def private? (r : Reading) : Option PrivateEntry := do
  let fields ← r.record? privateFields
  let privateName ← Reading.required? fields "privateName" Reading.string?
  let name ← Reading.required? fields "name" Reading.string?
  let module ← Reading.required? fields "module" Reading.string?
  return ⟨privateName, name, module⟩

/-- The fields of a bundle, in order. -/
def bundleFields : List String := ["metadata", "privates"]

/-- The bundle that a tree is. -/
def ofReading? (r : Reading) : Option Bundle := do
  let fields ← r.record? bundleFields
  let document ← Reading.required? fields "metadata" Reading.document?
  let privates ← Reading.required? fields "privates" fun r => r.list?.bind (·.mapM private?)
  return ⟨document, privates⟩

/-- The parts of a bundle that are looked at. -/
def outline : Json.Outline :=
  .record [("metadata", Document.outline),
    ("privates", .list (.record [("privateName", .whole), ("name", .whole), ("module", .whole)]))]

/-- The bundle that a text spells. -/
def parse? (text : String) : Option Bundle := do
  let draft ← Json.draft? text
  ofReading? (Reading.ofJson (← draft.fit? outline))

end Bundle

end FlatBundle
