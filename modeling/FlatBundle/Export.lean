/-
  FlatBundle.Export
  ─────────────────
  **WHAT A MODULE EXPORTS.**

  A module exports the names of its document and what its export declarations
  take from other modules.  `exportAll` lists the symbols in order and links
  every name that comes from another module to the symbol it stands for:

    • an entry of the document that is a reference to another module's symbol
      exports that symbol; any other entry is a declaration of its own,
    • a declaration exports chosen names, or all that the other module exports,
    • of several exports under one name the first counts.

  A module that is met again while it is being resolved exports nothing at that
  place.
-/
import FlatBundle.Run

namespace FlatBundle

/-! ## §1. One name -/

/-- `symbol` is exported from `module` as `name`, unless the name is taken. -/
def exportAs (module : String) (symbol : SymbolId) (name : String) (result : List SymbolId) :
    RunM (List SymbolId) := do
  let newName ← RunM.symbolOf module name
  -- a name is exported once: what comes first stays
  if newName ∈ result then return result
  RunM.link symbol newName
  return result ++ [newName]

/-- An entry of a document.  `resolveModule` resolves the exports of another
module. -/
def exportEntry (resolveModule : String → RunM (List SymbolId)) (module : String)
    (result : List SymbolId) (entry : String × Value) : RunM (List SymbolId) :=
  match entry.2.reference? with
  | some (.imported specifier name _) => do
      let source := ModulePath.resolve specifier module
      let _ ← resolveModule source
      let symbol ← RunM.symbolOf source name
      exportAs module symbol entry.1 result
  | _ => do
      let symbol ← RunM.symbolOf module entry.1
      return if symbol ∈ result then result else result ++ [symbol]

/-- Look at an entry of the document of a module. -/
def walkEntry (resolveModule : String → RunM (List SymbolId)) (module : String)
    (result : List SymbolId) (entry : String × Value) : RunM (List SymbolId) := do
  RunM.perform (.entry module entry.1)
  exportEntry resolveModule module result entry

/-! ## §2. Export declarations -/

/-- One name of an export declaration. -/
def exportItem (module source : String) (result : List SymbolId) (item : ExportItem) :
    RunM (List SymbolId) := do
  let symbol ← RunM.symbolOf source item.name
  exportAs module symbol item.exportedAs result

/-- A symbol that another module exports, under the same name. -/
def exportSame (module : String) (result : List SymbolId) (symbol : SymbolId) :
    RunM (List SymbolId) := do
  match (← get).symbols.get? symbol with
  | some known => exportAs module symbol known.name result
  | none => return result

/-- An export declaration.  The other module is resolved even if nothing is
taken from it. -/
def exportDeclaration (resolveModule : String → RunM (List SymbolId)) (module : String)
    (result : List SymbolId) (declaration : ExportDeclaration) : RunM (List SymbolId) := do
  let source := ModulePath.resolve declaration.source module
  let exported ← resolveModule source
  match declaration.items with
  | some items => items.foldlM (exportItem module source) result
  | none => exported.foldlM (exportSame module) result

/-! ## §3. Modules -/

/-- The exports of a module that is being resolved. -/
def exportDocument (resolveModule : String → RunM (List SymbolId)) (module : String) :
    Option Document → RunM (List SymbolId)
  | none => return []
  | some document => do
      let result ← document.entries.toList.foldlM (walkEntry resolveModule module) []
      document.declarations.foldlM (exportDeclaration resolveModule module) result

/-- The exports of a module: known from before, none if it is being resolved,
or computed from its document. -/
def exportModule (resolveModule : String → RunM (List SymbolId)) (module : String) :
    RunM (List SymbolId) := do
  match (← get).resolved.get? module with
  | some result => return result
  | none =>
      -- a module that is being resolved exports nothing yet
      if module ∈ (← get).inProgress then return []
      RunM.perform (.enter module)
      let document ← RunM.document module
      let result ← exportDocument resolveModule module document
      RunM.perform (.leave module result)
      return result

/-- The exports of a module, where resolution may nest `depth` modules deep. -/
def exportNested : (depth : Nat) → (module : String) → RunM (List SymbolId)
  | 0, _ => return []
  | depth + 1, module => exportModule (exportNested depth) module

/-- How deep the resolution of exports can nest: every module on the way down
has a document of its own, except the first, which may be named in another way,
and the last. -/
def exportDepth (host : Host) : Nat := host.size + 2

/-- The symbols that a module exports, in order. -/
def exportAll (module : String) : RunM (List SymbolId) := do
  exportNested (exportDepth (← get).store.host) module

/-- Ask for the exports of a module from outside of their resolution. -/
def askExports (module : String) : RunM (List SymbolId) := do
  let exported ← exportAll module
  RunM.perform (.answer module)
  return exported

end FlatBundle
