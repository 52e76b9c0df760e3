/-
  FlatBundle.Host
  ───────────────
  **WHERE DOCUMENTS COME FROM.**

  A host has the documents of finitely many modules.  A store asks it on behalf
  of one bundle: it resolves the names of modules inside the bundle against the
  root, never asks for modules outside of it, asks once for every name, and
  remembers the answers, also that there is no document.
-/
import FlatBundle.Metadata.Document
import FlatBundle.ModulePath

namespace FlatBundle

/-- The documents of finitely many modules, by name. -/
abbrev Host := Entries Document

/-- What a bundling run has learned from its host. -/
structure Store where
  host : Host
  /-- The path of the root module, against which modules are resolved. -/
  root : String
  /-- The answers so far, by module. -/
  cache : Entries (Option Document)
  /-- The names that the host has been asked for, in order. -/
  asked : List String

namespace Store

/-- A store that has asked nothing. -/
def new (host : Host) (root : String) : Store := ⟨host, root, Entries.empty, []⟩

/-- The document of a module, and the store that knows the answer. -/
def get (store : Store) (module : String) : Option Document × Store :=
  match store.cache.get? module with
  | some answer => (answer, store)
  | none =>
      if ModulePath.isRelative module then
        let name := ModulePath.resolve module store.root
        let answer := store.host.get? name
        (answer, { store with
          cache := store.cache.insert module answer, asked := store.asked ++ [name] })
      else (none, { store with cache := store.cache.insert module none })

/-- The number of modules looked up so far. -/
def size (store : Store) : Nat := store.cache.size

end Store

end FlatBundle
