/-
  FlatBundle.Disk.Library
  ───────────────────────
  **A LIBRARY OF METADATA FILES IN A DIRECTORY.**

  The document of a module is in the file of its name with `.metadata.json`
  appended, as seen from the base directory.  A file that is missing, is no text
  or holds no document counts as no document.

  A bundle of a root module takes nothing from modules other than the root and
  those that are mentioned, from document to document, by texts that read like
  relative specifiers.  `readHost` reads the documents of all these modules; some
  may not be needed, which makes no difference to the bundle.
-/
import FlatBundle.Bundle
import FlatBundle.Disk.Program
import FlatBundle.FlatIndex

namespace FlatBundle.Disk

/-- The path of the metadata file of a module. -/
def metadataPath (base module : String) : String :=
  join base (module ++ metadataEnding)

/-- The document of a module. -/
def readDocument (base module : String) : Program (Option Document) :=
  .readText (metadataPath base module) fun answer =>
    .done <|
      match answer with
      | .ok text => Document.parse? text
      | .error _ => none

/-- The modules that the document of a module mentions.  All specifiers of other
modules are among its texts. -/
def mentioned (module : String) (document : Document) : List String :=
  match document.encode? with
  | none => []
  | some tree =>
      (tree.texts.filter ModulePath.isRelative).map (ModulePath.resolve · module)

/-- Add the documents of the modules in `waiting` to a host, and of all modules
that are mentioned on the way and not in `known`, up to a number of modules. -/
def readHostWithin (base root : String) :
    (modules : Nat) → (known waiting : List String) → Host → Program Host
  | 0, _, _, host => .done host
  | _ + 1, _, [], host => .done host
  | modules + 1, known, module :: waiting, host => do
      let name := ModulePath.resolve module root
      match ← readDocument base name with
      | none => readHostWithin base root modules known waiting host
      | some document =>
          let fresh := ((mentioned module document).filter (!known.contains ·)).eraseDups
          readHostWithin base root modules (known ++ fresh) (waiting ++ fresh)
            (host.insert name document)

/-- More modules than any library has. -/
def mostModules : Nat := Nat.pow 2 32

/-- The documents that bundling a root module from a directory can need. -/
def readHost (base root : String) : Program Host :=
  readHostWithin base root mostModules [rootModule root] [rootModule root] Entries.empty

end FlatBundle.Disk
