/-
  FlatBundle.Disk.Path
  ────────────────────
  **PATHS OF FILES.**

  File paths are texts with slashes, joined and cut as they stand: `..` is not
  evaluated, because what it means depends on the disk.
-/
import FlatBundle.ModulePath

namespace FlatBundle.Disk

/-- `path` as seen from `base`: a rooted path stands for itself, and an empty
base adds nothing. -/
def join (base path : String) : String :=
  if ModulePath.isRooted path ∨ base = "" then path
  else if base.toList.getLast? = some '/' then base ++ path
  else base ++ "/" ++ path

/-- A path, last character first, without slashes and `/.` at its end; the slash
of the top directory is kept. -/
def trimReversed : List Char → List Char
  | '/' :: rest => if rest = [] then ['/'] else trimReversed rest
  | '.' :: '/' :: rest => trimReversed ('/' :: rest)
  | cs => cs
termination_by cs => cs.length

/-- The directory in which a path lies; none for the top directory and the empty
path. -/
def parent? (path : String) : Option String :=
  let trimmed := (trimReversed path.toList.reverse).reverse
  if trimmed = [] ∨ trimmed = ['/'] then none
  else
    match ModulePath.splitLast trimmed with
    | none => some ""
    | some ([], _) => some "/"
    | some (before, _) => some (String.ofList (trimReversed before.reverse).reverse)

end FlatBundle.Disk
