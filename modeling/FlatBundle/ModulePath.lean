/-
  FlatBundle.ModulePath
  ─────────────────────
  **MODULE PATHS: `/`-separated names of modules.**

  A path that starts with a dot names a module of the library being bundled;
  every other path names a module outside of it.  The algebra is purely
  textual and runs on the pieces between the slashes:

    • `pieces` cuts a path at its slashes,
    • `walk` evaluates pieces on a stack (`..` pops, empty and `.` do nothing),
    • `render` writes a stack back as `.`, `./a/b` or `/a/b`.

  `normalize` is cut, walk and render; `resolve` reads a relative specifier
  from the directory of the module that contains it.
-/
namespace FlatBundle.ModulePath

/-! ## §1. Pieces between slashes -/

/-- The pieces of a text between its slashes; a text without a slash is one
piece. -/
def pieces : List Char → List (List Char)
  | [] => [[]]
  | c :: cs =>
      if c = '/' then [] :: pieces cs
      else
        match pieces cs with
        | [] => [[c]]
        | piece :: rest => (c :: piece) :: rest

/-- A text cut at its last slash: what is before it and what is after it. -/
def splitLast : List Char → Option (List Char × List Char)
  | [] => none
  | c :: cs =>
      match splitLast cs with
      | some (before, after) => some (c :: before, after)
      | none => if c = '/' then some ([], cs) else none

/-! ## §2. Parts of a path -/

/-- Whether a specifier names a module inside the bundle. -/
def isRelative (specifier : String) : Bool :=
  specifier.toList.head? = some '.'

/-- The directory of a path: what stands before the last slash, `/` for a
file at the top of a rooted path, `.` where there is no slash. -/
def dirname (path : String) : String :=
  match splitLast path.toList with
  | none => "."
  | some ([], _) => "/"
  | some (before, _) => String.ofList before

/-- What stands after the last slash of a path. -/
def basename (path : String) : String :=
  match splitLast path.toList with
  | none => path
  | some (_, after) => String.ofList after

/-- Whether a path starts at the top of the file system. -/
def isRooted (path : String) : Bool :=
  path.toList.head? = some '/'

/-- Whether a path has an ending. -/
def hasEnding (ending path : String) : Bool :=
  ending.toList.isSuffixOf path.toList

/-- A path without an ending, if it has that ending. -/
def dropEnding (ending path : String) : String :=
  if hasEnding ending path then
    String.ofList (path.toList.take (path.toList.length - ending.toList.length))
  else path

/-! ## §3. Normal form -/

/-- One piece read against the stack of segments, innermost first. -/
def step (stack : List (List Char)) (piece : List Char) : List (List Char) :=
  if piece = [] ∨ piece = ['.'] then stack
  else if piece = ['.', '.'] then stack.tail
  else piece :: stack

/-- Pieces read from left to right, starting from a stack. -/
def walk (stack : List (List Char)) (ps : List (List Char)) : List (List Char) :=
  ps.foldl step stack

/-- The text of a path with the given segments, outermost first. -/
def render (rooted : Bool) (segments : List (List Char)) : String :=
  if segments = [] then "."
  else String.ofList ((if rooted then [] else ['.']) ++ segments.flatMap ('/' :: ·))

/-- The segments that a path leaves on the stack, outermost first. -/
def segments (path : String) : List (List Char) :=
  (walk [] (pieces path.toList)).reverse

/-- The normal form of a path: no empty, `.` or `..` segment is left; going up
from the top stays at the top. -/
def normalize (path : String) : String :=
  render (isRooted path) (segments path)

/-- The module that `specifier` means inside the module `source`.  A specifier
that is not relative means itself. -/
def resolve (specifier source : String) : String :=
  if isRelative specifier then normalize (dirname source ++ "/" ++ specifier)
  else specifier

end FlatBundle.ModulePath
