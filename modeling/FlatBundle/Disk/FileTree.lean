/-
  FlatBundle.Disk.FileTree
  ────────────────────────
  **A DIRECTORY AND WHAT IS IN IT.**

  A file tree is what a program can see from the directory that it runs in.  A
  path is followed name by name from there, and each operation fails for the
  same reasons, checked in the same order, as on a disk.

  What lies outside of the directory is not known.  It is taken for an enclosing
  directory in which nothing is found and what is written leaves no trace here.
-/
import FlatBundle.Disk.Path
import FlatBundle.Entries

namespace FlatBundle.Disk

/-! ## §1. Errors -/

/-- Why an operation on a file fails. -/
inductive FileError where
  | notFound
  | exists
  | notDirectory
  | isDirectory
  | nameTooLong
  /-- A path has the character that ends paths. -/
  | nulInPath
  /-- The bytes of a file are no text. -/
  | notText
  /-- Any other failure, in the words of the system. -/
  | other (message : String)
  deriving DecidableEq, Repr

/-- The text of an error. -/
def FileError.message : FileError → String
  | .notFound => "No such file or directory (os error 2)"
  | .exists => "File exists (os error 17)"
  | .notDirectory => "Not a directory (os error 20)"
  | .isDirectory => "Is a directory (os error 21)"
  | .nameTooLong => "File name too long (os error 36)"
  | .nulInPath => "file name contained an unexpected NUL byte"
  | .notText => "stream did not contain valid UTF-8"
  | .other message => message

/-! ## §2. Trees -/

/-- A file or a directory. -/
inductive FileTree where
  /-- A file; none if its bytes are no text. -/
  | file (text : Option String)
  | directory (children : List (String × FileTree))
  deriving Inhabited

namespace FileTree

/-- The directory without files. -/
def empty : FileTree := .directory []

/-- Put `tree` under names; directories on the way are made. -/
def put (tree : FileTree) : (names : List String) → FileTree → FileTree
  | [], _ => tree
  | name :: names, .directory children =>
      .directory (Pairs.put name
        (put tree names ((Pairs.find? name children).getD empty)) children)
  | _ :: _, .file text => .file text

mutual

/-- The files of a tree with the names that lead to them. -/
def files : FileTree → List (List String × Option String)
  | .file text => [([], text)]
  | .directory children => filesOf children

/-- The files of the children of a directory. -/
def filesOf : List (String × FileTree) → List (List String × Option String)
  | [] => []
  | (name, tree) :: rest =>
      tree.files.map (fun file => (name :: file.1, file.2)) ++ filesOf rest

end

end FileTree

/-! ## §3. Following a path -/

/-- Where a path leads. -/
inductive Place where
  /-- Outside of the directory. -/
  | outside
  /-- To a place in it: the names on the way and what stands there, from the
  innermost one out. -/
  | inside (trail : List (String × FileTree))

/-- What stands at a place; outside there is a directory with nothing known in
it. -/
def FileTree.here (tree : FileTree) : Place → FileTree
  | .outside => empty
  | .inside [] => tree
  | .inside ((_, inner) :: _) => inner

/-- How long a name may be, in bytes. -/
def longestName : Nat := 255

/-- How long a path may be, in bytes. -/
def longestPath : Nat := 4095

/-- One step of a path.  An empty piece stays where it is, like `.`, and like
every step it needs a directory to start from. -/
def FileTree.step (tree : FileTree) (place : Place) (piece : String) :
    Except FileError Place :=
  match tree.here place with
  | .directory children =>
      if piece = "" ∨ piece = "." then .ok place
      else if piece = ".." then
        match place with
        | .inside (_ :: trail) => .ok (.inside trail)
        | _ => .ok .outside
      else if longestName < piece.utf8ByteSize then .error .nameTooLong
      else
        match Pairs.find? piece children, place with
        | some inner, .inside trail => .ok (.inside ((piece, inner) :: trail))
        | _, _ => .error .notFound
  | .file _ => .error .notDirectory

/-- Whether a path can be followed at all, whatever there is on the disk. -/
def checkPath (path : String) : Except FileError Unit :=
  if path = "" then .error .notFound
  else if path.toList.contains (Char.ofNat 0) then .error .nulInPath
  else if longestPath < path.utf8ByteSize then .error .nameTooLong
  else .ok ()

/-- Where a path starts, and its pieces. -/
def start (path : String) : Place × List String :=
  (if ModulePath.isRooted path then .outside else .inside [],
    (ModulePath.pieces path.toList).map String.ofList)

/-- Follow a path to its end. -/
def FileTree.follow (tree : FileTree) (path : String) : Except FileError Place := do
  checkPath path
  let (place, pieces) := start path
  pieces.foldlM tree.step place

/-- Follow a path to the directory of its last piece. -/
def FileTree.followParent (tree : FileTree) (path : String) :
    Except FileError (Place × String) := do
  let (place, pieces) := start path
  let place ← pieces.dropLast.foldlM tree.step place
  match tree.here place with
  | .directory _ => return (place, pieces.getLastD "")
  | .file _ => throw .notDirectory

/-! ## §4. Operations -/

namespace FileTree

/-- Whether a path leads to a directory. -/
def isDirectory (tree : FileTree) (path : String) : Bool :=
  match tree.follow path with
  | .ok place =>
      match tree.here place with
      | .directory _ => true
      | .file _ => false
  | .error _ => false

/-- The text of a file. -/
def readText (tree : FileTree) (path : String) : Except FileError String := do
  let place ← tree.follow path
  match tree.here place with
  | .file (some text) => return text
  | .file none => throw .notText
  | .directory _ => throw .isDirectory

/-- What a directory has under a name. -/
def child? (name : String) : FileTree → Option FileTree
  | .directory children => Pairs.find? name children
  | .file _ => none

/-- Put a new tree under a name of a directory; outside nothing is kept. -/
def putAt (tree new : FileTree) (place : Place) (name : String) : FileTree :=
  match place with
  | .outside => tree
  | .inside trail => put new (name :: trail.map Prod.fst).reverse tree

/-- Whether a piece is the name of something in a directory. -/
def isName (piece : String) : Bool :=
  piece ≠ "" && piece ≠ "." && piece ≠ ".."

/-- A path without the slashes at its end. -/
def dropSlashes (path : String) : String :=
  String.ofList (path.toList.reverse.dropWhile (· = '/')).reverse

/-- Write a file, in place of one that is there.  A path with a slash at its end
means a directory, whether there is one or not. -/
def writeText (tree : FileTree) (path text : String) : Except FileError FileTree := do
  checkPath path
  let bare := dropSlashes path
  if bare = "" then throw .isDirectory
  let (place, name) ← tree.followParent bare
  if path ≠ bare ∨ !isName name then throw .isDirectory
  if longestName < name.utf8ByteSize then throw .nameTooLong
  match (tree.here place).child? name with
  | some (.directory _) => throw .isDirectory
  | _ => return tree.putAt (.file (some text)) place name

/-- Make a directory in one that is there.  Slashes at the end do not count. -/
def makeDirectory (tree : FileTree) (path : String) : Except FileError FileTree := do
  checkPath path
  let bare := dropSlashes path
  if bare = "" then throw .exists
  let (place, name) ← tree.followParent bare
  if !isName name then throw .exists
  if longestName < name.utf8ByteSize then throw .nameTooLong
  match (tree.here place).child? name with
  | some _ => throw .exists
  | none => return tree.putAt empty place name

/-- Make a directory and those that it lies in, as far as they are missing.
`depth` bounds how many. -/
def makeDirectoriesWithin : (depth : Nat) → FileTree → String → Except FileError FileTree
  | 0, _, _ => .error .notFound
  | depth + 1, tree, path =>
      if path = "" then .ok tree
      else
        match tree.makeDirectory path with
        | .ok tree => .ok tree
        | .error .notFound => do
            let tree ←
              match parent? path with
              | some parent => makeDirectoriesWithin depth tree parent
              | none => throw (.other "failed to create whole tree")
            match tree.makeDirectory path with
            | .ok tree => return tree
            | .error error => if tree.isDirectory path then return tree else throw error
        | .error error => if tree.isDirectory path then .ok tree else .error error

/-- Make a directory and those that it lies in, as far as they are missing.
Every one of them is named by a shorter path. -/
def makeDirectories (tree : FileTree) (path : String) : Except FileError FileTree :=
  makeDirectoriesWithin (path.toList.length + 1) tree path

end FileTree

end FlatBundle.Disk
