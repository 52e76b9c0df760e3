/-
  FlatBundle.Disk.Program
  ───────────────────────
  **WHAT A PROGRAM ASKS OF A DISK.**

  A program is a tree of questions and orders to a disk, each with what to do
  next for every answer.  It decides everything and touches nothing: one
  interpretation runs it on a file tree, another may run it on a real disk.
-/
import FlatBundle.Disk.FileTree

namespace FlatBundle.Disk

/-! ## §1. Programs -/

/-- A computation that uses a disk. -/
inductive Program (α : Type) where
  | done (result : α)
  /-- Whether a path leads to a directory. -/
  | isDirectory (path : String) (next : Bool → Program α)
  /-- The text of a file. -/
  | readText (path : String) (next : Except FileError String → Program α)
  /-- Write a file. -/
  | writeText (path text : String) (next : Except FileError Unit → Program α)
  /-- Make a directory and those that it lies in. -/
  | makeDirectories (path : String) (next : Except FileError Unit → Program α)

namespace Program

variable {α β : Type}

/-- One program after another. -/
def bind : Program α → (α → Program β) → Program β
  | .done result, f => f result
  | .isDirectory path next, f => .isDirectory path fun answer => (next answer).bind f
  | .readText path next, f => .readText path fun answer => (next answer).bind f
  | .writeText path text next, f => .writeText path text fun answer => (next answer).bind f
  | .makeDirectories path next, f => .makeDirectories path fun answer => (next answer).bind f

instance : Monad Program where
  pure := .done
  bind := bind

/-! ## §2. Running on a file tree -/

/-- The answer of an order that leaves a new tree, and the tree after it. -/
def obey (tree : FileTree) (result : Except FileError FileTree) :
    Except FileError Unit × FileTree :=
  match result with
  | .ok tree => (.ok (), tree)
  | .error error => (.error error, tree)

/-- The result of a program on a file tree, and the tree that it leaves. -/
def run : Program α → FileTree → α × FileTree
  | .done result, tree => (result, tree)
  | .isDirectory path next, tree => (next (tree.isDirectory path)).run tree
  | .readText path next, tree => (next (tree.readText path)).run tree
  | .writeText path text next, tree =>
      let (answer, tree) := obey tree (tree.writeText path text)
      (next answer).run tree
  | .makeDirectories path next, tree =>
      let (answer, tree) := obey tree (tree.makeDirectories path)
      (next answer).run tree

end Program

end FlatBundle.Disk
