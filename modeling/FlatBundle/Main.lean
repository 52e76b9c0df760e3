/-
  FlatBundle.Main
  ───────────────
  **THE COMMAND LINE PROGRAM.**

  Runs what the arguments ask for on the real disk.
-/
import FlatBundle.Command.Execution

namespace FlatBundle.Disk

/-- What went wrong, in terms of files. -/
def FileError.ofSystem (error : IO.Error) : FileError :=
  match error with
  | .noFileOrDirectory .. => .notFound
  | .alreadyExists .. => .exists
  | .inappropriateType _ code _ => if code = 20 then .notDirectory else .isDirectory
  | .permissionDenied .. => .other "Permission denied (os error 13)"
  | error => .other (toString error)

/-- The answer of an action, or why it failed. -/
def attempt {α : Type} (action : IO α) : IO (Except FileError α) := do
  match ← action.toBaseIO with
  | .ok answer => return .ok answer
  | .error error => return .error (.ofSystem error)

/-- The text of a file on the disk. -/
def readFile (path : String) : IO (Except FileError String) := do
  match ← attempt (IO.FS.readBinFile path) with
  | .error error => return .error error
  | .ok bytes =>
      match String.fromUTF8? bytes with
      | some text => return .ok text
      | none => return .error .notText

/-- Whether a path leads to a directory on the disk. -/
def leadsToDirectory (path : String) : IO Bool := do
  match ← attempt (IO.FS.realPath path) with
  | .ok place => place.isDir
  | .error _ => return false

/-- Run a program on the disk. -/
def Program.onDisk {α : Type} : Program α → IO α
  | .done result => return result
  | .isDirectory path next => do (next (← leadsToDirectory path)).onDisk
  | .readText path next => do (next (← readFile path)).onDisk
  | .writeText path text next => do
      (next (← attempt (IO.FS.writeFile path text))).onDisk
  | .makeDirectories path next => do
      (next (← attempt (IO.FS.createDirAll path))).onDisk

end FlatBundle.Disk

open FlatBundle in
/-- Do what the arguments ask for. -/
def main (arguments : List String) : IO UInt32 := do
  let outcome ← (Command.run arguments).onDisk
  IO.print outcome.output
  IO.eprint outcome.errors
  return UInt32.ofNat outcome.code
