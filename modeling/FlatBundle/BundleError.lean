/-
  FlatBundle.BundleError
  ──────────────────────
  **WHY A BUNDLE CANNOT BE FINISHED.**

  None of these is a fault of the documents: each says that a step was taken
  before the step that it relies on.
-/
namespace FlatBundle

/-- Why a bundle could not be finished. -/
inductive BundleError where
  /-- The identity of a symbol was asked for before it was settled. -/
  | invalidState (module name : String)
  /-- A private symbol has no name in the bundle. -/
  | unresolvedHandle (module name : String)
  /-- A handle was left where text is written. -/
  | unwritableHandle
  deriving DecidableEq, Repr

/-- The text of an error. -/
def BundleError.message : BundleError → String
  | .invalidState module name =>
      "Invalid state: symbol " ++ module ++ ":" ++ name ++ " read before canonicalization"
  | .unresolvedHandle module name => "Unresolved reference to " ++ module ++ ":" ++ name
  | .unwritableHandle =>
      "Failed to serialize bundle: the enum variant Reference::Bundled cannot be serialized"

/-- A result, or why there is none. -/
abbrev Bundling := Except BundleError

end FlatBundle
