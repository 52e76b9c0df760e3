/-
  FlatBundle.Symbol.Numbering
  ───────────────────────────
  **NUMBERS FOR THE NAMES OF MODULES.**

  A numbering maps pairs of a module and a name to numbers.  It is kept by
  module, so that a look-up compares the name with names of one module only.
  The view is `find?`, and `find?_add` says what an addition does to it.
-/
import FlatBundle.Entries

namespace FlatBundle

/-- Numbers for names of modules. -/
structure Numbering where
  /-- The numbers of the names of each module. -/
  modules : Entries (Entries Nat)
  deriving Inhabited

namespace Numbering

/-- The numbering that has no number. -/
def empty : Numbering := ⟨Entries.empty⟩

/-- The numbers of the names of a module. -/
def names (numbering : Numbering) (module : String) : Entries Nat :=
  (numbering.modules.get? module).getD Entries.empty

/-- The number of a name of a module. -/
def find? (numbering : Numbering) (module name : String) : Option Nat :=
  (numbering.names module).get? name

/-- Give a number to a name of a module. -/
def add (numbering : Numbering) (module name : String) (number : Nat) : Numbering :=
  ⟨numbering.modules.insert module ((numbering.names module).insert name number)⟩

theorem find?_empty (module name : String) : empty.find? module name = none := rfl

theorem names_add (numbering : Numbering) (module name other : String) (number : Nat) :
    (numbering.add module name number).names other
      = if other = module then (numbering.names module).insert name number
        else numbering.names other := by
  simp only [names, add, Entries.get?_insert]
  split <;> rfl

theorem find?_add (numbering : Numbering) (module name : String) (number : Nat)
    (module' name' : String) :
    (numbering.add module name number).find? module' name'
      = if module' = module ∧ name' = name then some number
        else numbering.find? module' name' := by
  unfold find?
  rw [names_add]
  by_cases hm : module' = module
  · subst hm; simp [Entries.get?_insert]
  · simp [hm]

end Numbering

end FlatBundle
