/-
  FlatBundle.Proofs.Conversion.Replacement
  ────────────────────────────────────────
  **WHAT STANDS FOR A REFERENCE, READ OFF THE SYMBOL TABLE.**

  A reference to a name of the library is replaced by a reference to the identity
  of the name's symbol, or by one to the declaration if that is outside of the
  library (`SymbolTable.replacement`).  While values are converted the identity is
  a handle; a growing table never takes back what it says of a name.

  A symbol `Needs` the identities that the value of its declaration refers to.
-/
import FlatBundle.Proofs.Conversion.Settled
import FlatBundle.Proofs.Value.Rewrite

namespace FlatBundle

/-! ## §1. Declarations -/

/-- The value that a module declares under a name, unless the name is made by a
compiler. -/
def Sources.value? (sources : Sources) (target : Target) : Option Value :=
  if isReservedName target.2 then none else (sources target.1).bind (·.get? target.2)

namespace SymbolTable

/-- The module and the name of the declaration of a symbol. -/
def origin? (table : SymbolTable) (id : SymbolId) : Option Target :=
  table.key? (table.declaration id)

/-- The value that a symbol stands for, and the module that it stands in. -/
def declared? (table : SymbolTable) (sources : Sources) (id : SymbolId) :
    Option (String × Value) :=
  (table.origin? id).bind fun origin => (sources.value? origin).map fun value => (origin.1, value)

/-! ## §2. References -/

/-- What stands for the references to a name, where `point` makes references to
identities. -/
def replacement (point : SymbolId → Value) (table : SymbolTable) (exported : List SymbolId)
    (target : Target) : Value :=
  match table.lookup target.1 target.2 with
  | none => .null
  | some id =>
      match table.origin? id with
      | none => .null
      | some (module, name) =>
          if ModulePath.isRelative module then point (table.canonicalize exported id).symbol
          else .imported module name

/-- What stands for the references to a name while values are converted. -/
def handle (table : SymbolTable) (exported : List SymbolId) : Target → Value :=
  table.replacement (fun id => .ofReference (.bundled id)) exported

/-- The identity that references to a name ask for, if the declaration is inside of
the library. -/
def needed? (table : SymbolTable) (exported : List SymbolId) (target : Target) :
    Option SymbolId :=
  (table.lookup target.1 target.2).bind fun id =>
    (table.origin? id).bind fun origin =>
      if ModulePath.isRelative origin.1 then some (table.canonicalize exported id).symbol else none

/-- The value of one symbol refers to the other, by any of its names. -/
def Needs (table : SymbolTable) (sources : Sources) (exported : List SymbolId)
    (id other : SymbolId) : Prop :=
  ∃ module value, table.declared? sources id = some (module, value)
    ∧ ∃ target ∈ value.targets sources module, table.needed? exported target = some other

/-- The references to the name have been dealt with. -/
structure Reached (table : SymbolTable) (exported : List SymbolId) (target : Target) : Prop where
  found : (table.lookup target.1 target.2).isSome
  referenced : ∀ id, table.needed? exported target = some id → table.isReferenced id = true

variable {table : SymbolTable} {exported : List SymbolId}

theorem replacement_eq (point : SymbolId → Value) {target origin : Target} {id : SymbolId}
    (found : table.key? id = some target) (declared : table.origin? id = some origin) :
    table.replacement point exported target
      = if ModulePath.isRelative origin.1 then point (table.canonicalize exported id).symbol
        else .imported origin.1 origin.2 := by
  rw [replacement, (table.lookup_eq_some_iff_key? target.1 target.2 id).2 found]
  simp only [declared]

theorem needed?_eq {target origin : Target} {id : SymbolId} (found : table.key? id = some target)
    (declared : table.origin? id = some origin) :
    table.needed? exported target
      = if ModulePath.isRelative origin.1 then some (table.canonicalize exported id).symbol
        else none := by
  rw [needed?, (table.lookup_eq_some_iff_key? target.1 target.2 id).2 found, Option.bind_some,
    declared, Option.bind_some]

/-- What is needed is the identity of the name's symbol, declared inside of the library. -/
theorem exists_of_needed? {target : Target} {id : SymbolId}
    (h : table.needed? exported target = some id) :
    ∃ first origin, table.key? first = some target ∧ table.origin? first = some origin
      ∧ ModulePath.isRelative origin.1 = true
      ∧ id = (table.canonicalize exported first).symbol := by
  obtain ⟨first, found, h⟩ := Option.bind_eq_some_iff.1 h
  obtain ⟨origin, horigin, h⟩ := Option.bind_eq_some_iff.1 h
  split at h
  · next inside =>
      have key := (table.lookup_eq_some_iff_key? target.1 target.2 first).1 found
      exact ⟨first, origin, key, horigin, inside, (Option.some.inj h).symm⟩
  · cases h

/-! ## §3. In a table that has grown -/

theorem exists_origin?_of_lt (linked : table.Linked) {id : Nat} (bound : id < table.size) :
    ∃ origin, table.origin? id = some origin := by
  obtain ⟨module, name, hk⟩ :=
    exists_key?_of_lt ((table.leadsTo_declaration id).lt_size linked bound)
  exact ⟨(module, name), hk⟩

theorem origin?_grows {before after : SymbolTable} (h : before.Grows after)
    (linked : before.Linked) {id : Nat} (bound : id < before.size) :
    after.origin? id = before.origin? id := by
  rw [origin?, origin?, declaration_grows h linked bound]
  exact h.key? _ ((before.leadsTo_declaration id).lt_size linked bound)

theorem declared?_grows {before after : SymbolTable} (h : before.Grows after)
    (linked : before.Linked) (sources : Sources) {id : Nat} (bound : id < before.size) :
    after.declared? sources id = before.declared? sources id := by
  rw [declared?, declared?, origin?_grows h linked bound]

end SymbolTable

end FlatBundle
