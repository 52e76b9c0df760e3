/-
  FlatBundle.Proofs.Bundling.Exploration
  ──────────────────────────────────────
  **WHAT IS BUNDLED DOES NOT DEPEND ON WHAT WAS LOOKED AT FIRST.**

  Exports of modules may be resolved in any order before a root is bundled, and the order
  decides on the numbers of symbols, on the order of aliases and on who gets which private
  name.  The rest can be read off the documents, for a library in which no module
  re-exports from itself:

    • `hoists_iff_exists`: which names are in the bundle,
    • `mem_keys_iff`, `mem_privates_iff`: what the bundle lists,

  so it is the same after any two explorations (`bundleFrom_independent`).
-/
import FlatBundle.Proofs.Bundling.Names
import FlatBundle.Proofs.Bundling.References
import FlatBundle.Proofs.Bundling.Totality

namespace FlatBundle

variable {host : Host} {root : String} {exported : List SymbolId} {run : Run}
variable {named : SymbolTable} {importAs : String} {bundled : Bundle}

/-! ## §1. Names in the bundle -/

/-- The names that the values of the bundle are declared under: what the root's exports
resolve to, and what the references in their values resolve to inside of the library. -/
inductive Sources.Hoists (sources : Sources) (root : String) : Target → Prop
  | root {name : String} {final : Target} (exports : sources.Exports (rootModule root) name)
      (resolves : sources.Resolves (rootModule root, name) final) : Hoists sources root final
  | needed {first target final : Target} {value : Value} (hoists : Hoists sources root first)
      (declared : sources.value? first = some value)
      (met : target ∈ value.targets sources first.1) (resolves : sources.Resolves target final)
      (inside : ModulePath.isRelative final.1 = true) : Hoists sources root final

/-- **The symbols of the bundle are declared under the names that the documents say.** -/
theorem Run.Converted.hoists_iff_exists (converted : run.Converted host root exported)
    (acyclic : (host.sources root).Acyclic) (final : Target) :
    (host.sources root).Hoists root final
      ↔ ∃ id, run.symbols.isReferenced id = true ∧ run.symbols.origin? id = some final := by
  have settled := converted.settled
  have linked := settled.sound.linked
  constructor
  · intro hoists
    induction hoists with
    | @root name final exports resolves =>
        obtain ⟨id, hid, key⟩ := (settled.exports_root_iff acyclic name).1 exports
        obtain ⟨origin, horigin⟩ :=
          SymbolTable.exists_origin?_of_lt linked (SymbolTable.lt_size_of_key? key)
        obtain rfl := resolves.unique (settled.resolves acyclic key horigin)
        exact ⟨id, converted.roots id hid, horigin⟩
    | @needed first target final value _ declared met resolves inside ih =>
        obtain ⟨id, hid, horigin⟩ := ih
        have here : run.symbols.declared? (host.sources root) id = some (first.1, value) := by
          rw [SymbolTable.declared?, horigin, Option.bind_some, declared]
          rfl
        have reached := (converted.complete id hid).reached first.1 value here target met
        obtain ⟨other, found⟩ := Option.isSome_iff_exists.1 reached.found
        have key := (run.symbols.lookup_eq_some_iff_key? _ _ other).1 found
        obtain ⟨origin, horigin'⟩ :=
          SymbolTable.exists_origin?_of_lt linked (SymbolTable.lt_size_of_key? key)
        obtain rfl := resolves.unique (settled.resolves acyclic key horigin')
        -- the identity of the name is in the bundle, and declared where the name is
        refine ⟨(run.symbols.canonicalize exported other).symbol, ?_, ?_⟩
        · apply reached.referenced
          rw [SymbolTable.needed?_eq key horigin', if_pos inside]
        · rw [SymbolTable.origin?, settled.declaration_symbol acyclic other]
          exact horigin'
  · rintro ⟨id, hid, horigin⟩
    obtain ⟨first, hfirst, chain⟩ := converted.needed id hid
    clear hid
    induction chain generalizing final with
    | refl =>
        obtain ⟨name, key⟩ := settled.owned first hfirst
        exact .root ((settled.exports_root_iff acyclic name).2 ⟨first, hfirst, key⟩)
          (settled.resolves acyclic key horigin)
    | @tail middle other _ step ih =>
        obtain ⟨module, value, declared, target, met, needed⟩ := step
        obtain ⟨before, hbefore, hvalue⟩ := Option.bind_eq_some_iff.1 declared
        obtain ⟨_, hdeclared, same⟩ := Option.map_eq_some_iff.1 hvalue
        obtain ⟨rfl, rfl⟩ := Prod.mk.inj same
        obtain ⟨named, last, key, hlast, inside, rfl⟩ := SymbolTable.exists_of_needed? needed
        rw [SymbolTable.origin?, settled.declaration_symbol acyclic named] at horigin
        obtain rfl := Option.some.inj (hlast.symm.trans horigin)
        exact .needed (ih before hbefore) hdeclared met (settled.resolves acyclic key hlast) inside

/-! ## §2. What the bundle lists -/

/-- The root export names of the final table are what the root module exports. -/
theorem Run.Settled.mem_exportedNames_iff (settled : run.Settled host root exported)
    (naming : run.symbols.NamedFrom exported named) (acyclic : (host.sources root).Acyclic)
    (name : String) :
    name ∈ named.exportedNames exported ↔ (host.sources root).Exports (rootModule root) name := by
  rw [naming.same.exportedNames, settled.exports_root_iff acyclic]
  constructor
  · intro mem
    obtain ⟨id, hid, rfl⟩ := List.mem_map.1 mem
    obtain ⟨name, key⟩ := settled.owned id hid
    obtain ⟨symbol, hs, same⟩ := Option.map_eq_some_iff.1 key
    obtain ⟨-, rfl⟩ := Prod.mk.inj same
    refine ⟨id, hid, ?_⟩
    rw [hs]
    exact key
  · rintro ⟨id, hid, key⟩
    exact SymbolTable.mem_exportedNames hid key

/-- **The public entries** are the root exports that resolve to a value. -/
theorem Run.Converted.mem_keys_iff (converted : run.Converted host root exported)
    (naming : run.symbols.NamedFrom exported named)
    (holds : bundled.Holds (host.sources root) exported importAs named)
    (acyclic : (host.sources root).Acyclic) (name : String) :
    name ∈ Pairs.keys bundled.document.entries.toList ∧ name ∈ named.exportedNames exported
      ↔ (host.sources root).Exports (rootModule root) name
        ∧ ∃ final, (host.sources root).Resolves (rootModule root, name) final
          ∧ ((host.sources root).value? final).isSome = true := by
  have settled := converted.settled
  rw [settled.mem_exportedNames_iff naming acyclic, and_comm]
  apply and_congr_right
  intro exports
  obtain ⟨id, hid, key⟩ := (settled.exports_root_iff acyclic name).1 exports
  have marked := converted.roots id hid
  obtain ⟨origin, horigin⟩ := SymbolTable.exists_origin?_of_lt settled.sound.linked
    (SymbolTable.lt_size_of_key? key)
  have resolves := settled.resolves acyclic key horigin
  -- the entry under the name is that of the root export
  have entry : bundled.document.get? name
      = ((host.sources root).value? origin).map
          (Value.rewrite (host.sources root) (named.pointer exported) origin.1) := by
    rw [← converted.bundleName_of_mem naming hid key]
    exact holds.get?_of_origin? converted naming marked horigin
  have mem : name ∈ Pairs.keys bundled.document.entries.toList
      ↔ (bundled.document.get? name).isSome = true :=
    (Entries.contains_iff_mem_keys bundled.document.entries name).symm
  rw [mem, entry, Option.isSome_map]
  constructor
  · intro declared
    exact ⟨origin, resolves, declared⟩
  · rintro ⟨final, hfinal, declared⟩
    rw [resolves.unique hfinal]
    exact declared

/-- **The rows of the private symbols** are the names that the bundle needs and that no root
export resolves to. -/
theorem Run.Converted.mem_privates_iff (converted : run.Converted host root exported)
    (naming : run.symbols.NamedFrom exported named)
    (holds : bundled.Holds (host.sources root) exported importAs named)
    (acyclic : (host.sources root).Acyclic) (final : Target) :
    (∃ row ∈ bundled.privates, (row.module, row.name) = final)
      ↔ (host.sources root).Hoists root final ∧ ¬ (host.sources root).IsPublic root final := by
  have settled := converted.settled
  rw [holds.privates_eq converted naming, converted.hoists_iff_exists acyclic]
  constructor
  · rintro ⟨row, hrow, rfl⟩
    obtain ⟨id, hid, rfl⟩ := List.mem_map.1 hrow
    obtain ⟨marked, isPrivate⟩ := List.mem_filter.1 hid
    rw [SymbolTable.mem_referenced] at marked
    have identity := (settled.referenced id marked).1
    have key := naming.same.key?_eq_row identity.bound
    have origin := (settled.key?_of_isPrivate acyclic identity isPrivate).symm.trans key
    exact ⟨⟨id, marked, origin⟩,
      (settled.isPrivate_iff_not_isPublic acyclic key origin).1 isPrivate⟩
  · rintro ⟨⟨id, marked, origin⟩, apart⟩
    have identity := (settled.referenced id marked).1
    have key := naming.same.key?_eq_row identity.bound
    have isPrivate := (settled.isPrivate_iff_not_isPublic acyclic key origin).2 apart
    refine ⟨named.row id, List.mem_map_of_mem (List.mem_filter.2
      ⟨SymbolTable.mem_referenced.2 marked, isPrivate⟩), ?_⟩
    rw [settled.key?_of_isPrivate acyclic identity isPrivate, origin] at key
    exact (Option.some.inj key).symm

/-- **The identity of a symbol in the final table** is what its name resolves to, and private
exactly if no root export resolves there. -/
theorem Run.Converted.identity_iff (converted : run.Converted host root exported)
    (naming : run.symbols.NamedFrom exported named) (acyclic : (host.sources root).Acyclic)
    {id : SymbolId} {target : Target} (key : named.key? id = some target) :
    ∃ final, (host.sources root).Resolves target final
      ∧ named.key? (named.canonicalize exported id).declaration = some final
      ∧ ((named.canonicalize exported id).isPrivate = true
        ↔ ¬ (host.sources root).IsPublic root final) := by
  have settled := converted.settled
  rw [naming.same.key?] at key
  have bound := SymbolTable.lt_size_of_key? key
  obtain ⟨final, origin⟩ := SymbolTable.exists_origin?_of_lt settled.sound.linked bound
  refine ⟨final, settled.resolves acyclic key origin, ?_, ?_⟩ <;>
    rw [naming.canonicalize settled bound]
  · rw [naming.same.key?, SymbolTable.declaration_canonicalize]
    exact origin
  · exact settled.isPrivate_iff_not_isPublic acyclic key origin

/-! ## §3. The theorem -/

/-- A bundling run after the exports of some modules have been resolved: what the root
exports, the symbol table at the end, and the bundle. -/
structure BundlesAfter (host : Host) (modules : List String) (root importAs : String)
    (exported : List SymbolId) (table : SymbolTable) (bundled : Bundle) : Prop where
  table : ∃ run, convertRoot root (exportModules modules (Run.start host root)).2
      = (.ok exported, run)
    ∧ run.symbols.namePrivates exported = .ok table
  bundle : (bundleFrom root importAs (exportModules modules (Run.start host root)).2).1
    = .ok bundled

/-- A library without handles has a bundling run, whatever has been resolved before. -/
theorem Host.HandleFree.bundlesAfter (free : host.HandleFree) (modules : List String)
    (root importAs : String) :
    ∃ (exported : List SymbolId) (run : Run) (named : SymbolTable) (bundled : Bundle),
      convertRoot root (exportModules modules (Run.start host root)).2 = (.ok exported, run)
      ∧ BundlesAfter host modules root importAs exported named bundled
      ∧ run.Converted host root exported
      ∧ run.symbols.NamedFrom exported named
      ∧ bundled.Holds (host.sources root) exported importAs named := by
  have exporting : (exportModules modules (Run.start host root)).2.Exporting host root :=
    (Run.exporting_start host root).forM modules
  obtain ⟨exported, run, named, bundled, hconvert, converted, hnamed, naming, hbundle, holds⟩ :=
    exporting.bundleFrom free importAs
  exact ⟨exported, run, named, bundled, hconvert, ⟨⟨run, hconvert, hnamed⟩, hbundle⟩, converted,
    naming, holds⟩

/-- Two runs have bundled the same, under whatever private names and numbers. -/
structure BundledAlike (exported exported' : List SymbolId) (table table' : SymbolTable)
    (bundled bundled' : Bundle) : Prop where
  publics : ∀ name,
    name ∈ Pairs.keys bundled.document.entries.toList ∧ name ∈ table.exportedNames exported
      ↔ name ∈ Pairs.keys bundled'.document.entries.toList ∧ name ∈ table'.exportedNames exported'
  privates : ∀ target : Target, (∃ row ∈ bundled.privates, (row.module, row.name) = target)
    ↔ ∃ row ∈ bundled'.privates, (row.module, row.name) = target
  identities : ∀ target id id', table.key? id = some target → table'.key? id' = some target →
    ∃ final, table.key? (table.canonicalize exported id).declaration = some final
      ∧ table'.key? (table'.canonicalize exported' id').declaration = some final
      ∧ (table.canonicalize exported id).isPrivate
        = (table'.canonicalize exported' id').isPrivate

/-- **What is bundled does not depend on what was looked at first**, in a library in which
no module re-exports from itself. -/
theorem bundleFrom_independent {host : Host} (free : host.HandleFree) (root : String)
    (acyclic : (host.sources root).Acyclic) (importAs importAs' : String)
    (first second : List String) :
    ∃ exported table bundled exported' table' bundled',
      BundlesAfter host first root importAs exported table bundled
      ∧ BundlesAfter host second root importAs' exported' table' bundled'
      ∧ BundledAlike exported exported' table table' bundled bundled' := by
  obtain ⟨exported, run, table, bundled, hconvert, converted, hnamed, naming, hbundle, holds⟩ :=
    ((Run.exporting_start host root).forM first).bundleFrom free importAs
  obtain ⟨exported', run', table', bundled', hconvert', converted', hnamed', naming', hbundle',
    holds'⟩ := ((Run.exporting_start host root).forM second).bundleFrom free importAs'
  refine ⟨exported, table, bundled, exported', table', bundled',
    ⟨⟨run, hconvert, hnamed⟩, hbundle⟩, ⟨⟨run', hconvert', hnamed'⟩, hbundle'⟩, ?_, ?_, ?_⟩
  · intro name
    rw [converted.mem_keys_iff naming holds acyclic, converted'.mem_keys_iff naming' holds' acyclic]
  · intro target
    rw [converted.mem_privates_iff naming holds acyclic,
      converted'.mem_privates_iff naming' holds' acyclic]
  · intro target id id' key key'
    obtain ⟨final, resolves, declared, isPrivate⟩ := converted.identity_iff naming acyclic key
    obtain ⟨final', resolves', declared', isPrivate'⟩ :=
      converted'.identity_iff naming' acyclic key'
    -- what the name resolves to is one name, whatever the run has come to first
    obtain rfl := resolves.unique resolves'
    refine ⟨final, declared, declared', ?_⟩
    rw [Bool.eq_iff_iff, isPrivate, isPrivate']

theorem bundleFrom_independent_shapeLibrary :
    ∃ exported table bundled exported' table' bundled',
      BundlesAfter shapeLibrary [] "./index" "shapes" exported table bundled
      ∧ BundlesAfter shapeLibrary ["./shapes", "./absent"] "./index" "shapes" exported' table'
        bundled'
      ∧ BundledAlike exported exported' table table' bundled bundled' :=
  bundleFrom_independent handleFree_shapeLibrary "./index" acyclic_shapeLibrary "shapes" "shapes" []
    ["./shapes", "./absent"]

end FlatBundle
