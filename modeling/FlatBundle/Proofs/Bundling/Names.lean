/-
  FlatBundle.Proofs.Bundling.Names
  ────────────────────────────────
  **NO TWO THINGS OF A BUNDLE HAVE ONE NAME.**

  The names of a bundle come from two places: public symbols have names that the root
  exports, private ones have words that an allocator hands out.

    • `privates_isNthFree`: the rows of the private symbols carry the free words in
      order, none left out,
    • `isRelative_of_isPrivate`: a private symbol is a declaration of the library,
    • `bundle_namesApart`: so no name, and no entry, is ever in the way of another.
-/
import FlatBundle.Proofs.Bundling.Layout
import FlatBundle.Proofs.Naming.Enumeration

namespace FlatBundle

open PrivateName (Allocator IsNthFree)

variable {host : Host} {root : String} {exported : List SymbolId} {run : Run}
variable {named : SymbolTable} {importAs : String} {bundled : Bundle}

/-! ## §1. Private names -/

/-- The private symbols of the bundle have the names that a new allocator hands out. -/
theorem SymbolTable.NamedFrom.map_bundleName {table : SymbolTable}
    (naming : table.NamedFrom exported named) :
    (table.privateIds exported).map named.bundleName
      = (Allocator.new (table.exportedNames exported)).take (table.privateIds exported).length := by
  apply List.map_injective_iff.2 (Option.some_injective String)
  rw [← naming.names, List.map_map]
  apply List.map_congr_left
  intro id hid
  obtain ⟨name, hname⟩ :=
    Option.isSome_iff_exists.1 ((naming.isSome_privateName?_iff id).2 hid)
  rw [hname, ← SymbolTable.bundleName_of_privateName? hname]
  rfl

/-- Naming keeps the names of the root exports. -/
theorem SymbolTable.SameBut.exportedNames {table : SymbolTable} (same : table.SameBut named)
    (exported : List SymbolId) : named.exportedNames exported = table.exportedNames exported := by
  apply List.map_congr_left
  intro id _
  rw [same id]
  cases table.get? id <;> rfl

/-- The rows of a bundle are those of the private symbols, which are known before they
are named. -/
theorem Bundle.Holds.privates_eq
    (holds : bundled.Holds (host.sources root) exported importAs named)
    (converted : run.Converted host root exported)
    (naming : run.symbols.NamedFrom exported named) :
    bundled.privates = (run.symbols.privateIds exported).map named.row := by
  rw [holds.privates, naming.filter_isPrivate converted.settled]

/-- The rows of a bundle carry the names that a new allocator hands out. -/
theorem Run.Converted.privateNames_eq (converted : run.Converted host root exported)
    (naming : run.symbols.NamedFrom exported named)
    (holds : bundled.Holds (host.sources root) exported importAs named) :
    bundled.privates.map PrivateEntry.privateName
      = (Allocator.new (named.exportedNames exported)).take bundled.privates.length := by
  rw [holds.privates_eq converted naming, List.map_map, List.length_map,
    naming.same.exportedNames]
  exact naming.map_bundleName

/-- **The rows carry the free words in order.** -/
theorem Run.Converted.privates_isNthFree (converted : run.Converted host root exported)
    (naming : run.symbols.NamedFrom exported named)
    (holds : bundled.Holds (host.sources root) exported importAs named) {number : Nat}
    {row : PrivateEntry} (hrow : bundled.privates[number]? = some row) :
    IsNthFree (named.exportedNames exported) number row.privateName := by
  apply Allocator.isNthFree_take bundled.privates.length
  rw [← converted.privateNames_eq naming holds, List.getElem?_map, hrow]
  rfl

/-! ## §2. Private symbols -/

/-- What the value of a symbol needs is inside of the library, if it is private: its
own declaration. -/
theorem Run.Settled.isRelative_of_needs (settled : run.Settled host root exported)
    {id other : SymbolId} (needs : run.symbols.Needs (host.sources root) exported id other)
    (isPrivate : run.symbols.isPrivate exported other = true) :
    ∃ module name, run.symbols.key? other = some (module, name)
      ∧ ModulePath.isRelative module = true := by
  obtain ⟨_, _, -, target, -, needed⟩ := needs
  obtain ⟨first, origin, key, horigin, inside, rfl⟩ := SymbolTable.exists_of_needed? needed
  -- the identity is private as the symbol itself is, so it is the declaration
  have same := SymbolTable.isPrivate_symbol settled.sound.linked settled.lt_size
    (SymbolTable.lt_size_of_key? key)
  rw [SymbolTable.symbol_of_isPrivate (same.symm.trans isPrivate)]
  exact ⟨origin.1, origin.2, horigin, inside⟩

/-- **A private symbol of a bundle is a name of a module of the library.** -/
theorem Run.Converted.isRelative_of_isPrivate (converted : run.Converted host root exported)
    {id : SymbolId} (hid : run.symbols.isReferenced id = true)
    (isPrivate : run.symbols.isPrivate exported id = true) :
    ∃ module name, run.symbols.key? id = some (module, name)
      ∧ ModulePath.isRelative module = true := by
  have settled := converted.settled
  obtain ⟨first, hfirst, chain⟩ := converted.needed id hid
  -- a root export is public, so the chain of needs has a last step
  rcases Relation.ReflTransGen.cases_tail chain with rfl | ⟨_, -, needs⟩
  · rw [SymbolTable.isPrivate,
      SymbolTable.canonicalize_root hfirst (settled.lt_size id hfirst)] at isPrivate
    cases isPrivate
  · exact settled.isRelative_of_needs needs isPrivate

/-- The row of a symbol is for the symbol's own name. -/
theorem SymbolTable.SameBut.key?_eq_row {table : SymbolTable} (same : table.SameBut named)
    {id : Nat} (bound : id < table.size) :
    table.key? id = some ((named.row id).module, (named.row id).name) := by
  obtain ⟨module, name, key⟩ := SymbolTable.exists_key?_of_lt bound
  obtain ⟨symbol, hs, hsame⟩ := Option.map_eq_some_iff.1 ((same.key? id).trans key)
  rw [key, ← hsame, SymbolTable.row, hs]
  rfl

theorem Run.Settled.lt_size_of_mem_privateIds (settled : run.Settled host root exported)
    {id : SymbolId} (hid : id ∈ run.symbols.privateIds exported) : id < run.symbols.size := by
  have marked := SymbolTable.mem_referenced.1 (List.mem_filter.1 hid).1
  exact (settled.referenced id marked).1.bound

/-- The row of a private symbol is for a name of a module of the library. -/
theorem Run.Converted.isRelative_row (converted : run.Converted host root exported)
    (naming : run.symbols.NamedFrom exported named) {id : SymbolId}
    (hid : id ∈ run.symbols.privateIds exported) :
    ModulePath.isRelative (named.row id).module = true := by
  obtain ⟨marked, isPrivate⟩ := List.mem_filter.1 hid
  obtain ⟨module, name, key, inside⟩ :=
    converted.isRelative_of_isPrivate (SymbolTable.mem_referenced.1 marked) isPrivate
  have shown := naming.same.key?_eq_row (converted.settled.lt_size_of_mem_privateIds hid)
  obtain ⟨rfl, -⟩ := Prod.mk.inj (Option.some.inj (key.symm.trans shown))
  exact inside

/-- Each row is for a name of a module of the library. -/
theorem Run.Converted.isRelative_of_mem_privates (converted : run.Converted host root exported)
    (naming : run.symbols.NamedFrom exported named)
    (holds : bundled.Holds (host.sources root) exported importAs named) {row : PrivateEntry}
    (hrow : row ∈ bundled.privates) : ModulePath.isRelative row.module = true := by
  rw [holds.privates_eq converted naming] at hrow
  obtain ⟨id, hid, rfl⟩ := List.mem_map.1 hrow
  exact converted.isRelative_row naming hid

/-- The rows of a bundle are for different names of modules. -/
theorem Run.Converted.nodup_privates (converted : run.Converted host root exported)
    (naming : run.symbols.NamedFrom exported named)
    (holds : bundled.Holds (host.sources root) exported importAs named) :
    (bundled.privates.map fun row => (row.module, row.name)).Nodup := by
  have bound : ∀ id ∈ run.symbols.privateIds exported, id < run.symbols.size :=
    fun id => converted.settled.lt_size_of_mem_privateIds
  rw [holds.privates_eq converted naming, List.map_map]
  apply List.Nodup.map_on ?_ (run.symbols.nodup_referenced.filter _)
  intro id hid other hother same
  replace same : ((named.row id).module, (named.row id).name)
      = ((named.row other).module, (named.row other).name) := same
  -- the rows read back the names of the symbols, which no two symbols share
  have key := naming.same.key?_eq_row (bound id hid)
  rw [same] at key
  exact SymbolTable.key?_inj key (naming.same.key?_eq_row (bound other hother))

/-! ## §3. Entries -/

/-- The symbols of the bundle have different names. -/
theorem Run.Converted.nodup_bundleName (converted : run.Converted host root exported)
    (naming : run.symbols.NamedFrom exported named) :
    (named.referenced.map named.bundleName).Nodup := by
  apply List.Nodup.map_on ?_ named.nodup_referenced
  intro id hid other hother same
  rw [SymbolTable.mem_referenced, naming.same.isReferenced] at hid hother
  exact naming.bundleName_injective converted.settled hid hother same

/-- A symbol of the bundle has a converted value exactly if it is declared. -/
theorem Run.Converted.isSome_value? (converted : run.Converted host root exported)
    (naming : run.symbols.NamedFrom exported named) {id : SymbolId} (hid : id ∈ named.referenced) :
    (named.value? id).isSome = (named.declared? (host.sources root) id).isSome := by
  rw [SymbolTable.mem_referenced, naming.same.isReferenced] at hid
  rw [naming.same.value?, naming.declared? converted.settled _ hid,
    (converted.complete id hid).value, Option.isSome_map]

/-- The entries stand under the names of the symbols that have a value. -/
theorem Run.Converted.keys_entries (converted : run.Converted host root exported)
    (naming : run.symbols.NamedFrom exported named)
    (holds : bundled.Holds (host.sources root) exported importAs named) :
    Pairs.keys bundled.document.entries.toList
      = (named.referenced.filter fun id => (named.value? id).isSome).map named.bundleName := by
  rw [holds.entries, SymbolTable.keys_entryOf?]
  congr 1
  apply List.filter_congr
  intro id hid
  exact (converted.isSome_value? naming hid).symm

/-! ## §4. The theorem -/

/-- No two things of the bundle have one name. -/
structure Bundle.NamesApart (bundle : Bundle) (exported : List SymbolId) (table : SymbolTable) :
    Prop where
  /-- The rows carry the words that are not names of root exports, in order. -/
  nth : ∀ number row, bundle.privates[number]? = some row →
    IsNthFree (table.exportedNames exported) number row.privateName
  nodup : (bundle.privates.map PrivateEntry.privateName).Nodup
  fresh : ∀ row ∈ bundle.privates, row.privateName ∉ table.exportedNames exported
  /-- Each row is for a name of its own, of a module of the library. -/
  sources : (bundle.privates.map fun row => (row.module, row.name)).Nodup
  inside : ∀ row ∈ bundle.privates, ModulePath.isRelative row.module = true
  /-- No two symbols put their values under one key. -/
  keys : (table.referenced.map table.bundleName).Nodup
  /-- So every value that is put in is there at the end, under the key of its symbol. -/
  entries : Pairs.keys bundle.document.entries.toList
    = (table.referenced.filter fun id => (table.value? id).isSome).map table.bundleName
  size : bundle.document.entries.size
    = (table.referenced.filter fun id => (table.value? id).isSome).length

/-- **No two things of a bundle have one name**, whatever names its library uses. -/
theorem bundle_namesApart {host : Host} (free : host.HandleFree) (root importAs : String) :
    ∃ exported table bundled, BundlesTo host root importAs exported table bundled
      ∧ bundled.NamesApart exported table := by
  obtain ⟨exported, run, table, bundled, bundles, converted, naming, holds⟩ :=
    free.bundlesTo root importAs
  have names := converted.privateNames_eq naming holds
  have keys := converted.keys_entries naming holds
  refine ⟨exported, table, bundled, bundles, ?_, ?_, ?_, ?_, ?_, ?_, keys, ?_⟩
  · intro number row hrow
    exact converted.privates_isNthFree naming holds hrow
  · rw [names]
    exact Allocator.nodup_take _ _
  · intro row hrow
    have handedOut : row.privateName ∈ bundled.privates.map PrivateEntry.privateName :=
      List.mem_map_of_mem hrow
    rw [names] at handedOut
    exact (Allocator.mem_take handedOut).1
  · exact converted.nodup_privates naming holds
  · intro row hrow
    exact converted.isRelative_of_mem_privates naming holds hrow
  · exact converted.nodup_bundleName naming
  · have sizes := congrArg List.length keys
    rw [List.length_map] at sizes
    rw [← sizes, Pairs.keys, List.length_map]
    rfl

theorem bundle_namesApart_shapeLibrary :
    ∃ exported table bundled, BundlesTo shapeLibrary "./index" "shapes" exported table bundled
      ∧ bundled.NamesApart exported table :=
  bundle_namesApart handleFree_shapeLibrary "./index" "shapes"

end FlatBundle
