/-
  FlatBundle.Proofs.Bundling.Contents
  ───────────────────────────────────
  **A BUNDLE IS THE REWRITTEN LIBRARY.**

  Conversion leaves handles behind, and a second walk puts names in their place.
  Together they are one rewriting: the entry of a symbol is the value of its
  declaration, in which every reference that is met has become what the final
  symbol table says of it (`bundle_isRewriting`).
-/
import FlatBundle.Proofs.Bundling.Layout

namespace FlatBundle

variable {host : Host} {root : String} {exported : List SymbolId} {run : Run}
variable {named : SymbolTable}

/-! ## §1. Looking up an entry -/

/-- The entry under the name of a symbol is the final value of that symbol, since no
other symbol has the name. -/
theorem Bundle.Holds.get?_bundleName {importAs : String} {bundle : Bundle}
    (holds : bundle.Holds (host.sources root) exported importAs named)
    (converted : run.Converted host root exported)
    (naming : run.symbols.NamedFrom exported named) {id : SymbolId} (hid : id ∈ named.referenced) :
    bundle.document.get? (named.bundleName id)
      = named.final? (host.sources root) exported id := by
  have marked : ∀ other ∈ named.referenced, run.symbols.isReferenced other = true := by
    intro other hother
    rw [← naming.same.isReferenced]
    exact SymbolTable.mem_referenced.1 hother
  show Pairs.find? (named.bundleName id) bundle.document.entries.toList = _
  cases final : named.final? (host.sources root) exported id with
  | some value =>
      have written : named.entryOf? (host.sources root) exported id
          = some (named.bundleName id, value) := by
        rw [SymbolTable.entryOf?, final]
        rfl
      have mem : (named.bundleName id, value) ∈ bundle.document.entries.toList := by
        rw [holds.entries]
        exact List.mem_filterMap.2 ⟨id, hid, written⟩
      exact Pairs.find?_eq_some_of_mem bundle.document.entries.nodup mem
  | none =>
      cases found : Pairs.find? (named.bundleName id) bundle.document.entries.toList with
      | none => rfl
      | some value =>
          -- the entry would be that of another symbol with the same name
          exfalso
          have mem := Pairs.mem_of_find?_eq_some found
          rw [holds.entries] at mem
          obtain ⟨other, hother, written⟩ := List.mem_filterMap.1 mem
          obtain ⟨_, hvalue, hpair⟩ := Option.map_eq_some_iff.1 written
          have same := (Prod.mk.inj hpair).1
          have equal := naming.bundleName_injective converted.settled (marked other hother)
            (marked id hid) same
          rw [equal, final] at hvalue
          cases hvalue

/-! ## §2. References in the bundle -/

/-- A reference that is met in the value of a symbol of the bundle stands for a
symbol. -/
theorem Run.Converted.exists_target (h : run.Converted host root exported)
    (naming : run.symbols.NamedFrom exported named) {id : SymbolId}
    (hid : run.symbols.isReferenced id = true) {module : String} {value : Value}
    (declared : named.declared? (host.sources root) id = some (module, value)) {target : Target}
    (met : target ∈ value.targets (host.sources root) module) :
    ∃ other, named.lookup target.1 target.2 = some other ∧ other < run.symbols.size := by
  rw [naming.declared? h.settled _ hid] at declared
  have reached := (h.complete id hid).reached module value declared target met
  obtain ⟨other, found⟩ := Option.isSome_iff_exists.1 reached.found
  refine ⟨other, (naming.lookup _ _).trans found, ?_⟩
  exact SymbolTable.lt_size_of_key? ((run.symbols.lookup_eq_some_iff_key? _ _ other).1 found)

/-- A value is what the table says of a name: the final name of its symbol's
identity, or the declaration if that is outside of the library. -/
def SymbolTable.Shows (table : SymbolTable) (exported : List SymbolId) (target : Target)
    (value : Value) : Prop :=
  ∃ id origin, table.lookup target.1 target.2 = some id
    ∧ table.key? (table.declaration id) = some origin
    ∧ value = if ModulePath.isRelative origin.1 then
        .global (table.bundleName (table.canonicalize exported id).symbol)
      else .imported origin.1 origin.2

/-- A name that is met in the value of a symbol becomes what the table says of it. -/
theorem Run.Converted.shows (converted : run.Converted host root exported)
    (naming : run.symbols.NamedFrom exported named) {id : SymbolId}
    (hid : run.symbols.isReferenced id = true) {module : String} {value : Value}
    (declared : named.declared? (host.sources root) id = some (module, value)) {target : Target}
    (met : target ∈ value.targets (host.sources root) module) :
    named.Shows exported target (named.pointer exported target) := by
  -- a name that is met has been looked up, so it has a symbol
  obtain ⟨other, found, hother⟩ := converted.exists_target naming hid declared met
  have linked : named.Linked := naming.same.sameLinks.linked converted.settled.sound.linked
  have bound : other < named.size := by
    rw [naming.same.size]
    exact hother
  obtain ⟨origin, horigin⟩ := SymbolTable.exists_origin?_of_lt linked bound
  have key := (named.lookup_eq_some_iff_key? _ _ other).1 found
  exact ⟨other, origin, found, horigin, SymbolTable.replacement_eq _ key horigin⟩

/-! ## §3. The theorem -/

/-- The bundle is the rewritten library: the entry of a symbol is the rewritten value
of its declaration, there is none if there is no such value, and the references that
are met become what the table says. -/
def Bundle.IsRewriting (bundle : Bundle) (sources : Sources) (exported : List SymbolId)
    (table : SymbolTable) : Prop :=
  ∀ id ∈ table.referenced, ∃ module name, table.key? (table.declaration id) = some (module, name)
    ∧ bundle.document.get? (table.bundleName id)
      = (sources.value? (module, name)).map
          (Value.rewrite sources (table.pointer exported) module)
    ∧ ∀ value, sources.value? (module, name) = some value →
      ∀ target ∈ value.targets sources module,
        table.Shows exported target (table.pointer exported target)

/-- **Bundling is one rewriting of the library**, cyclic exports and values that refer
to each other included. -/
theorem bundle_isRewriting {host : Host} (free : host.HandleFree) (root importAs : String) :
    ∃ exported table bundled, BundlesTo host root importAs exported table bundled
      ∧ bundled.IsRewriting (host.sources root) exported table := by
  obtain ⟨exported, run, table, bundled, bundles, converted, naming, holds⟩ :=
    free.bundlesTo root importAs
  refine ⟨exported, table, bundled, bundles, ?_⟩
  intro id hid
  have marked : run.symbols.isReferenced id = true := by
    rw [← naming.same.isReferenced]
    exact SymbolTable.mem_referenced.1 hid
  -- naming touches no link, so origins are found in the table with names
  have linked : table.Linked :=
    naming.same.sameLinks.linked converted.settled.sound.linked
  have bound : ∀ other, other < run.symbols.size → other < table.size := by
    intro other hother
    rw [naming.same.size]
    exact hother
  obtain ⟨⟨module, name⟩, origin⟩ := SymbolTable.exists_origin?_of_lt linked
    (bound id (converted.settled.referenced id marked).1.bound)
  have declared : table.declared? (host.sources root) id
      = ((host.sources root).value? (module, name)).map fun value => (module, value) := by
    rw [SymbolTable.declared?, origin]
    rfl
  refine ⟨module, name, origin, ?_, ?_⟩
  · rw [holds.get?_bundleName converted naming hid, SymbolTable.final?, declared]
    cases (host.sources root).value? (module, name) <;> rfl
  · intro value hvalue target met
    rw [hvalue] at declared
    -- a name that is met has been looked up, so it has a symbol
    obtain ⟨other, found, hother⟩ := converted.exists_target naming marked declared met
    obtain ⟨origin', horigin⟩ := SymbolTable.exists_origin?_of_lt linked (bound other hother)
    refine ⟨other, origin', found, horigin, ?_⟩
    have key := (table.lookup_eq_some_iff_key? _ _ other).1 found
    exact SymbolTable.replacement_eq _ key horigin

theorem bundle_isRewriting_shapeLibrary :
    ∃ exported table bundled,
      BundlesTo shapeLibrary "./index" "shapes" exported table bundled
        ∧ bundled.IsRewriting (shapeLibrary.sources "./index") exported table :=
  bundle_isRewriting handleFree_shapeLibrary "./index" "shapes"

/-! ## §4. What a bundle has -/

/-- The entries and the rows of the bundle of a library. -/
def Host.contents? (host : Host) (root importAs : String) :
    Option (List (String × Value) × List PrivateEntry) :=
  match bundle root importAs host with
  | .ok bundled => some (bundled.document.entries.toList, bundled.privates)
  | .error _ => none

theorem Host.exists_of_contents? {host : Host} {root importAs : String}
    {entries : List (String × Value)} {privates : List PrivateEntry}
    (h : host.contents? root importAs = some (entries, privates)) :
    ∃ bundled, bundle root importAs host = .ok bundled
      ∧ bundled.document.entries.toList = entries ∧ bundled.privates = privates := by
  unfold contents? at h
  split at h
  · next bundled done =>
      obtain ⟨same, same'⟩ := Prod.mk.inj (Option.some.inj h)
      exact ⟨bundled, done, same, same'⟩
  · cases h

end FlatBundle
