/-
  FlatBundle.Proofs.Bundling.Hoisting
  ───────────────────────────────────
  **WHICH SYMBOLS ARE IN A BUNDLE.**

  The values of the root's exports need other symbols, whose values need more.  The
  symbols of a bundle are the least set that has the identities of the root's
  exports in it and all that its members need (`isLeast_referenced`): nothing is
  missing, and nothing is in the bundle that the root's exports do not reach.
-/
import FlatBundle.Proofs.Bundling.Layout
import Mathlib.Order.Bounds.Basic

namespace FlatBundle

variable {host : Host} {root : String} {exported : List SymbolId} {run : Run}
variable {named : SymbolTable}

/-! ## §1. Closed sets of symbols -/

/-- The identities of all root exports are in the set, and with a symbol everything
that its value needs. -/
structure SymbolTable.HoistClosed (table : SymbolTable) (sources : Sources)
    (exported : List SymbolId) (symbols : Set SymbolId) : Prop where
  roots : ∀ id ∈ exported, (table.canonicalize exported id).symbol ∈ symbols
  needs : ∀ id ∈ symbols, ∀ other, table.Needs sources exported id other → other ∈ symbols

/-- The value of a symbol of the bundle needs symbols of the bundle only. -/
theorem Run.Converted.isReferenced_of_needs (h : run.Converted host root exported)
    {id other : SymbolId} (hid : run.symbols.isReferenced id = true)
    (needs : run.symbols.Needs (host.sources root) exported id other) :
    run.symbols.isReferenced other = true := by
  obtain ⟨module, value, declared, target, met, needed⟩ := needs
  have reached := (h.complete id hid).reached module value declared target met
  exact reached.referenced other needed

/-- The symbols of the bundle are closed. -/
theorem Run.Converted.hoistClosed (h : run.Converted host root exported)
    (naming : run.symbols.NamedFrom exported named) :
    named.HoistClosed (host.sources root) exported {id | id ∈ named.referenced} := by
  have mem_iff : ∀ id, id ∈ named.referenced ↔ run.symbols.isReferenced id = true := by
    intro id
    rw [SymbolTable.mem_referenced, naming.same.isReferenced]
  constructor
  · intro id hid
    -- a root export is its own identity
    have bound : id < run.symbols.size := h.settled.lt_size id hid
    show _ ∈ named.referenced
    rw [naming.canonicalize h.settled bound, SymbolTable.canonicalize_root hid bound, mem_iff]
    exact h.roots id hid
  · intro id hid other needs
    have marked : run.symbols.isReferenced id = true := (mem_iff id).1 hid
    rw [naming.needs_iff h.settled _ marked] at needs
    exact (mem_iff other).2 (h.isReferenced_of_needs marked needs)

/-- A closed set has every symbol of the bundle in it, along the chain of needs that
starts at a root export. -/
theorem Run.Converted.mem_of_hoistClosed (h : run.Converted host root exported)
    (naming : run.symbols.NamedFrom exported named) {symbols : Set SymbolId}
    (closed : named.HoistClosed (host.sources root) exported symbols) {id : SymbolId}
    (hid : run.symbols.isReferenced id = true) : id ∈ symbols := by
  obtain ⟨first, hfirst, chain⟩ := h.needed id hid
  -- both tables agree on what the symbols of the bundle need, so both facts are carried
  have walk : run.symbols.isReferenced id = true ∧ id ∈ symbols := by
    clear hid
    induction chain with
    | refl =>
        have bound : first < run.symbols.size := h.settled.lt_size first hfirst
        have here := closed.roots first hfirst
        rw [naming.canonicalize h.settled bound, SymbolTable.canonicalize_root hfirst bound] at here
        exact ⟨h.roots first hfirst, here⟩
    | tail _ step ih =>
        obtain ⟨marked, mem⟩ := ih
        have needs := (naming.needs_iff h.settled _ marked).2 step
        exact ⟨h.isReferenced_of_needs marked step, closed.needs _ mem _ needs⟩
  exact walk.2

/-! ## §2. The theorem -/

/-- The bundle has the private symbols of its table in order of creation, and entries
for those symbols that have a value, in order of creation and each under a name of
its own. -/
structure Bundle.Lists (bundle : Bundle) (sources : Sources) (exported : List SymbolId)
    (table : SymbolTable) : Prop where
  privates : bundle.privates = (table.referenced.filter (table.isPrivate exported)).map table.row
  entries : Pairs.keys bundle.document.entries.toList
    = (table.referenced.filter fun id => (table.declared? sources id).isSome).map table.bundleName
  nodup : (table.referenced.map table.bundleName).Nodup

/-- **The symbols of a bundle are the least closed set**: complete, and with nothing
that the root's exports do not need.  The bundle lists exactly these symbols, and
every name that is met in their values has a symbol. -/
theorem isLeast_referenced {host : Host} (free : host.HandleFree) (root importAs : String) :
    ∃ exported table bundled, BundlesTo host root importAs exported table bundled
      ∧ IsLeast {symbols : Set SymbolId |
          table.HoistClosed (host.sources root) exported symbols} {id | id ∈ table.referenced}
      ∧ (∀ id ∈ table.referenced, ∀ module value,
          table.declared? (host.sources root) id = some (module, value) →
          ∀ target ∈ value.targets (host.sources root) module,
            (table.lookup target.1 target.2).isSome)
      ∧ bundled.Lists (host.sources root) exported table := by
  obtain ⟨exported, run, table, bundled, bundles, converted, naming, holds⟩ :=
    free.bundlesTo root importAs
  have marked : ∀ id ∈ table.referenced, run.symbols.isReferenced id = true := by
    intro id hid
    rw [← naming.same.isReferenced]
    exact SymbolTable.mem_referenced.1 hid
  refine ⟨exported, table, bundled, bundles, ⟨converted.hoistClosed naming, ?_⟩, ?_, ?_⟩
  · intro symbols closed id hid
    exact converted.mem_of_hoistClosed naming closed (marked id hid)
  · intro id hid module value declared target met
    rw [naming.declared? converted.settled _ (marked id hid)] at declared
    have reached := (converted.complete id (marked id hid)).reached module value declared target met
    rw [naming.lookup]
    exact reached.found
  · refine ⟨holds.privates, ?_, ?_⟩
    · rw [holds.entries, SymbolTable.keys_entryOf?]
    -- symbols with one name would be one symbol
    · apply List.Nodup.map_on ?_ table.nodup_referenced
      intro id hid other hother same
      exact naming.bundleName_injective converted.settled (marked id hid) (marked other hother) same

theorem isLeast_referenced_shapeLibrary :
    ∃ exported table bundled,
      BundlesTo shapeLibrary "./index" "shapes" exported table bundled
      ∧ IsLeast {symbols : Set SymbolId |
          table.HoistClosed (shapeLibrary.sources "./index") exported symbols}
          {id | id ∈ table.referenced}
      ∧ (∀ id ∈ table.referenced, ∀ module value,
          table.declared? (shapeLibrary.sources "./index") id = some (module, value) →
          ∀ target ∈ value.targets (shapeLibrary.sources "./index") module,
            (table.lookup target.1 target.2).isSome)
      ∧ bundled.Lists (shapeLibrary.sources "./index") exported table :=
  isLeast_referenced handleFree_shapeLibrary "./index" "shapes"

end FlatBundle
