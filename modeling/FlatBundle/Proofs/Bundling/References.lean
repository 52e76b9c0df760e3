/-
  FlatBundle.Proofs.Bundling.References
  ─────────────────────────────────────
  **REFERENCES KEEP THEIR MEANING.**

  What a name of a library resolves to can be read off the documents
  (`Sources.Resolves`).  For a library in which no module re-exports from itself, the
  bundle is explained by that alone, without a word on symbols, links or the order
  in which anything is met (`bundle_keepsMeaning`): a reference stands for
  what its name resolves to, under a name of the bundle or outside of it.
-/
import FlatBundle.Proofs.Bundling.Contents
import FlatBundle.Proofs.Conversion.Finals

namespace FlatBundle

variable {host : Host} {root : String} {exported : List SymbolId} {run : Run}
variable {named : SymbolTable} {importAs : String} {bundled : Bundle}

/-! ## §1. What names of the bundle stand for -/

/-- The name in the bundle of what a name of the library resolves to: a root export
that resolves there, or a private name if no root export does. -/
def Bundle.Names (bundle : Bundle) (sources : Sources) (root : String) (final : Target)
    (name : String) : Prop :=
  (sources.Exports (rootModule root) name ∧ sources.Resolves (rootModule root, name) final)
    ∨ (⟨name, final.2, final.1⟩ ∈ bundle.privates
      ∧ ∀ other, sources.Exports (rootModule root) other →
        ¬ sources.Resolves (rootModule root, other) final)

/-- A root export resolves to the name. -/
def Sources.IsPublic (sources : Sources) (root : String) (final : Target) : Prop :=
  ∃ name, sources.Exports (rootModule root) name
    ∧ sources.Resolves (rootModule root, name) final

/-- What stands for a name of the library in the bundle means what the name
means. -/
structure Bundle.Preserves (bundle : Bundle) (sources : Sources) (root : String)
    (replace : Target → Value) (target : Target) : Prop where
  resolves : ∃ final, sources.Resolves target final
  /-- A name from outside of the library is imported from there. -/
  outside : ∀ final, sources.Resolves target final → ModulePath.isRelative final.1 = false →
    replace target = .imported final.1 final.2
  /-- A name of the library is a name of the bundle, whose entry is the rewritten value
  that the name resolves to. -/
  inside : ∀ final, sources.Resolves target final → ModulePath.isRelative final.1 = true →
    ∃ name, replace target = .global name ∧ bundle.Names sources root final name
      ∧ bundle.document.get? name
        = (sources.value? final).map (Value.rewrite sources replace final.1)

/-! ## §2. Symbols of the bundle -/

/-- The root exports are the names that the documents say. -/
theorem Run.Settled.exports_root_iff (h : run.Settled host root exported)
    (acyclic : (host.sources root).Acyclic) (name : String) :
    (host.sources root).Exports (rootModule root) name
      ↔ ∃ id ∈ exported, run.symbols.key? id = some (rootModule root, name) :=
  (h.traced acyclic).lists _ _ h.known name

/-- A symbol is private exactly if no root export resolves to its declaration. -/
theorem Run.Settled.isPrivate_iff_not_isPublic (settled : run.Settled host root exported)
    (acyclic : (host.sources root).Acyclic) {id : SymbolId} {target final : Target}
    (key : run.symbols.key? id = some target) (origin : run.symbols.origin? id = some final) :
    (run.symbols.canonicalize exported id).isPrivate = true
      ↔ ¬ (host.sources root).IsPublic root final := by
  rw [SymbolTable.isPrivate_iff settled.sound.linked (SymbolTable.lt_size_of_key? key)]
  constructor
  · rintro apart ⟨name, exports, resolves⟩
    obtain ⟨first, hfirst, hkey⟩ := (settled.exports_root_iff acyclic name).1 exports
    obtain ⟨last, hlast, leads⟩ := settled.leadsTo_of_path acyclic resolves.path hkey
    obtain rfl := SymbolTable.key?_inj hlast origin
    exact apart first hfirst leads
  · intro apart first hfirst leads
    obtain ⟨name, hkey⟩ := settled.owned first hfirst
    refine apart ⟨name, (settled.exports_root_iff acyclic name).2 ⟨first, hfirst, hkey⟩, ?_, ?_⟩
    · exact settled.path_of_leadsTo acyclic leads hkey origin
    · exact (settled.resolves acyclic key origin).ends

/-- A private symbol of the bundle is its own declaration. -/
theorem Run.Settled.key?_of_isPrivate (settled : run.Settled host root exported)
    (acyclic : (host.sources root).Acyclic) {id : SymbolId}
    (identity : run.symbols.IsIdentity exported id)
    (isPrivate : (run.symbols.canonicalize exported id).isPrivate = true) :
    run.symbols.key? id = run.symbols.origin? id := by
  have stop := settled.exports_of_isEnd acyclic (identity.isEnd_of_isPrivate isPrivate)
  rw [SymbolTable.origin?, SymbolTable.declaration_of_exports_eq_none stop]

/-- A root export has its own name in the bundle. -/
theorem Run.Converted.bundleName_of_mem (converted : run.Converted host root exported)
    (naming : run.symbols.NamedFrom exported named) {id : SymbolId} (hid : id ∈ exported)
    {module name : String} (key : run.symbols.key? id = some (module, name)) :
    named.bundleName id = name := by
  have marked := converted.roots id hid
  have none : named.privateName? id = none := by
    rw [← Option.isNone_iff_eq_none, ← Option.not_isSome, naming.isSome_privateName?_eq marked,
      SymbolTable.canonicalize_root hid (SymbolTable.lt_size_of_key? key)]
    rfl
  exact SymbolTable.bundleName_of_key? none ((naming.same.key? id).trans key)

/-- The symbols of the bundle have the names of what they resolve to. -/
theorem Run.Converted.names (converted : run.Converted host root exported)
    (naming : run.symbols.NamedFrom exported named)
    (holds : bundled.Holds (host.sources root) exported importAs named)
    (acyclic : (host.sources root).Acyclic) {id : SymbolId}
    (hid : run.symbols.isReferenced id = true) {final : Target}
    (origin : run.symbols.origin? id = some final) :
    bundled.Names (host.sources root) root final (named.bundleName id) := by
  have settled := converted.settled
  have identity := (settled.referenced id hid).1
  cases isPrivate : (run.symbols.canonicalize exported id).isPrivate with
  | false =>
      left
      have hroot := identity.mem_of_isPublic isPrivate
      obtain ⟨name, key⟩ := settled.owned id hroot
      rw [converted.bundleName_of_mem naming hroot key]
      refine ⟨(settled.exports_root_iff acyclic name).2 ⟨id, hroot, key⟩, ?_⟩
      exact settled.resolves acyclic key origin
  | true =>
      right
      have key := (settled.key?_of_isPrivate acyclic identity isPrivate).trans origin
      constructor
      · have row : named.row id = ⟨named.bundleName id, final.2, final.1⟩ := by
          obtain ⟨symbol, hs, same⟩ := Option.map_eq_some_iff.1 ((naming.same.key? id).trans key)
          rw [SymbolTable.row, hs, ← same]
          rfl
        rw [holds.privates, ← row]
        apply List.mem_map_of_mem
        rw [List.mem_filter, SymbolTable.mem_referenced, naming.same.isReferenced,
          SymbolTable.isPrivate, naming.canonicalize settled identity.bound]
        exact ⟨hid, isPrivate⟩
      · intro other hother resolves
        exact (settled.isPrivate_iff_not_isPublic acyclic key origin).1 isPrivate
          ⟨other, hother, resolves⟩

/-- The entry of a symbol of the bundle is the rewritten value of its declaration. -/
theorem Bundle.Holds.get?_of_origin?
    (holds : bundled.Holds (host.sources root) exported importAs named)
    (converted : run.Converted host root exported)
    (naming : run.symbols.NamedFrom exported named) {id : SymbolId}
    (hid : run.symbols.isReferenced id = true) {final : Target}
    (origin : run.symbols.origin? id = some final) :
    bundled.document.get? (named.bundleName id)
      = ((host.sources root).value? final).map
          (Value.rewrite (host.sources root) (named.pointer exported) final.1) := by
  have mem : id ∈ named.referenced := by
    rw [SymbolTable.mem_referenced, naming.same.isReferenced]
    exact hid
  rw [holds.get?_bundleName converted naming mem, SymbolTable.final?,
    naming.declared? converted.settled _ hid, SymbolTable.declared?, origin]
  show Option.map _ (((host.sources root).value? final).map fun value => (final.1, value)) = _
  rw [Option.map_map]
  rfl

/-! ## §3. References -/

/-- **A reference that has been dealt with means what its name means.** -/
theorem Run.Converted.preserves (converted : run.Converted host root exported)
    (naming : run.symbols.NamedFrom exported named)
    (holds : bundled.Holds (host.sources root) exported importAs named)
    (acyclic : (host.sources root).Acyclic) {target : Target}
    (reached : run.symbols.Reached exported target) :
    bundled.Preserves (host.sources root) root (named.pointer exported) target := by
  have settled := converted.settled
  obtain ⟨id, found⟩ := Option.isSome_iff_exists.1 reached.found
  have key := (run.symbols.lookup_eq_some_iff_key? _ _ id).1 found
  have bound := SymbolTable.lt_size_of_key? key
  obtain ⟨origin, horigin⟩ := SymbolTable.exists_origin?_of_lt settled.sound.linked bound
  have resolves := settled.resolves acyclic key horigin
  have shown : named.pointer exported target
      = if ModulePath.isRelative origin.1 then
          .global (named.bundleName (run.symbols.canonicalize exported id).symbol)
        else .imported origin.1 origin.2 := by
    rw [SymbolTable.pointer, naming.replacement settled, SymbolTable.replacement_eq _ key horigin]
  refine ⟨⟨origin, resolves⟩, ?_, ?_⟩
  · intro final hfinal outside
    obtain rfl := hfinal.unique resolves
    rw [shown, outside]
    rfl
  · intro final hfinal inside
    obtain rfl := hfinal.unique resolves
    rw [shown, if_pos inside]
    -- the identity is in the bundle, and it has the declaration of the name
    have needed : run.symbols.needed? exported target
        = some (run.symbols.canonicalize exported id).symbol := by
      rw [SymbolTable.needed?_eq key horigin, if_pos inside]
    have marked := reached.referenced _ needed
    have same : run.symbols.origin? (run.symbols.canonicalize exported id).symbol = some final := by
      rw [SymbolTable.origin?, settled.declaration_symbol acyclic id]
      exact horigin
    exact ⟨_, rfl, converted.names naming holds acyclic marked same,
      holds.get?_of_origin? converted naming marked same⟩

/-! ## §4. The small library -/

section

open ModulePath

/-- Wherever `./shapes` is named, it is not the root. -/
theorem resolve_shapes_ne_root (module : String) :
    resolve (resolve "./shapes" module) "./index" ≠ "./index" := by
  intro same
  have last : (segments (resolve "./shapes" module)).reverse.head? = some "shapes".toList := by
    rw [reverse_segments_resolve (by decide)]
    rfl
  by_cases inside : isRelative (resolve "./shapes" module) = true
  · have split := segments_resolve (isNormal_resolve "./shapes" module) inside "./index"
    have top : segments (dirname "./index") = [] := by decide
    have here : segments "./index" = ["index".toList] := by decide
    rw [same, top, here, List.nil_append] at split
    rw [← split] at last
    exact absurd last (by decide)
  · rw [resolve, if_neg inside] at same
    rw [same] at last
    exact absurd last (by decide)

/-- Only the root of the small library names a module, and that is `./shapes`. -/
theorem eq_of_edge_shapeLibrary {module source : String}
    (edge : (shapeLibrary.sources "./index").Edge module source) :
    resolve module "./index" = "./index" ∧ source = resolve "./shapes" module := by
  obtain ⟨document, found, names⟩ := edge
  rw [Host.sources, if_pos (Host.isRelative_of_sources found)] at found
  have mem : (resolve module "./index", document)
      ∈ [("./index", indexDocument), ("./shapes", shapesDocument)] :=
    Pairs.mem_of_find?_eq_some found
  rcases List.mem_cons.1 mem with same | mem
  · obtain ⟨here, rfl⟩ := Prod.mk.inj same
    refine ⟨here, ?_⟩
    rcases names with ⟨entry, hentry, specifier, name, arguments, refers, -⟩ | ⟨declaration, hd, h⟩
    · rw [List.mem_singleton.1 hentry] at refers
      cases refers
    · rw [List.mem_singleton.1 hd] at h
      exact h
  · obtain ⟨-, rfl⟩ := Prod.mk.inj (List.mem_singleton.1 mem)
    exfalso
    rcases names with ⟨entry, hentry, specifier, name, arguments, refers, -⟩ | ⟨declaration, hd, -⟩
    · rcases List.mem_cons.1 hentry with rfl | hentry
      · cases refers
      · rw [List.mem_singleton.1 hentry] at refers
        cases refers
    · cases hd

theorem acyclic_shapeLibrary : (shapeLibrary.sources "./index").Acyclic := by
  apply Sources.Acyclic.of_rank fun module =>
    if resolve module "./index" = "./index" then 1 else 0
  intro module source edge
  obtain ⟨here, rfl⟩ := eq_of_edge_shapeLibrary edge
  rw [if_pos here, if_neg (resolve_shapes_ne_root module)]
  decide

end

/-! ## §5. The theorem -/

/-- The bundle consists of rewritten values of the library, in which each reference that
is met means what its name means; and it has the values that the root's exports resolve
to, under their names. -/
structure Bundle.KeepsMeaning (bundle : Bundle) (sources : Sources) (root : String)
    (replace : Target → Value) : Prop where
  entries : ∀ name value, bundle.document.get? name = some value → ∃ final declared,
    bundle.Names sources root final name
    ∧ sources.value? final = some declared
    ∧ value = declared.rewrite sources replace final.1
    ∧ ∀ target ∈ declared.targets sources final.1, bundle.Preserves sources root replace target
  roots : ∀ name final, sources.Exports (rootModule root) name →
    sources.Resolves (rootModule root, name) final →
    bundle.document.get? name
      = (sources.value? final).map (Value.rewrite sources replace final.1)

/-- **References keep their meaning** in the bundle of any library in which no module
re-exports from itself. -/
theorem bundle_keepsMeaning {host : Host} (free : host.HandleFree) (root importAs : String)
    (acyclic : (host.sources root).Acyclic) :
    ∃ bundled replace, bundle root importAs host = .ok bundled
      ∧ bundled.KeepsMeaning (host.sources root) root replace := by
  obtain ⟨exported, run, named, bundled, bundles, converted, naming, holds⟩ :=
    free.bundlesTo root importAs
  have settled := converted.settled
  refine ⟨bundled, named.pointer exported, bundles.bundle, ?_, ?_⟩
  · intro name value found
    have mem := Pairs.mem_of_find?_eq_some found
    rw [holds.entries] at mem
    obtain ⟨id, hid, written⟩ := List.mem_filterMap.1 mem
    rw [SymbolTable.mem_referenced, naming.same.isReferenced] at hid
    obtain ⟨_, hvalue, same⟩ := Option.map_eq_some_iff.1 written
    obtain ⟨rfl, rfl⟩ := Prod.mk.inj same
    -- the entry is that of a symbol, whose declaration is what the entry stands for
    obtain ⟨final, origin⟩ := SymbolTable.exists_origin?_of_lt settled.sound.linked
      (settled.referenced id hid).1.bound
    rw [holds.get?_of_origin? converted naming hid origin] at found
    obtain ⟨declared, hdeclared, rfl⟩ := Option.map_eq_some_iff.1 found
    refine ⟨final, declared, converted.names naming holds acyclic hid origin, hdeclared, rfl, ?_⟩
    intro target met
    have here : run.symbols.declared? (host.sources root) id = some (final.1, declared) := by
      rw [SymbolTable.declared?, origin, Option.bind_some, hdeclared]
      rfl
    have reached := (converted.complete id hid).reached final.1 declared here target met
    exact converted.preserves naming holds acyclic reached
  · intro name final hname resolves
    obtain ⟨id, hid, key⟩ := (settled.exports_root_iff acyclic name).1 hname
    obtain ⟨origin, horigin⟩ := SymbolTable.exists_origin?_of_lt settled.sound.linked
      (SymbolTable.lt_size_of_key? key)
    -- what the name resolves to is the declaration of its symbol
    obtain rfl := resolves.unique (settled.resolves acyclic key horigin)
    rw [← converted.bundleName_of_mem naming hid key]
    exact holds.get?_of_origin? converted naming (converted.roots id hid) horigin

theorem bundle_keepsMeaning_shapeLibrary :
    ∃ bundled replace, bundle "./index" "shapes" shapeLibrary = .ok bundled
      ∧ bundled.KeepsMeaning (shapeLibrary.sources "./index") "./index" replace :=
  bundle_keepsMeaning handleFree_shapeLibrary "./index" "shapes" acyclic_shapeLibrary

end FlatBundle
