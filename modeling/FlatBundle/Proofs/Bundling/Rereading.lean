/-
  FlatBundle.Proofs.Bundling.Rereading
  ────────────────────────────────────
  **A BUNDLE CAN BE READ BACK.**

  The values of a library that is decoded from trees without repeated names are read back
  from their own trees, and rewriting keeps that (`Value.Everywhere.lasts`).  The bundle
  consists of rewritten values, in which references are replaced by references to names
  (`SymbolTable.isName_pointer`); so the tree of its document is decoded to the document, and
  a plain object of the library is one in the bundle and after reading that again
  (`bundle_rereads`).
-/
import FlatBundle.Proofs.Bundling.Contents
import FlatBundle.Proofs.Value.Lasting

namespace FlatBundle

variable {host : Host} {root : String} {exported : List SymbolId} {run : Run}
variable {named : SymbolTable}

/-! ## §1. Decoded libraries -/

/-- The documents of the library are decoded from trees in which no object repeats a
name. -/
def Host.Decoded (host : Host) : Prop :=
  ∀ entry ∈ host.toList, ∃ json : Json, json.noRepeats = true
    ∧ Document.ofJson? json = some entry.2

namespace Host.Decoded

variable (decoded : host.Decoded)

include decoded

theorem handleFree : host.HandleFree := by
  intro entry mem
  obtain ⟨json, -, read⟩ := decoded entry mem
  exact Reading.makes_document? _ (Reading.handleFree_ofJson json) entry.2 read

/-- The value of a declaration is read back from its tree. -/
theorem declared? {table : SymbolTable} {id : SymbolId} {declared : String × Value}
    (h : table.declared? (host.sources root) id = some declared) :
    declared.2.Everywhere Value.Stable := by
  obtain ⟨document, hdocument, entry, hentry, same⟩ := Host.exists_entry_of_declared? h
  obtain ⟨json, distinct, read⟩ := decoded document hdocument
  rw [← same]
  exact Document.everywhere_of_ofJson? distinct read entry hentry

end Host.Decoded

/-! ## §2. The bundle -/

/-- What stands for a name that has a symbol is a reference to a name. -/
theorem SymbolTable.isName_pointer (linked : named.Linked) {target : Target} {id : SymbolId}
    (found : named.lookup target.1 target.2 = some id) :
    (named.pointer exported target).IsName := by
  have key := (named.lookup_eq_some_iff_key? _ _ id).1 found
  obtain ⟨origin, horigin⟩ :=
    SymbolTable.exists_origin?_of_lt linked (SymbolTable.lt_size_of_key? key)
  rw [SymbolTable.pointer, SymbolTable.replacement_eq _ key horigin]
  split <;> rfl

/-- The value of a symbol in the bundle is read back, and so is what stands inside of it. -/
theorem Run.Converted.everywhere_final (converted : run.Converted host root exported)
    (decoded : host.Decoded) (naming : run.symbols.NamedFrom exported named) {id : SymbolId}
    (hid : id ∈ named.referenced) {value : Value}
    (final : named.final? (host.sources root) exported id = some value) :
    value.Everywhere Value.Stable := by
  rw [SymbolTable.mem_referenced, naming.same.isReferenced] at hid
  obtain ⟨⟨module, declared⟩, hdeclared, rfl⟩ := Option.map_eq_some_iff.1 final
  have linked : named.Linked := naming.same.sameLinks.linked converted.settled.sound.linked
  -- only names that are met count, and those have symbols
  let replace : Target → Value := fun target =>
    if (named.lookup target.1 target.2).isSome then named.pointer exported target else .global ""
  have names : ∀ target, (replace target).IsName := by
    intro target
    by_cases found : (named.lookup target.1 target.2).isSome = true
    · obtain ⟨id, found'⟩ := Option.isSome_iff_exists.1 found
      rw [show replace target = _ from if_pos found]
      exact SymbolTable.isName_pointer linked found'
    · rw [show replace target = _ from if_neg found]
      rfl
  have same : ∀ target ∈ declared.targets (host.sources root) module,
      named.pointer exported target = replace target := by
    intro target met
    obtain ⟨other, found, -⟩ := converted.exists_target naming hid hdeclared met
    exact (if_pos (by rw [found]; rfl)).symm
  have free := decoded.handleFree.declared? hdeclared
  show (declared.rewrite (host.sources root) (named.pointer exported) module).Everywhere _
  rw [Value.rewrite_congr free (named.handles_pointer exported) same]
  exact ((decoded.declared? hdeclared).lasts names).everywhere

/-- Plain objects stay plain objects: where conversion comes to one in the declared value of
a symbol, the entry of the symbol has an object with the same names, which is what the first
one is rewritten to, and it is read back from its own tree. -/
def Bundle.KeepsObjects (bundle : Bundle) (sources : Sources) (exported : List SymbolId)
    (table : SymbolTable) : Prop :=
  ∀ id ∈ table.referenced, ∀ module value,
    table.declared? sources id = some (module, value) →
    ∀ fields, value.Reaches sources module (.obj fields) →
      ∃ final fields', bundle.document.get? (table.bundleName id) = some final
        ∧ (Value.obj fields).rewrite sources (table.pointer exported) module = .obj fields'
        ∧ final.Contains (.obj fields')
        ∧ Pairs.keys fields' = Pairs.keys fields
        ∧ (Value.obj fields').Rereads

theorem Bundle.Holds.keepsObjects {importAs : String} {bundle : Bundle}
    (holds : bundle.Holds (host.sources root) exported importAs named)
    (converted : run.Converted host root exported) (decoded : host.Decoded)
    (naming : run.symbols.NamedFrom exported named) :
    bundle.KeepsObjects (host.sources root) exported named := by
  intro id hid module value declared fields reaches
  have final : named.final? (host.sources root) exported id
      = some (value.rewrite (host.sources root) (named.pointer exported) module) := by
    rw [SymbolTable.final?, declared]
    rfl
  have contains := reaches.rewrite (named.pointer exported)
  have everywhere := converted.everywhere_final decoded naming hid final
  exact ⟨_, _, (holds.get?_bundleName converted naming hid).trans final, rfl, contains,
    Rewrite.keys_entries fields, (everywhere.of_contains contains).rereads⟩

/-- **A bundle can be read back**: every library that is decoded from trees without repeated
names has a bundle, whose document has a tree that is decoded to the document again; and
what is a plain object in the library is neither made a node nor read back as one. -/
theorem bundle_rereads (decoded : host.Decoded) (root importAs : String) :
    ∃ exported table bundled, BundlesTo host root importAs exported table bundled
      ∧ (∃ json, bundled.document.encode? = some json
        ∧ Document.ofJson? json = some bundled.document)
      ∧ bundled.KeepsObjects (host.sources root) exported table := by
  obtain ⟨exported, run, named, bundled, bundles, converted, naming, holds⟩ :=
    decoded.handleFree.bundlesTo root importAs
  refine ⟨exported, named, bundled, bundles, Document.rereads fun entry mem => ?_,
    holds.keepsObjects converted decoded naming⟩
  rw [holds.entries] at mem
  obtain ⟨id, hid, written⟩ := List.mem_filterMap.1 mem
  obtain ⟨value, final, rfl⟩ := Option.map_eq_some_iff.1 written
  exact (converted.everywhere_final decoded naming hid final).rereads

/-- A library of one document, in which an object has the tag of a class and is none. -/
def oddLibrary : Host :=
  Entries.ofList [("./index", (Document.ofJson? oddTree).getD default)]

theorem decoded_oddLibrary : oddLibrary.Decoded := by
  intro entry mem
  have decodes : (Document.ofJson? oddTree).isSome = true := by decide
  obtain ⟨document, read⟩ := Option.isSome_iff_exists.1 decodes
  refine ⟨oddTree, by decide, ?_⟩
  rw [List.mem_singleton.1 (show entry ∈ [(_, (Document.ofJson? oddTree).getD default)] from mem),
    read]
  rfl

theorem bundle_rereads_oddLibrary :
    oddLibrary.Decoded ∧ ∃ exported table bundled,
      BundlesTo oddLibrary "./index" "odd" exported table bundled
        ∧ (∃ json, bundled.document.encode? = some json
          ∧ Document.ofJson? json = some bundled.document)
        ∧ bundled.KeepsObjects (oddLibrary.sources "./index") exported table :=
  ⟨decoded_oddLibrary, bundle_rereads decoded_oddLibrary "./index" "odd"⟩

end FlatBundle
