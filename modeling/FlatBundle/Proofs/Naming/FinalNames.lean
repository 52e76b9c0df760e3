/-
  FlatBundle.Proofs.Naming.FinalNames
  ───────────────────────────────────
  **THE NAMES OF A BUNDLE'S SYMBOLS, AND THE HANDLES THAT GET THEM.**

  After conversion the private symbols are named, and every symbol of the bundle has
  a name of its own (`bundleName_injective`).  Each handle that conversion has left
  is for such a symbol, so it gets its name, and putting names into a converted
  value gives what rewriting with final names gives (`finalize_converted`).
-/
import FlatBundle.Proofs.Conversion.Root
import FlatBundle.Proofs.Naming.Tables
import FlatBundle.Proofs.Value.FinalNames

namespace FlatBundle

variable {host : Host} {root : String} {exported : List SymbolId} {run : Run}
variable {named : SymbolTable}

namespace SymbolTable

/-! ## §1. What stands for references in the bundle -/

/-- What stands for the references to a name in the bundle. -/
def pointer (table : SymbolTable) (exported : List SymbolId) : Target → Value :=
  table.replacement (fun id => .global (table.bundleName id)) exported

/-- The value of a symbol in the bundle, if it has one. -/
def final? (table : SymbolTable) (sources : Sources) (exported : List SymbolId) (id : SymbolId) :
    Option Value :=
  (table.declared? sources id).map fun declared =>
    declared.2.rewrite sources (table.pointer exported) declared.1

theorem bundleName_of_privateName? {id : SymbolId} {name : String}
    (h : named.privateName? id = some name) : named.bundleName id = name := by
  obtain ⟨symbol, hs, hname⟩ := Option.bind_eq_some_iff.1 h
  rw [bundleName, hs]
  simp only [Option.getD_some, hname]

theorem bundleName_of_key? {id : SymbolId} {module name : String}
    (h : named.privateName? id = none) (hkey : named.key? id = some (module, name)) :
    named.bundleName id = name := by
  obtain ⟨symbol, hs, hsame⟩ := Option.map_eq_some_iff.1 hkey
  rw [privateName?, hs] at h
  rw [bundleName, hs]
  replace h : symbol.privateName = none := h
  simp only [Option.getD_some, h, Option.getD_none]
  exact (Prod.mk.inj hsame).2

theorem mem_exportedNames {table : SymbolTable} {id : SymbolId} {module name : String}
    (hid : id ∈ exported) (hkey : table.key? id = some (module, name)) :
    name ∈ table.exportedNames exported := by
  refine List.mem_map.2 ⟨id, hid, ?_⟩
  obtain ⟨symbol, hs, hsame⟩ := Option.map_eq_some_iff.1 hkey
  rw [hs]
  exact (Prod.mk.inj hsame).2

theorem handles_pointer (table : SymbolTable) (exported : List SymbolId) (target : Target) :
    (table.pointer exported target).handles = [] := by
  unfold pointer replacement
  split
  · rfl
  · split
    · rfl
    · split <;> rfl

end SymbolTable

/-! ## §2. The named table of a converted run -/

/-- A converted run has all that it takes to name its private symbols. -/
theorem Run.Converted.namePrivates (h : run.Converted host root exported) :
    ∃ named, run.symbols.namePrivates exported = .ok named
      ∧ run.symbols.NamedFrom exported named := by
  refine SymbolTable.namePrivates_spec ?_ h.settled.unnamed
  intro id hid
  exact h.settled.canonical?_eq (h.complete id hid).stored

namespace SymbolTable.NamedFrom

theorem canonicalize (h : run.symbols.NamedFrom exported named)
    (settled : run.Settled host root exported) {id : Nat} (bound : id < run.symbols.size) :
    named.canonicalize exported id = run.symbols.canonicalize exported id :=
  canonicalize_grows h.same.grows settled.sound.linked
    (h.same.sameLinks.linked settled.sound.linked) settled.lt_size bound

theorem lookup (h : run.symbols.NamedFrom exported named) (module name : String) :
    named.lookup module name = run.symbols.lookup module name := by
  apply Option.ext
  intro id
  rw [lookup_eq_some_iff_key?, lookup_eq_some_iff_key?, h.same.key?]

/-- Naming does not change what stands for a reference, but for the names. -/
theorem replacement (h : run.symbols.NamedFrom exported named)
    (settled : run.Settled host root exported) (point : SymbolId → Value) (target : Target) :
    named.replacement point exported target = run.symbols.replacement point exported target := by
  rw [SymbolTable.replacement, SymbolTable.replacement, h.lookup]
  cases found : run.symbols.lookup target.1 target.2 with
  | none => rfl
  | some id =>
      have bound : id < run.symbols.size :=
        lt_size_of_key? ((run.symbols.lookup_eq_some_iff_key? _ _ id).1 found)
      simp only [origin?_grows h.same.grows settled.sound.linked bound,
        h.canonicalize settled bound]

theorem declared? (h : run.symbols.NamedFrom exported named)
    (settled : run.Settled host root exported) (sources : Sources) {id : SymbolId}
    (hid : run.symbols.isReferenced id = true) :
    named.declared? sources id = run.symbols.declared? sources id :=
  declared?_grows h.same.grows settled.sound.linked sources (settled.referenced id hid).1.bound

/-- Naming does not change what references ask for. -/
theorem needed? (h : run.symbols.NamedFrom exported named)
    (settled : run.Settled host root exported) (target : Target) :
    named.needed? exported target = run.symbols.needed? exported target := by
  rw [SymbolTable.needed?, SymbolTable.needed?, h.lookup]
  cases found : run.symbols.lookup target.1 target.2 with
  | none => rfl
  | some id =>
      have bound : id < run.symbols.size :=
        lt_size_of_key? ((run.symbols.lookup_eq_some_iff_key? _ _ id).1 found)
      simp only [Option.bind_some, origin?_grows h.same.grows settled.sound.linked bound,
        h.canonicalize settled bound]

theorem needs_iff (h : run.symbols.NamedFrom exported named)
    (settled : run.Settled host root exported) (sources : Sources) {id other : SymbolId}
    (hid : run.symbols.isReferenced id = true) :
    named.Needs sources exported id other ↔ run.symbols.Needs sources exported id other := by
  unfold Needs
  simp only [h.declared? settled sources hid, h.needed? settled]

/-- A private symbol of the bundle has a private name, a public one has none. -/
theorem isSome_privateName?_eq (h : run.symbols.NamedFrom exported named) {id : SymbolId}
    (hid : run.symbols.isReferenced id = true) :
    (named.privateName? id).isSome = (run.symbols.canonicalize exported id).isPrivate := by
  rw [Bool.eq_iff_iff, h.isSome_privateName?_iff, privateIds, List.mem_filter, mem_referenced]
  exact and_iff_right hid

/-- The private symbols of the bundle are the same in both tables. -/
theorem filter_isPrivate (h : run.symbols.NamedFrom exported named)
    (settled : run.Settled host root exported) :
    named.referenced.filter (named.isPrivate exported) = run.symbols.privateIds exported := by
  rw [privateIds, h.same.referenced]
  apply List.filter_congr
  intro id hid
  have bound := (settled.referenced id (mem_referenced.1 hid)).1.bound
  rw [isPrivate, isPrivate, h.canonicalize settled bound]

/-- A symbol of the bundle without a private name is a root export under its own
name. -/
theorem key?_of_privateName?_eq_none (h : run.symbols.NamedFrom exported named)
    (settled : run.Settled host root exported) {id : SymbolId}
    (hid : run.symbols.isReferenced id = true) (none : named.privateName? id = none) :
    run.symbols.key? id = some (rootModule root, named.bundleName id) ∧ id ∈ exported := by
  have isPublic : (run.symbols.canonicalize exported id).isPrivate = false := by
    rw [← h.isSome_privateName?_eq hid, none]
    rfl
  have hroot := (settled.referenced id hid).1.mem_of_isPublic isPublic
  obtain ⟨name, hkey⟩ := settled.owned id hroot
  rw [bundleName_of_key? none ((h.same.key? id).trans hkey)]
  exact ⟨hkey, hroot⟩

/-- **No two symbols of a bundle have one name.** -/
theorem bundleName_injective (h : run.symbols.NamedFrom exported named)
    (settled : run.Settled host root exported) {id other : SymbolId}
    (hid : run.symbols.isReferenced id = true) (hother : run.symbols.isReferenced other = true)
    (same : named.bundleName id = named.bundleName other) : id = other := by
  have taken : ∀ id, run.symbols.isReferenced id = true → named.privateName? id = none →
      named.bundleName id ∈ run.symbols.exportedNames exported := by
    intro id hid none
    obtain ⟨hkey, hroot⟩ := h.key?_of_privateName?_eq_none settled hid none
    exact mem_exportedNames hroot hkey
  -- private names differ, and none of them is a root export's name
  cases hp : named.privateName? id with
  | some name =>
      rw [bundleName_of_privateName? hp] at same
      cases hp' : named.privateName? other with
      | some name' =>
          rw [bundleName_of_privateName? hp'] at same
          exact h.privateName?_injective hp (same ▸ hp')
      | none =>
          have public_ := taken other hother hp'
          rw [← same] at public_
          exact absurd public_ (h.not_mem_exportedNames hp)
  | none =>
      have public_ := taken id hid hp
      cases hp' : named.privateName? other with
      | some name' =>
          rw [same, bundleName_of_privateName? hp'] at public_
          exact absurd public_ (h.not_mem_exportedNames hp')
      | none =>
          obtain ⟨hkey, -⟩ := h.key?_of_privateName?_eq_none settled hid hp
          obtain ⟨hkey', -⟩ := h.key?_of_privateName?_eq_none settled hother hp'
          rw [← same] at hkey'
          exact key?_inj hkey hkey'

end SymbolTable.NamedFrom

/-! ## §3. Handles get their names -/

/-- Every symbol of the bundle has a final name. -/
theorem Run.Converted.finalName (h : run.Converted host root exported)
    (naming : run.symbols.NamedFrom exported named) {id : SymbolId}
    (hid : run.symbols.isReferenced id = true) :
    named.finalName id = .ok (named.bundleName id) := by
  have stored := h.settled.canonical?_eq (h.complete id hid).stored
  have canonical := SymbolTable.canonical_of_canonical? ((naming.same.canonical? id).trans stored)
  obtain ⟨symbol, hs⟩ : ∃ symbol, named.get? id = some symbol := by
    apply SymbolTable.exists_get?_of_lt
    rw [naming.same.size]
    exact (h.settled.referenced id hid).1.bound
  -- a symbol has a private name exactly if its identity is private
  have isPrivate : symbol.privateName.isSome
      = (run.symbols.canonicalize exported id).isPrivate := by
    rw [← naming.isSome_privateName?_eq hid, SymbolTable.privateName?, hs]
    rfl
  rw [SymbolTable.finalName, SymbolTable.bundleName, canonical, hs]
  show (if (run.symbols.canonicalize exported id).isPrivate = true then _ else _) = _
  rw [← isPrivate]
  simp only [Option.getD_some]
  cases symbol.privateName with
  | none => rfl
  | some name => rfl

/-- **A handle in a converted value gets the name of its symbol**: what stands for a
reference that has been dealt with becomes what stands for it in the bundle. -/
theorem Run.Converted.finalize_handle (h : run.Converted host root exported)
    (naming : run.symbols.NamedFrom exported named) {target : Target}
    (reached : run.symbols.Reached exported target) :
    (run.symbols.handle exported target).finalize named = .ok (named.pointer exported target) := by
  obtain ⟨id, found⟩ := Option.isSome_iff_exists.1 reached.found
  have key := (run.symbols.lookup_eq_some_iff_key? _ _ id).1 found
  obtain ⟨origin, horigin⟩ := SymbolTable.exists_origin?_of_lt h.settled.sound.linked
    (SymbolTable.lt_size_of_key? key)
  rw [SymbolTable.pointer, naming.replacement h.settled, SymbolTable.handle,
    SymbolTable.replacement_eq _ key horigin, SymbolTable.replacement_eq _ key horigin]
  have asked := reached.referenced
  rw [SymbolTable.needed?_eq key horigin] at asked
  by_cases inside : ModulePath.isRelative origin.1 = true
  · simp only [inside, if_true] at asked ⊢
    -- the symbol that is needed is in the bundle, so it has a final name
    have name := h.finalName naming (asked _ rfl)
    rw [Value.ofReference, Value.finalize, Node.finalize, Reference.finalize, name]
    rfl
  · simp only [inside]
    rfl

/-! ## §4. What the bundle holds -/

/-- There is no handle in any document of the library. -/
def Host.HandleFree (host : Host) : Prop := ∀ entry ∈ host.toList, entry.2.HandleFree

instance (host : Host) : Decidable host.HandleFree :=
  inferInstanceAs (Decidable (∀ entry ∈ host.toList, entry.2.HandleFree))

/-- The value of a declaration is an entry of a document of the library. -/
theorem Host.exists_entry_of_declared? {table : SymbolTable} {id : SymbolId}
    {declared : String × Value} (h : table.declared? (host.sources root) id = some declared) :
    ∃ document ∈ host.toList, ∃ entry ∈ document.2.entries.toList, entry.2 = declared.2 := by
  obtain ⟨⟨module, name⟩, -, hvalue⟩ := Option.bind_eq_some_iff.1 h
  obtain ⟨value, hv, rfl⟩ := Option.map_eq_some_iff.1 hvalue
  unfold Sources.value? at hv
  split at hv
  · cases hv
  · obtain ⟨document, hdocument, hget⟩ := Option.bind_eq_some_iff.1 hv
    unfold Host.sources at hdocument
    split at hdocument
    · have entry : (name, value) ∈ document.entries.toList := Pairs.mem_of_find?_eq_some hget
      exact ⟨_, Pairs.mem_of_find?_eq_some hdocument, (name, value), entry, rfl⟩
    · cases hdocument

/-- The value of a declaration in a library without handles has no handles. -/
theorem Host.HandleFree.declared? (free : host.HandleFree) {table : SymbolTable} {id : SymbolId}
    {declared : String × Value} (h : table.declared? (host.sources root) id = some declared) :
    declared.2.handles = [] := by
  obtain ⟨document, hdocument, entry, hentry, same⟩ := Host.exists_entry_of_declared? h
  rw [← same]
  exact free document hdocument entry hentry

/-- **The converted value of a symbol, with final names, is the rewritten value of
its declaration.** -/
theorem Run.Converted.finalize_value (h : run.Converted host root exported)
    (free : host.HandleFree) (naming : run.symbols.NamedFrom exported named) {id : SymbolId}
    (hid : run.symbols.isReferenced id = true) :
    named.value? id = none ∧ named.final? (host.sources root) exported id = none
      ∨ ∃ value final, named.value? id = some value ∧ value.finalize named = .ok final
        ∧ named.final? (host.sources root) exported id = some final
        ∧ final.handles = [] := by
  have complete := h.complete id hid
  rw [naming.same.value?, SymbolTable.final?, naming.declared? h.settled _ hid, complete.value]
  cases hd : run.symbols.declared? (host.sources root) id with
  | none => exact Or.inl ⟨rfl, rfl⟩
  | some declared =>
      have noHandles := free.declared? hd
      refine Or.inr ⟨_, _, rfl, ?_, rfl, ?_⟩
      · apply Value.finalize_rewrite declared.2 noHandles
        intro target htarget
        exact h.finalize_handle naming (complete.reached declared.1 declared.2 hd target htarget)
      · exact Value.handles_rewrite (named.handles_pointer exported) declared.2 noHandles

end FlatBundle
