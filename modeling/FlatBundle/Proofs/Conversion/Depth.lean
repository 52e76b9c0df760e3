/-
  FlatBundle.Proofs.Conversion.Depth
  ──────────────────────────────────
  **HOW DEEP CONVERSION NESTS.**

  Conversion goes on from a symbol only if the symbol stands for an entry of a
  document and its value has not been asked for.  The symbols of that kind whose
  values have been asked for are `occupied`, and a run has few of them:

    • a root export takes a place among the root exports,
    • any other identity is private, and no two private identities have one
      declaration, so it takes an entry of a document, where the root module may
      go by two names.
-/
import FlatBundle.Proofs.Conversion.Replacement
import Mathlib.Data.Finset.Sum
import Mathlib.Data.Finset.Prod
import Mathlib.Data.Fintype.Basic

namespace FlatBundle

variable {host : Host} {root : String} {exported : List SymbolId}

/-! ## §1. Places -/

/-- The symbols whose values have been asked for and that stand for an entry of a
document. -/
def SymbolTable.occupied (table : SymbolTable) (sources : Sources) : Finset SymbolId :=
  (Finset.range table.size).filter fun id =>
    table.isReferenced id = true ∧ (table.declared? sources id).isSome = true

/-- The entries of the documents of a host: the name of the document, and that of
the entry. -/
def Host.entryNames (host : Host) : List (String × String) :=
  host.toList.flatMap fun pair => pair.2.entries.keys.map fun name => (pair.1, name)

theorem Host.length_entryNames (host : Host) :
    host.entryNames.length
      = (host.toList.flatMap fun pair => pair.2.entries.toList).length := by
  rw [entryNames, List.length_flatMap, List.length_flatMap]
  congr 1
  apply List.map_congr_left
  intro pair _
  rw [List.length_map]
  exact List.length_map _

/-- The place that a symbol takes. -/
def SymbolTable.place (table : SymbolTable) (root : String) (exported : List SymbolId)
    (id : SymbolId) : SymbolId ⊕ (String × String) × Bool :=
  if id ∈ exported then .inl id
  else
    let origin := (table.origin? id).getD ("", "")
    .inr ((ModulePath.resolve origin.1 root, origin.2), decide (origin.1 = rootModule root))

/-- The places that there are. -/
def Host.places (host : Host) (exported : List SymbolId) :
    Finset (SymbolId ⊕ (String × String) × Bool) :=
  exported.toFinset.disjSum (host.entryNames.toFinset ×ˢ Finset.univ)

/-- The number of places at most, by which the depth of conversion is reckoned. -/
def Host.placeCount (host : Host) (exported : List SymbolId) : Nat :=
  exported.length + 2 * host.entryNames.length

theorem Host.card_places_le (host : Host) (exported : List SymbolId) :
    (host.places exported).card ≤ host.placeCount exported := by
  rw [places, Finset.card_disjSum, Finset.card_product, placeCount]
  have roots := List.toFinset_card_le exported
  have entries := List.toFinset_card_le host.entryNames
  have flags : (Finset.univ : Finset Bool).card = 2 := rfl
  rw [flags]
  omega

/-! ## §2. No two symbols take one place -/

theorem SymbolTable.mem_occupied {table : SymbolTable} {sources : Sources} {id : SymbolId} :
    id ∈ table.occupied sources
      ↔ table.isReferenced id = true ∧ (table.declared? sources id).isSome = true := by
  rw [occupied, Finset.mem_filter, Finset.mem_range, and_iff_right_iff_imp]
  intro hstep
  obtain ⟨hid, -⟩ := hstep
  obtain ⟨symbol, hs, -⟩ := (table.isReferenced_iff id).1 hid
  exact lt_size_of_get? hs

/-- An entry that a symbol stands for is an entry of the library. -/
theorem SymbolTable.origin?_of_declared? {table : SymbolTable} {sources : Sources} {id : SymbolId}
    (h : (table.declared? sources id).isSome = true) :
    ∃ module name document, table.origin? id = some (module, name)
      ∧ sources module = some document ∧ (document.get? name).isSome := by
  obtain ⟨declared, hd⟩ := Option.isSome_iff_exists.1 h
  obtain ⟨⟨module, name⟩, horigin, hvalue⟩ := Option.bind_eq_some_iff.1 hd
  obtain ⟨value, hv, -⟩ := Option.map_eq_some_iff.1 hvalue
  unfold Sources.value? at hv
  split at hv
  · cases hv
  · obtain ⟨document, hdocument, hget⟩ := Option.bind_eq_some_iff.1 hv
    exact ⟨module, name, document, horigin, hdocument, by rw [hget]; rfl⟩

theorem Run.Settled.place_mem {run : Run} {id : SymbolId}
    (hid : id ∈ run.symbols.occupied (host.sources root)) :
    run.symbols.place root exported id ∈ host.places exported := by
  obtain ⟨module, name, document, horigin, hdocument, hget⟩ :=
    SymbolTable.origin?_of_declared? (SymbolTable.mem_occupied.1 hid).2
  unfold SymbolTable.place
  split
  · next hroot => exact Finset.inl_mem_disjSum.2 (List.mem_toFinset.2 hroot)
  · rw [horigin]
    refine Finset.inr_mem_disjSum.2 (Finset.mem_product.2 ⟨List.mem_toFinset.2 ?_, ?_⟩)
    -- the entry is there, so its name is one of those counted for its document
    · have hrel := Host.isRelative_of_sources hdocument
      rw [Host.sources, if_pos hrel] at hdocument
      obtain ⟨value, hvalue⟩ := Option.isSome_iff_exists.1 hget
      refine List.mem_flatMap.2 ⟨_, Pairs.mem_of_find?_eq_some hdocument, ?_⟩
      exact List.mem_map.2 ⟨name, Pairs.mem_keys_of_find?_eq_some hvalue, rfl⟩
    · exact Finset.mem_univ _

/-- **No two symbols take one place.** -/
theorem Run.Settled.place_injective {run : Run} (h : run.Settled host root exported)
    {id other : SymbolId} (hid : id ∈ run.symbols.occupied (host.sources root))
    (hother : other ∈ run.symbols.occupied (host.sources root))
    (same : run.symbols.place root exported id = run.symbols.place root exported other) :
    id = other := by
  obtain ⟨hid, hdeclared⟩ := SymbolTable.mem_occupied.1 hid
  obtain ⟨hother, hdeclared'⟩ := SymbolTable.mem_occupied.1 hother
  obtain ⟨identity, _, ⟨_, hkey⟩, hmodule⟩ := h.referenced id hid
  obtain ⟨identity', _, ⟨_, hkey'⟩, hmodule'⟩ := h.referenced other hother
  unfold SymbolTable.place at same
  -- a root export takes the place of its number, any other symbol that of its entry
  by_cases hroot : id ∈ exported <;> by_cases hroot' : other ∈ exported
  · simpa [hroot, hroot'] using same
  · simp [hroot, hroot'] at same
  · simp [hroot, hroot'] at same
  · rw [if_neg hroot, if_neg hroot'] at same
    obtain ⟨module, name, document, horigin, hdocument, -⟩ :=
      SymbolTable.origin?_of_declared? hdeclared
    obtain ⟨module', name', document', horigin', hdocument', -⟩ :=
      SymbolTable.origin?_of_declared? hdeclared'
    obtain ⟨rfl, rfl⟩ := Prod.mk.inj (Option.some.inj (horigin.symm.trans hkey))
    obtain ⟨rfl, rfl⟩ := Prod.mk.inj (Option.some.inj (horigin'.symm.trans hkey'))
    simp only [horigin, horigin', Option.getD_some, Sum.inr.injEq, Prod.mk.injEq,
      decide_eq_decide] at same
    obtain ⟨⟨path, rfl⟩, roots⟩ := same
    -- documents are told apart by path, and the root by the flag beside it
    have modules : module = module' := by
      by_cases hm : module = rootModule root
      · rw [hm, roots.1 hm]
      · have hm' : module' ≠ rootModule root := fun e => hm (roots.2 e)
        exact ModulePath.resolve_injective (hmodule.resolve_right hm)
          (Host.isRelative_of_sources hdocument) (hmodule'.resolve_right hm')
          (Host.isRelative_of_sources hdocument') path
    subst modules
    refine SymbolTable.eq_of_declaration_eq h.sound.linked ?_ ?_
      (SymbolTable.key?_inj hkey hkey')
    · exact (identity.shape.resolve_left hroot).1
    · exact (identity'.shape.resolve_left hroot').1

/-- **There are not more symbols than places.** -/
theorem Run.Settled.card_occupied_le {run : Run} (h : run.Settled host root exported) :
    (run.symbols.occupied (host.sources root)).card ≤ host.placeCount exported := by
  refine Nat.le_trans ?_ (host.card_places_le exported)
  refine Finset.card_le_card_of_injOn (run.symbols.place root exported) ?_ ?_
  · intro id hid
    exact Run.Settled.place_mem hid
  · intro id hid other hother same
    exact h.place_injective hid hother same

/-! ## §3. Places are taken one by one -/

theorem Run.Settled.occupied_subset {run later : Run} (h : run.Settled host root exported)
    (precedes : run.Precedes later) :
    run.symbols.occupied (host.sources root) ⊆ later.symbols.occupied (host.sources root) := by
  intro id hid
  obtain ⟨hid, hdeclared⟩ := SymbolTable.mem_occupied.1 hid
  refine SymbolTable.mem_occupied.2 ⟨precedes.referenced id hid, ?_⟩
  rw [SymbolTable.declared?_grows precedes.grows h.sound.linked _ (h.referenced id hid).1.bound]
  exact hdeclared

/-- A symbol that is asked for and stands for an entry takes one more place. -/
theorem Run.Settled.card_occupied_lt {run later : Run} (h : run.Settled host root exported)
    (precedes : run.Precedes later) {id : SymbolId} (new : run.symbols.isReferenced id = false)
    (marked : later.symbols.isReferenced id = true)
    (hdeclared : (later.symbols.declared? (host.sources root) id).isSome = true) :
    (run.symbols.occupied (host.sources root)).card
      < (later.symbols.occupied (host.sources root)).card := by
  refine Finset.card_lt_card ⟨h.occupied_subset precedes, fun back => ?_⟩
  have old := back (SymbolTable.mem_occupied.2 ⟨marked, hdeclared⟩)
  rw [SymbolTable.mem_occupied, new] at old
  cases old.1

theorem Run.Settled.conversionDepth_eq {run : Run} (h : run.Settled host root exported) :
    conversionDepth run = host.placeCount exported + 2 := by
  rw [conversionDepth, h.rootExports, h.sound.host_eq, Host.placeCount, Host.length_entryNames]

end FlatBundle
