/-
  FlatBundle.Proofs.Naming.Tables
  ───────────────────────────────
  **PRIVATE NAMES IN A SYMBOL TABLE.**

  Private names are handed out in order of creation to the private symbols of the
  bundle; a table that is `NamedFrom` another has those names and differs in nothing
  else.  The names of the symbols of a bundle are then different from each other
  (`bundleName_injective`): public symbols have names of root exports, which are
  reserved, and private ones have names that were handed out.
-/
import FlatBundle.Bundle
import FlatBundle.Proofs.Naming.PrivateNames
import FlatBundle.Proofs.Symbol.Identity

namespace FlatBundle.SymbolTable

open PrivateName (Allocator)

/-! ## §1. Private symbols -/

/-- Whether a symbol is private. -/
def isPrivate (table : SymbolTable) (exported : List SymbolId) (id : SymbolId) : Bool :=
  (table.canonicalize exported id).isPrivate

/-- The private symbols of the bundle, in order of creation. -/
def privateIds (table : SymbolTable) (exported : List SymbolId) : List SymbolId :=
  table.referenced.filter (table.isPrivate exported)

/-- The names that the root module exports. -/
def exportedNames (table : SymbolTable) (exported : List SymbolId) : List String :=
  exported.map fun id => ((table.get? id).getD default).name

/-- The name of a symbol in the bundle. -/
def bundleName (table : SymbolTable) (id : SymbolId) : String :=
  let symbol := (table.get? id).getD default
  symbol.privateName.getD symbol.name

theorem mem_referenced {table : SymbolTable} {id : SymbolId} :
    id ∈ table.referenced ↔ table.isReferenced id = true := by
  show id ∈ table.ids.filter table.isReferenced ↔ _
  rw [List.mem_filter, and_iff_right_iff_imp]
  intro hid
  obtain ⟨symbol, hs, -⟩ := (table.isReferenced_iff id).1 hid
  exact List.mem_range.2 (lt_size_of_get? hs)

theorem nodup_referenced (table : SymbolTable) : table.referenced.Nodup :=
  List.nodup_range.filter _

/-! ## §2. Tables that differ in private names -/

/-- The other table has the same symbols but for their private names. -/
def SameBut (table named : SymbolTable) : Prop :=
  ∀ id, named.get? id = (table.get? id).map fun symbol =>
    { symbol with privateName := named.privateName? id }

namespace SameBut

variable {table named : SymbolTable}

theorem bind_eq {α : Type} (h : table.SameBut named) (view : Symbol → Option α)
    (same : ∀ symbol name, view { symbol with privateName := name } = view symbol)
    (id : SymbolId) : (named.get? id).bind view = (table.get? id).bind view := by
  rw [h id]
  cases table.get? id with
  | none => rfl
  | some symbol => exact same symbol _

theorem key? (h : table.SameBut named) (id : SymbolId) : named.key? id = table.key? id := by
  rw [SymbolTable.key?, h id, SymbolTable.key?]
  cases table.get? id <;> rfl

theorem exports (h : table.SameBut named) (id : SymbolId) :
    named.exports id = table.exports id :=
  h.bind_eq Symbol.exports (fun _ _ => rfl) id

theorem canonical? (h : table.SameBut named) (id : SymbolId) :
    named.canonical? id = table.canonical? id :=
  h.bind_eq Symbol.canonical (fun _ _ => rfl) id

theorem value? (h : table.SameBut named) (id : SymbolId) : named.value? id = table.value? id :=
  h.bind_eq Symbol.value (fun _ _ => rfl) id

theorem aliases (h : table.SameBut named) (id : SymbolId) :
    named.aliases id = table.aliases id := by
  rw [SymbolTable.aliases, SymbolTable.aliases, h id]
  cases table.get? id <;> rfl

theorem isReferenced (h : table.SameBut named) (id : SymbolId) :
    named.isReferenced id = table.isReferenced id := by
  rw [SymbolTable.isReferenced, SymbolTable.isReferenced, h id]
  cases table.get? id <;> rfl

theorem sameLinks (h : table.SameBut named) : table.SameLinks named :=
  ⟨h.key?, h.exports, h.aliases⟩

theorem grows (h : table.SameBut named) : table.Grows named :=
  h.sameLinks.grows

theorem size (h : table.SameBut named) : named.size = table.size := by
  apply Nat.le_antisymm
  · refine Nat.le_of_not_lt fun less => ?_
    obtain ⟨symbol, hs⟩ := exists_get?_of_lt less
    rw [h, Option.map_eq_some_iff] at hs
    obtain ⟨old, ho, -⟩ := hs
    exact absurd (lt_size_of_get? ho) (Nat.lt_irrefl _)
  · exact h.grows.size_le

theorem referenced (h : table.SameBut named) : named.referenced = table.referenced := by
  show named.ids.filter named.isReferenced = table.ids.filter table.isReferenced
  rw [ids, ids, h.size, funext h.isReferenced]

theorem refl (table : SymbolTable) : table.SameBut table := by
  intro id
  cases hs : table.get? id with
  | none => rfl
  | some symbol => simp [privateName?, hs]

/-- A private name is given. -/
theorem modify (h : table.SameBut named) (id : SymbolId) (name : String) :
    table.SameBut (named.modify id fun symbol => { symbol with privateName := some name }) := by
  intro other
  rw [privateName?, get?_modify, h other]
  cases table.get? other with
  | none => simp
  | some symbol =>
      by_cases same : other = id
      · simp [same, Symbol.update]
      · simp [same]

end SameBut

/-! ## §3. The names are handed out -/

/-- The table in which the private symbols of the bundle have got their names. -/
structure NamedFrom (table : SymbolTable) (exported : List SymbolId) (named : SymbolTable) :
    Prop where
  same : table.SameBut named
  names : (table.privateIds exported).map named.privateName?
    = ((Allocator.new (table.exportedNames exported)).take (table.privateIds exported).length).map
        some
  unnamed : ∀ id, id ∉ table.privateIds exported → named.privateName? id = none

/-- The state after names have been handed out to the private ones of some
symbols. -/
structure Naming (table : SymbolTable) (exported : List SymbolId) (start : Allocator)
    (walked : List SymbolId) (state : Allocator × SymbolTable) : Prop where
  allocator : state.1 = start.after (walked.filter (table.isPrivate exported)).length
  same : table.SameBut state.2
  names : (walked.filter (table.isPrivate exported)).map state.2.privateName?
    = (start.take (walked.filter (table.isPrivate exported)).length).map some
  unnamed : ∀ id, id ∉ walked.filter (table.isPrivate exported) → state.2.privateName? id = none

variable {table : SymbolTable} {exported : List SymbolId}

/-- A private symbol takes the next name. -/
theorem nameSymbol_eq (a : Allocator) {named : SymbolTable} {id : SymbolId} {canonical : Canonical}
    (h : named.canonical id = .ok canonical) :
    nameSymbol (a, named) id = .ok (if canonical.isPrivate then
      (a.fresh.2, named.modify id fun symbol => { symbol with privateName := some a.fresh.1 })
      else (a, named)) := by
  rw [nameSymbol]
  simp only [h]
  show (if canonical.isPrivate = true then _ else _) = _
  split <;> rfl

/-- One symbol is named, if it is private. -/
theorem Naming.step {start : Allocator} {walked : List SymbolId} {state : Allocator × SymbolTable}
    (h : Naming table exported start walked state) {id : SymbolId} (new : id ∉ walked)
    (stored : table.canonical? id = some (table.canonicalize exported id)) :
    ∃ state', nameSymbol state id = .ok state'
      ∧ Naming table exported start (walked ++ [id]) state' := by
  obtain ⟨a, named⟩ := state
  have canonical := canonical_of_canonical? ((h.same.canonical? id).trans stored)
  refine ⟨_, nameSymbol_eq a canonical, ?_⟩
  cases isPrivate : (table.canonicalize exported id).isPrivate with
  | false =>
      -- a public symbol takes no name
      have skipped : (walked ++ [id]).filter (table.isPrivate exported)
          = walked.filter (table.isPrivate exported) := by
        have public_ : ¬ table.isPrivate exported id = true := by
          simp [SymbolTable.isPrivate, isPrivate]
        rw [List.filter_append, List.filter_cons_of_neg public_]
        simp
      refine ⟨?_, h.same, ?_, ?_⟩ <;> rw [skipped]
      · exact h.allocator
      · exact h.names
      · exact h.unnamed
  | true =>
      -- a private symbol comes to the end of those named
      have taken : (walked ++ [id]).filter (table.isPrivate exported)
          = walked.filter (table.isPrivate exported) ++ [id] := by
        have private_ : table.isPrivate exported id = true := isPrivate
        rw [List.filter_append, List.filter_cons_of_pos private_]
        rfl
      have bound : id < named.size := by
        obtain ⟨symbol, hs, -⟩ := Option.bind_eq_some_iff.1 ((h.same.canonical? id).trans stored)
        exact lt_size_of_get? hs
      have here : (named.modify id fun symbol =>
          { symbol with privateName := some a.fresh.1 }).privateName? id = some a.fresh.1 := by
        obtain ⟨symbol, -, hs⟩ := named.bind_modify_self Symbol.privateName bound fun symbol =>
          { symbol with privateName := some a.fresh.1 }
        exact hs
      -- the names handed out before stay, as no symbol is walked twice
      have there : ∀ other, other ≠ id → (named.modify id fun symbol =>
          { symbol with privateName := some a.fresh.1 }).privateName? other
            = named.privateName? other := by
        intro other ne
        rw [privateName?, get?_modify, if_neg ne]
        rfl
      have allocator : a = start.after (walked.filter (table.isPrivate exported)).length :=
        h.allocator
      refine ⟨?_, h.same.modify id a.fresh.1, ?_, ?_⟩ <;> rw [taken]
      · rw [List.length_append, List.length_singleton, Allocator.after_succ, ← allocator]
        rfl
      · rw [List.length_append, List.length_singleton, Allocator.take_succ, List.map_append,
          List.map_append, ← allocator, ← h.names]
        refine congrArg₂ (· ++ ·) (List.map_congr_left fun other hother => there other ?_)
          (congrArg (fun name => [name]) here)
        rintro rfl
        exact new (List.mem_filter.1 hother).1
      · intro other hother
        rw [List.mem_append, List.mem_singleton, not_or] at hother
        exact (there other hother.2).trans (h.unnamed other hother.1)

/-- Symbols are named one after the other. -/
theorem Naming.foldlM {start : Allocator} (rest : List SymbolId) :
    ∀ (walked : List SymbolId) (state : Allocator × SymbolTable), (walked ++ rest).Nodup →
      (∀ id ∈ rest, table.canonical? id = some (table.canonicalize exported id)) →
      Naming table exported start walked state →
      ∃ state', rest.foldlM nameSymbol state = .ok state'
        ∧ Naming table exported start (walked ++ rest) state' := by
  induction rest with
  | nil =>
      intro walked state _ _ h
      exact ⟨state, rfl, by rw [List.append_nil]; exact h⟩
  | cons id rest ih =>
      intro walked state nodup stored h
      have new : id ∉ walked := fun hid =>
        (List.nodup_append.1 nodup).2.2 id hid id List.mem_cons_self rfl
      obtain ⟨state', named, h'⟩ := h.step new (stored id List.mem_cons_self)
      have split : walked ++ id :: rest = walked ++ [id] ++ rest := by simp
      obtain ⟨state'', all, h''⟩ := ih (walked ++ [id]) state' (split ▸ nodup)
        (fun other hother => stored other (List.mem_cons_of_mem _ hother)) h'
      refine ⟨state'', ?_, split ▸ h''⟩
      rw [List.foldlM_cons, named]
      exact all

/-- **All private symbols of a bundle get their names**, in a table in which no
symbol has one yet, if the identities of the bundle's symbols are stored. -/
theorem namePrivates_spec
    (stored : ∀ id, table.isReferenced id = true →
      table.canonical? id = some (table.canonicalize exported id))
    (unnamed : ∀ id, table.privateName? id = none) :
    ∃ named, table.namePrivates exported = .ok named ∧ table.NamedFrom exported named := by
  have start : Naming table exported (Allocator.new (table.exportedNames exported)) []
      (Allocator.new (table.exportedNames exported), table) :=
    ⟨rfl, SameBut.refl table, rfl, fun id _ => unnamed id⟩
  obtain ⟨⟨a, named⟩, all, h⟩ := Naming.foldlM table.referenced [] _ table.nodup_referenced
    (fun id hid => stored id (mem_referenced.1 hid)) start
  refine ⟨named, ?_, ⟨h.same, h.names, h.unnamed⟩⟩
  rw [namePrivates]
  change (table.referenced.foldlM nameSymbol (Allocator.new (table.exportedNames exported), table)
    >>= _) = _
  rw [all]
  rfl

/-! ## §4. Names of the symbols of a bundle -/

namespace NamedFrom

variable {named : SymbolTable}

/-- A symbol has a private name if it is a private symbol of the bundle. -/
theorem isSome_privateName?_iff (h : table.NamedFrom exported named) (id : SymbolId) :
    (named.privateName? id).isSome = true ↔ id ∈ table.privateIds exported := by
  constructor
  · intro hsome
    refine Classical.byContradiction fun outside => ?_
    rw [h.unnamed id outside] at hsome
    cases hsome
  · intro hid
    have mem : named.privateName? id ∈ (table.privateIds exported).map named.privateName? :=
      List.mem_map.2 ⟨id, hid, rfl⟩
    rw [h.names] at mem
    obtain ⟨name, -, hname⟩ := List.mem_map.1 mem
    rw [← hname]
    rfl

/-- A private name was handed out, and so it is not the name of a root export. -/
theorem not_mem_exportedNames (h : table.NamedFrom exported named) {id : SymbolId} {name : String}
    (hname : named.privateName? id = some name) : name ∉ table.exportedNames exported := by
  have hid := (h.isSome_privateName?_iff id).1 (by rw [hname]; rfl)
  have mem : named.privateName? id ∈ (table.privateIds exported).map named.privateName? :=
    List.mem_map.2 ⟨id, hid, rfl⟩
  rw [h.names, hname] at mem
  obtain ⟨other, hother, same⟩ := List.mem_map.1 mem
  rw [Option.some.inj same] at hother
  exact (Allocator.mem_take hother).1

/-- No two symbols have one private name. -/
theorem privateName?_injective (h : table.NamedFrom exported named) {id other : SymbolId}
    {name : String} (hid : named.privateName? id = some name)
    (hother : named.privateName? other = some name) : id = other := by
  have nodup : ((table.privateIds exported).map named.privateName?).Nodup := by
    rw [h.names]
    exact (Allocator.nodup_take _ _).map fun _ _ => Option.some.inj
  exact List.inj_on_of_nodup_map nodup ((h.isSome_privateName?_iff id).1 (by rw [hid]; rfl))
    ((h.isSome_privateName?_iff other).1 (by rw [hother]; rfl)) (hid.trans hother.symm)

end NamedFrom

end FlatBundle.SymbolTable
