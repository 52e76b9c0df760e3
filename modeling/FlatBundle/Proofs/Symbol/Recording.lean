/-
  FlatBundle.Proofs.Symbol.Recording
  ──────────────────────────────────
  **WHAT IS LINKED, BY NAME.**

  A table gives numbers to names as they come, so tables in which the same links were
  recorded in another order differ in their numbers.  They agree on which name exports
  which (`HasEdge`), as long as no name is linked twice (`sameEdges_ofLinks`): an alias
  keeps the first symbol that it was linked to.
-/
import FlatBundle.Proofs.Symbol.Consistency

namespace FlatBundle.SymbolTable

variable {table : SymbolTable}

/-! ## §1. Names that are linked -/

/-- The symbol for the first name exports the one for the second. -/
def HasEdge (table : SymbolTable) (newName source : String × String) : Prop :=
  ∃ id other, table.key? id = some newName ∧ table.key? other = some source
    ∧ table.exports id = some other

/-- The tables say of the same names that one exports the other. -/
def SameEdges (table other : SymbolTable) : Prop :=
  ∀ newName source, table.HasEdge newName source ↔ other.HasEdge newName source

/-- The numbers stand for the same names in the two tables. -/
def SameNames (table other : SymbolTable) (ids others : List SymbolId) : Prop :=
  ∀ key, (∃ id ∈ ids, table.key? id = some key) ↔ ∃ id ∈ others, other.key? id = some key

/-! ## §2. Recording links by name -/

/-- A link between two names: the first exports the second. -/
abbrev NamedLink := (String × String) × (String × String)

/-- The table in which a link between two names has been recorded. -/
def record (table : SymbolTable) (edge : NamedLink) : SymbolTable :=
  let newName := table.symbolOf edge.1.1 edge.1.2
  let source := newName.2.symbolOf edge.2.1 edge.2.2
  source.2.link source.1 newName.1

/-- The table in which links have been recorded one after the other. -/
def ofLinks (links : List NamedLink) : SymbolTable := links.foldl record empty

/-- The two symbols that a link is recorded for. -/
theorem keys_record (table : SymbolTable) (edge : NamedLink) :
    ((table.symbolOf edge.1.1 edge.1.2).2.symbolOf edge.2.1 edge.2.2).2.key?
        (table.symbolOf edge.1.1 edge.1.2).1 = some edge.1
      ∧ ((table.symbolOf edge.1.1 edge.1.2).2.symbolOf edge.2.1 edge.2.2).2.key?
        ((table.symbolOf edge.1.1 edge.1.2).2.symbolOf edge.2.1 edge.2.2).1 = some edge.2 :=
  ⟨(Extends.symbolOf _ _ _).grows.key?_eq_some (table.key?_symbolOf _ _), key?_symbolOf _ _ _⟩

theorem calls_record (table : SymbolTable) (edge : NamedLink) :
    table.Calls (table.record edge) := by
  obtain ⟨here, there⟩ := table.keys_record edge
  have first := Call.symbolOf table edge.1.1 edge.1.2
  have second := Call.symbolOf (table.symbolOf edge.1.1 edge.1.2).2 edge.2.1 edge.2.2
  have third := Call.link (lt_size_of_key? there) (lt_size_of_key? here)
  exact ((Relation.ReflTransGen.single first).tail second).tail third

theorem calls_foldl_record (links : List NamedLink) (table : SymbolTable) :
    table.Calls (links.foldl record table) := by
  induction links generalizing table with
  | nil => exact Relation.ReflTransGen.refl
  | cons edge rest ih => exact (table.calls_record edge).trans (ih (table.record edge))

theorem calls_ofLinks (links : List NamedLink) : empty.Calls (ofLinks links) :=
  calls_foldl_record links empty

/-- A symbol more is no link more. -/
theorem hasEdge_symbolOf (linked : table.Linked) (module name : String) :
    ∀ newName source,
      (table.symbolOf module name).2.HasEdge newName source ↔ table.HasEdge newName source := by
  have grows := (Extends.symbolOf table module name).grows
  intro newName source
  constructor
  · rintro ⟨id, other, key, key', step⟩
    rw [exports_symbolOf] at step
    -- what is linked was there before
    rw [grows.key? id (lt_size_of_exports step)] at key
    rw [grows.key? other (linked.lt_size_of_exports step)] at key'
    exact ⟨id, other, key, key', step⟩
  · rintro ⟨id, other, key, key', step⟩
    exact ⟨id, other, grows.key?_eq_some key, grows.key?_eq_some key',
      (table.exports_symbolOf module name id).trans step⟩

/-- A link is made from a name that had none. -/
theorem hasEdge_link {exported newName : Nat} {edge : NamedLink}
    (hnewName : table.key? newName = some edge.1) (hexported : table.key? exported = some edge.2)
    (ne : edge.1 ≠ edge.2) (free : ∀ source, ¬ table.HasEdge edge.1 source)
    (linked : table.Linked) : ∀ first second,
    (table.link exported newName).HasEdge first second
      ↔ table.HasEdge first second ∨ (first, second) = edge := by
  have unlinked : table.exports newName = none := by
    cases step : table.exports newName with
    | none => rfl
    | some source =>
        obtain ⟨module, name, key⟩ := exists_key?_of_lt (linked.lt_size_of_exports step)
        exact absurd ⟨newName, source, hnewName, key, step⟩ (free (module, name))
  have apart : exported ≠ newName := by
    rintro rfl
    exact ne (Option.some.inj (hnewName.symm.trans hexported))
  have exports := exports_link apart unlinked (lt_size_of_key? hnewName)
  have keys := table.key?_link exported newName
  intro first second
  constructor
  · rintro ⟨id, other, key, key', step⟩
    rw [keys] at key key'
    rw [exports] at step
    split at step
    · next same =>
        rw [same, hnewName] at key
        rw [← Option.some.inj step, hexported] at key'
        exact Or.inr (Prod.ext (Option.some.inj key).symm (Option.some.inj key').symm)
    · exact Or.inl ⟨id, other, key, key', step⟩
  · rintro (⟨id, other, key, key', step⟩ | rfl)
    · refine ⟨id, other, (keys id).trans key, (keys other).trans key', ?_⟩
      have other' : id ≠ newName := by
        rintro rfl
        cases unlinked.symm.trans step
      rw [exports, if_neg other']
      exact step
    · refine ⟨newName, exported, (keys newName).trans hnewName, (keys exported).trans hexported, ?_⟩
      rw [exports, if_pos rfl]

theorem hasEdge_record (linked : table.Linked) {edge : NamedLink} (ne : edge.1 ≠ edge.2)
    (free : ∀ source, ¬ table.HasEdge edge.1 source) : ∀ first second,
    (table.record edge).HasEdge first second
      ↔ table.HasEdge first second ∨ (first, second) = edge := by
  obtain ⟨here, there⟩ := table.keys_record edge
  have linked₁ := linked.symbolOf edge.1.1 edge.1.2
  have linked₂ := linked₁.symbolOf edge.2.1 edge.2.2
  have same := fun first second => (hasEdge_symbolOf linked₁ edge.2.1 edge.2.2 first second).trans
    (hasEdge_symbolOf linked edge.1.1 edge.1.2 first second)
  intro first second
  have made := hasEdge_link here there ne (fun source has => free source ((same _ _).1 has)) linked₂
  exact (made first second).trans (or_congr_left (same first second))

/-- Links from different names are all recorded. -/
theorem hasEdge_foldl_record (links : List NamedLink) (linked : table.Linked)
    (nodup : (links.map Prod.fst).Nodup) (ne : ∀ edge ∈ links, edge.1 ≠ edge.2)
    (free : ∀ edge ∈ links, ∀ source, ¬ table.HasEdge edge.1 source) : ∀ first second,
    (links.foldl record table).HasEdge first second
      ↔ table.HasEdge first second ∨ (first, second) ∈ links := by
  induction links generalizing table with
  | nil => simp
  | cons edge rest ih =>
      have here := hasEdge_record linked (ne edge List.mem_cons_self)
        (free edge List.mem_cons_self)
      rw [List.map_cons, List.nodup_cons] at nodup
      have later : ∀ edge' ∈ rest, ∀ source, ¬ (table.record edge).HasEdge edge'.1 source := by
        intro edge' hedge source has
        rcases (here edge'.1 source).1 has with old | same
        · exact free edge' (List.mem_cons_of_mem _ hedge) source old
        · rw [← same] at nodup
          exact nodup.1 (List.mem_map.2 ⟨edge', hedge, rfl⟩)
      intro first second
      rw [List.foldl_cons, ih ((table.calls_record edge).linked linked) nodup.2
        (fun edge' hedge => ne edge' (List.mem_cons_of_mem _ hedge)) later, here, List.mem_cons,
        or_assoc]

/-- **The order in which links are recorded does not matter** for what is linked. -/
theorem sameEdges_ofLinks {links links' : List NamedLink} (perm : links.Perm links')
    (nodup : (links.map Prod.fst).Nodup) (ne : ∀ edge ∈ links, edge.1 ≠ edge.2) :
    (ofLinks links).SameEdges (ofLinks links') := by
  have nothing : ∀ edge source, ¬ empty.HasEdge edge source := by
    rintro edge source ⟨id, other, -, -, step⟩
    exact absurd (lt_size_of_exports step) (Nat.not_lt_zero id)
  intro newName source
  have here := hasEdge_foldl_record links linked_empty nodup ne (fun _ _ => nothing _)
    newName source
  have there := hasEdge_foldl_record links' linked_empty ((perm.map Prod.fst).nodup_iff.1 nodup)
    (fun edge hedge => ne edge (perm.mem_iff.2 hedge)) (fun _ _ => nothing _)
    newName source
  exact here.trans ((or_congr_right perm.mem_iff).trans there.symm)

end FlatBundle.SymbolTable
