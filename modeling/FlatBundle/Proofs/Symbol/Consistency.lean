/-
  FlatBundle.Proofs.Symbol.Consistency
  ────────────────────────────────────
  **A TABLE THAT IS ASKED AND LINKED STAYS CONSISTENT.**

  Two calls change the names and the links of a symbol table (`SymbolTable.Call`): it is
  asked for the symbol of a name, or a symbol is recorded to export another.  Every table
  that such calls lead to is `Consistent`: numbers and names belong together one to one,
  and `exports` and `aliases` are inverse to each other.  What a table says of a symbol is
  said by all later tables (`Keeps`).

  The agreement of the two directions can also be read backwards: links that agree after a
  call agreed before it (`Linked.of_symbolOf`, `Linked.of_link`).  So if they agree at the
  end of a history, they did at every moment of it.
-/
import FlatBundle.Proofs.Symbol.Accrual

namespace FlatBundle.SymbolTable

/-! ## §1. Calls -/

/-- A call that changes names or links of a table. -/
inductive Call : SymbolTable → SymbolTable → Prop where
  /-- The table is asked for the symbol of a name. -/
  | symbolOf (table : SymbolTable) (module name : String) :
      Call table (table.symbolOf module name).2
  /-- One symbol of the table is recorded to export another one. -/
  | link {table : SymbolTable} {exported newName : Nat} (hexported : exported < table.size)
      (hnewName : newName < table.size) : Call table (table.link exported newName)

/-- The later table is reached by calls. -/
abbrev Calls : SymbolTable → SymbolTable → Prop := Relation.ReflTransGen Call

theorem Call.linked {table later : SymbolTable} (h : table.Call later) (linked : table.Linked) :
    later.Linked := by
  cases h with
  | symbolOf module name => exact linked.symbolOf module name
  | link hexported hnewName => exact linked.link hexported hnewName

theorem Calls.linked {table later : SymbolTable} (h : table.Calls later)
    (linked : table.Linked) : later.Linked := by
  induction h with
  | refl => exact linked
  | tail _ call ih => exact call.linked ih

theorem Call.accrues {table later : SymbolTable} (h : table.Call later) :
    table.Accrues later := by
  cases h with
  | symbolOf module name => exact Accrues.symbolOf table module name
  | link => exact Accrues.link table _ _

theorem Calls.accrues {table later : SymbolTable} (h : table.Calls later) :
    table.Accrues later := by
  induction h with
  | refl => exact Accrues.refl table
  | tail _ call ih => exact ih.trans call.accrues

/-! ## §2. Consistent tables -/

/-- Numbers and names belong together, and so do the two directions of the links. -/
structure Consistent (table : SymbolTable) : Prop where
  /-- Each number below the size is that of a name, and no other number is. -/
  numbered : ∀ id : Nat, id < table.size ↔ ∃ key, table.key? id = some key
  /-- No two numbers are those of one name. -/
  distinct : ∀ id other key, table.key? id = some key → table.key? other = some key → id = other
  /-- A look-up finds the number of the name. -/
  lookup : ∀ module name id,
    table.lookup module name = some id ↔ table.key? id = some (module, name)
  /-- A name that has a number keeps it when the table is asked for it. -/
  known : ∀ module name id, table.lookup module name = some id →
    table.symbolOf module name = (id, table)
  /-- A name without a number gets the next one. -/
  fresh : ∀ module name, table.lookup module name = none →
    (table.symbolOf module name).1 = table.size
      ∧ (table.symbolOf module name).2.size = table.size + 1
      ∧ (table.symbolOf module name).2.lookup module name = some table.size
  /-- No symbol is an alias of its own. -/
  not_self : ∀ id, table.exports id ≠ some id
  /-- A symbol exports another one if it stands among the aliases of that one. -/
  exports_iff : ∀ id newName, table.exports newName = some id ↔ newName ∈ table.aliases id
  /-- It stands there once, -/
  once : ∀ id newName, newName ∈ table.aliases id → (table.aliases id).count newName = 1
  /-- and among the aliases of no other symbol. -/
  apart : ∀ id other newName, newName ∈ table.aliases id → newName ∈ table.aliases other →
    id = other
  /-- Both ends of a link are symbols of the table. -/
  bounded : ∀ id newName, table.exports newName = some id → id < table.size ∧ newName < table.size

/-- **A table with links that agree is consistent.** -/
theorem Linked.consistent {table : SymbolTable} (linked : table.Linked) : table.Consistent where
  numbered := by
    intro id
    constructor
    · intro inside
      obtain ⟨module, name, key⟩ := exists_key?_of_lt inside
      exact ⟨(module, name), key⟩
    · intro found
      obtain ⟨key, hkey⟩ := found
      exact lt_size_of_key? hkey
  distinct := fun _ _ _ => key?_inj
  lookup := table.lookup_eq_some_iff_key?
  known := fun _ _ _ => symbolOf_of_lookup_eq_some
  fresh := by
    intro module name absent
    have key := table.key?_symbolOf module name
    rw [← lookup_eq_some_iff_key?] at key
    rw [symbolOf_of_lookup_eq_none absent] at key ⊢
    exact ⟨rfl, Array.size_push _, key⟩
  not_self := linked.exports_ne_self
  exports_iff := fun id newName => (linked.mem_aliases id newName).symm
  once := by
    intro id newName hmem
    rw [(linked.nodup_aliases id).count, if_pos hmem]
  apart := by
    intro id other newName hmem hmem'
    rw [linked.mem_aliases] at hmem hmem'
    exact Option.some.inj (hmem.symm.trans hmem')
  bounded := fun _ _ link =>
    ⟨linked.lt_size_of_exports link, SymbolTable.lt_size_of_exports link⟩

/-- What the earlier table says of its symbols, the later one says. -/
structure Keeps (before after : SymbolTable) : Prop where
  key? : ∀ id key, before.key? id = some key → after.key? id = some key
  lookup : ∀ module name id, before.lookup module name = some id →
    after.lookup module name = some id
  exports : ∀ id source, before.exports id = some source → after.exports id = some source

theorem Accrues.keeps {before after : SymbolTable} (h : before.Accrues after) :
    before.Keeps after where
  key? := fun _ _ => h.key?
  lookup := by
    intro module name id found
    rw [lookup_eq_some_iff_key?] at found ⊢
    exact h.key? found
  exports := fun _ _ => h.exports

/-- Tables with the same names and links say the same. -/
theorem SameLinks.keeps {table other : SymbolTable} (h : table.SameLinks other) :
    table.Keeps other where
  key? := fun id key hk => (h.key? id).trans hk
  lookup := by
    intro module name id found
    rw [lookup_eq_some_iff_key?] at found ⊢
    exact (h.key? id).trans found
  exports := fun id source link => (h.exports id).trans link

/-! ## §3. Backwards -/

theorem Linked.of_symbolOf {table : SymbolTable} {module name : String}
    (linked : (table.symbolOf module name).2.Linked) : table.Linked := by
  rcases table.symbolOf_cases module name with ⟨id, -, same⟩ | ⟨fresh, same⟩
  · rw [same] at linked
    exact linked
  · rw [same] at linked
    exact linked.of_same_links (fun id => (table.exports_push module name fresh id).symm)
      fun id => (table.aliases_push module name fresh id).symm

/-- A link that is made and agrees in its two directions has two ends in the table, or
none and changes nothing. -/
theorem Linked.ends_of_link {table : SymbolTable} {exported newName : Nat}
    (linked : (table.link exported newName).Linked) (ne : exported ≠ newName)
    (free : table.exports newName = none) :
    (exported < table.size ∧ newName < table.size)
      ∨ (¬ exported < table.size ∧ ¬ newName < table.size) := by
  have inside : ∀ id : Nat, id < (table.link exported newName).size → id < table.size := by
    intro id hid
    obtain ⟨module, name, key⟩ := exists_key?_of_lt hid
    exact lt_size_of_key? ((table.key?_link exported newName id).symm.trans key)
  by_cases hexported : exported < table.size <;> by_cases hnewName : newName < table.size
  · exact Or.inl ⟨hexported, hnewName⟩
  -- an alias that is no symbol exports nothing
  · have hmem : newName ∈ (table.link exported newName).aliases exported := by
      rw [aliases_link ne free hexported, if_pos rfl]
      exact List.mem_append_right _ List.mem_cons_self
    rw [linked.mem_aliases] at hmem
    exact absurd (inside newName (SymbolTable.lt_size_of_exports hmem)) hnewName
  -- what is no symbol has no aliases
  · have link : (table.link exported newName).exports newName = some exported := by
      rw [exports_link ne free hnewName, if_pos rfl]
    exact absurd (inside exported (linked.lt_size_of_exports link)) hexported
  · exact Or.inr ⟨hexported, hnewName⟩

/-- **Links that agree after one more link agreed before it.** -/
theorem Linked.of_link {table : SymbolTable} {exported newName : Nat}
    (linked : (table.link exported newName).Linked) : table.Linked := by
  rcases table.link_cases exported newName with ⟨-, same⟩ | ⟨ne, free⟩
  · rw [same] at linked
    exact linked
  rcases linked.ends_of_link ne free with ⟨hexported, hnewName⟩ | ⟨outside, outside'⟩
  · have exports := exports_link ne free hnewName
    have aliases := aliases_link ne free hexported
    have others : ∀ id newName', newName' ≠ newName →
        (newName' ∈ table.aliases id ↔ table.exports newName' = some id) := by
      intro id other hother
      have step := linked.mem_aliases id other
      rw [exports, aliases, if_neg hother] at step
      rw [← step]
      split <;> simp [hother]
    -- the name was an alias of nothing, as the new link is the only one that it has
    have absent : ∀ id, newName ∉ table.aliases id := by
      intro id hmem
      by_cases he : id = exported
      · have nodup := linked.nodup_aliases id
        rw [aliases, if_pos he] at nodup
        exact (List.nodup_append.1 nodup).2.2 newName hmem newName List.mem_cons_self rfl
      · have step := linked.mem_aliases id newName
        rw [exports, aliases, if_pos rfl, if_neg he] at step
        exact he (Option.some.inj (step.1 hmem)).symm
    constructor
    · intro id other
      by_cases hother : other = newName
      · simp [hother, free, absent id]
      · exact others id other hother
    · intro id
      have nodup := linked.nodup_aliases id
      rw [aliases] at nodup
      split at nodup
      · exact (List.nodup_append.1 nodup).1
      · exact nodup
    · intro id link
      have step := linked.exports_ne_self id
      rw [exports] at step
      split at step
      · next same =>
          rw [same, free] at link
          cases link
      · exact step link
  -- a link between numbers of no symbols changes nothing
  · have same : ∀ id, (table.link exported newName).get? id = table.get? id := by
      intro id
      rw [get?_link ne free]
      cases found : table.get? id with
      | none => rfl
      | some symbol =>
          have inside := lt_size_of_get? found
          have hn : id ≠ newName := fun same => outside' (same ▸ inside)
          have he : id ≠ exported := fun same => outside (same ▸ inside)
          simp [linkSymbol, hn, he]
    refine linked.of_same_links (fun id => ?_) fun id => ?_
    · unfold SymbolTable.exports
      rw [same]
    · unfold SymbolTable.aliases
      rw [same]

end FlatBundle.SymbolTable
