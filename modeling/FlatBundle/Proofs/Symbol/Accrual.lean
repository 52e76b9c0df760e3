/-
  FlatBundle.Proofs.Symbol.Accrual
  ────────────────────────────────
  **WHAT NO OPERATION ON A TABLE TAKES BACK.**

  Whatever is done to a table, a symbol keeps its name, what it exports once it exports
  something, its aliases in order, and its mark.  `Accrues` says so without any assumption
  on the table, and so it also holds in the middle of resolving exports, where little
  else does.

  A table in the middle is held between the ones before and after it
  (`Accrues.grows_between`): if all that happens to the old symbols in the end is that
  they gain aliases, this is so at any time in between.  Then the aliases that they gain
  are new symbols, which reach no old one, so the searches for root exports find what they
  found (`Accrues.aliases_between`).
-/
import FlatBundle.Proofs.Symbol.Identity

namespace FlatBundle

/-! ## §1. Symbols and tables -/

/-- The later symbol has what the earlier one had. -/
structure Symbol.Accrues (before after : Symbol) : Prop where
  isFor : after.IsFor before.module before.name
  exports : ∀ source, before.exports = some source → after.exports = some source
  aliases : before.aliases <+: after.aliases
  referenced : before.referenced = true → after.referenced = true

theorem Symbol.Accrues.refl (symbol : Symbol) : symbol.Accrues symbol :=
  ⟨⟨rfl, rfl⟩, fun _ h => h, List.prefix_rfl, fun h => h⟩

theorem Symbol.Accrues.trans {first second third : Symbol} (h : first.Accrues second)
    (h' : second.Accrues third) : first.Accrues third where
  isFor := ⟨h'.isFor.1.trans h.isFor.1, h'.isFor.2.trans h.isFor.2⟩
  exports := fun source hs => h'.exports source (h.exports source hs)
  aliases := h.aliases.trans h'.aliases
  referenced := fun hm => h'.referenced (h.referenced hm)

namespace SymbolTable

/-- The later table has the symbols of the earlier one, with what they had. -/
def Accrues (before after : SymbolTable) : Prop :=
  ∀ id symbol, before.get? id = some symbol →
    ∃ later, after.get? id = some later ∧ symbol.Accrues later

theorem Accrues.refl (table : SymbolTable) : table.Accrues table :=
  fun _ symbol hs => ⟨symbol, hs, Symbol.Accrues.refl symbol⟩

theorem Accrues.trans {first second third : SymbolTable} (h : first.Accrues second)
    (h' : second.Accrues third) : first.Accrues third := by
  intro id symbol hs
  obtain ⟨middle, hm, accrues⟩ := h id symbol hs
  obtain ⟨later, hl, accrues'⟩ := h' id middle hm
  exact ⟨later, hl, accrues.trans accrues'⟩

theorem Accrues.symbolOf (table : SymbolTable) (module name : String) :
    table.Accrues (table.symbolOf module name).2 := by
  intro id symbol hs
  obtain ⟨more, hm⟩ := (Extends.symbolOf table module name).old id symbol hs
  exact ⟨_, hm, ⟨rfl, rfl⟩, fun _ h => h, ⟨more, rfl⟩, fun h => h⟩

/-- A change that takes nothing from the symbol. -/
theorem Accrues.modify (table : SymbolTable) (id : SymbolId) {change : Symbol → Symbol}
    (accrues : ∀ symbol : Symbol, symbol.Accrues (symbol.update change)) :
    table.Accrues (table.modify id change) := by
  intro other symbol hs
  rw [get?_modify, hs]
  split
  · exact ⟨_, rfl, accrues symbol⟩
  · exact ⟨symbol, rfl, Symbol.Accrues.refl symbol⟩

theorem Accrues.link (table : SymbolTable) (exported newName : SymbolId) :
    table.Accrues (table.link exported newName) := by
  rcases table.link_cases exported newName with ⟨-, same⟩ | ⟨ne, free⟩
  · rw [same]
    exact Accrues.refl table
  · intro id symbol hs
    rw [get?_link ne free, hs]
    refine ⟨_, rfl, ?_⟩
    unfold linkSymbol
    split
    -- the symbol that is linked had no link
    · next here =>
        rw [SymbolTable.exports, ← here, hs] at free
        refine ⟨⟨rfl, rfl⟩, fun source link => ?_, List.prefix_rfl, fun h => h⟩
        cases link.symm.trans free
    · split
      · exact ⟨⟨rfl, rfl⟩, fun _ h => h, List.prefix_append _ _, fun h => h⟩
      · exact Symbol.Accrues.refl symbol

/-! ## §2. What is read off -/

variable {before after : SymbolTable}

theorem Accrues.key? (h : before.Accrues after) {id : SymbolId} {key : String × String}
    (hk : before.key? id = some key) : after.key? id = some key := by
  obtain ⟨symbol, hs, rfl⟩ := Option.map_eq_some_iff.1 hk
  obtain ⟨later, hl, accrues⟩ := h id symbol hs
  rw [key?_of_get? hl, accrues.isFor.1, accrues.isFor.2]

theorem Accrues.exports (h : before.Accrues after) {id source : SymbolId}
    (link : before.exports id = some source) : after.exports id = some source := by
  obtain ⟨symbol, hs, link⟩ := Option.bind_eq_some_iff.1 link
  obtain ⟨later, hl, accrues⟩ := h id symbol hs
  rw [SymbolTable.exports, hl]
  exact accrues.exports source link

theorem Accrues.aliases (h : before.Accrues after) (id : SymbolId) :
    before.aliases id <+: after.aliases id := by
  unfold SymbolTable.aliases
  cases hs : before.get? id with
  | none => exact List.nil_prefix
  | some symbol =>
      obtain ⟨later, hl, accrues⟩ := h id symbol hs
      rw [hl]
      exact accrues.aliases

theorem Accrues.isReferenced (h : before.Accrues after) {id : SymbolId}
    (marked : before.isReferenced id = true) : after.isReferenced id = true := by
  obtain ⟨symbol, hs, hm⟩ := (before.isReferenced_iff id).1 marked
  obtain ⟨later, hl, accrues⟩ := h id symbol hs
  exact (after.isReferenced_iff id).2 ⟨later, hl, accrues.referenced hm⟩

theorem Accrues.size_le (h : before.Accrues after) : before.size ≤ after.size := by
  refine Nat.le_of_not_lt fun less => ?_
  obtain ⟨symbol, hs⟩ := exists_get?_of_lt less
  obtain ⟨later, hl, -⟩ := h _ symbol hs
  exact absurd (lt_size_of_get? hl) (Nat.lt_irrefl _)

/-! ## §3. Between two tables -/

variable {first middle last : SymbolTable}

/-- **A table in the middle has grown** if the last one has. -/
theorem Accrues.grows_between (h : first.Accrues middle) (h' : middle.Accrues last)
    (grows : first.Grows last) : first.Grows middle where
  key? := by
    intro id hid
    obtain ⟨module, name, hk⟩ := exists_key?_of_lt hid
    rw [hk, h.key? hk]
  exports := by
    intro id hid
    cases link : middle.exports id with
    -- a link in the middle is there in the end, so it was there at first
    | some source => rw [← grows.exports id hid, h'.exports link]
    | none =>
        cases old : first.exports id with
        | none => rfl
        | some source => exact link.symm.trans (h.exports old)
  aliases := fun id _ => h.aliases id

theorem Accrues.aliases_between (h : first.Accrues middle) (h' : middle.Accrues last)
    (grows : first.Grows last) (linked : first.Linked) (linked' : last.Linked) :
    first.GrowsAliases middle where
  size_le := h.size_le
  old := by
    intro id hid
    -- the old aliases in the middle are some of those in the end, and those are the first ones
    have none_more := (h'.aliases id).filter (· < first.size)
    rw [grows.filter_aliases linked linked' hid] at none_more
    have none_less := (h.aliases id).filter (· < first.size)
    have all : (first.aliases id).filter (· < first.size) = first.aliases id := by
      apply List.filter_eq_self.2
      intro newName hmem
      simpa using lt_size_of_exports ((linked.mem_aliases id newName).1 hmem)
    rw [all] at none_less
    exact none_more.eq_of_length_le none_less.length_le
  new := fun _ hid newName hmem =>
    grows.not_lt_of_mem_aliases linked linked' hid ((h'.aliases _).subset hmem)

/-- The other symbol is an alias of the symbol, directly or through others, or is that
symbol. -/
def ReachesAlias (table : SymbolTable) : SymbolId → SymbolId → Prop :=
  Relation.ReflTransGen fun id newName => newName ∈ table.aliases id

/-- Among old symbols, the aliases that are reached are those that were. -/
theorem GrowsAliases.reachesAlias_iff (h : before.GrowsAliases after) {id other : Nat}
    (hother : other < before.size) :
    after.ReachesAlias id other ↔ before.ReachesAlias id other := by
  constructor
  · intro reaches
    -- backwards from the other symbol: a new symbol reaches no old one, so all are old
    have all : ∀ start : Nat, after.ReachesAlias start other →
        start < before.size ∧ before.ReachesAlias start other := by
      intro start reaches
      induction reaches using Relation.ReflTransGen.head_induction_on with
      | refl => exact ⟨hother, Relation.ReflTransGen.refl⟩
      | @head start next step _ ih =>
          obtain ⟨hnext, there⟩ := ih
          have hstart : start < before.size := by
            by_cases inside : start < before.size
            · exact inside
            · exact absurd hnext (h.new start inside next step)
          refine ⟨hstart, Relation.ReflTransGen.head ?_ there⟩
          rw [← h.old start hstart]
          exact List.mem_filter.2 ⟨step, by simpa using hnext⟩
    exact (all id reaches).2
  · intro reaches
    induction reaches using Relation.ReflTransGen.head_induction_on with
    | refl => exact Relation.ReflTransGen.refl
    | @head start next step _ ih =>
        refine Relation.ReflTransGen.head ?_ ih
        rw [← h.old start (lt_size_of_mem_aliases step)] at step
        exact (List.mem_filter.1 step).1

end SymbolTable

end FlatBundle
