/-
  FlatBundle.Proofs.Symbol.Links
  ──────────────────────────────
  **THE LINKS OF A SYMBOL TABLE, AND HOW A TABLE MAY GROW.**

  A table keeps every link twice: `exports` leads from an alias to what it
  exports, `aliases` leads back.  `Linked` says that the two agree, and every
  operation of a run keeps it.

  Two relations compare a table with a later one:

    • `Extends` — what resolving exports may do: symbols are added that nothing
      is known of, and the old ones gain aliases and change in nothing else,
    • `Grows` — what any step of a run may do to the links: old symbols keep
      their name and what they export, and gain aliases at the end.
-/
import FlatBundle.Symbol.Canonical

namespace FlatBundle.SymbolTable

/-! ## §1. What a table says of a symbol -/

/-- The module and the name of a symbol. -/
def key? (table : SymbolTable) (id : SymbolId) : Option (String × String) :=
  (table.get? id).map fun symbol => (symbol.module, symbol.name)

/-- Whether the value of a symbol has been asked for. -/
def isReferenced (table : SymbolTable) (id : SymbolId) : Bool :=
  ((table.get? id).map Symbol.referenced).getD false

/-- The converted value of a symbol, if there is one. -/
def value? (table : SymbolTable) (id : SymbolId) : Option Value :=
  (table.get? id).bind Symbol.value

/-- The private name of a symbol, if it has one. -/
def privateName? (table : SymbolTable) (id : SymbolId) : Option String :=
  (table.get? id).bind Symbol.privateName

theorem isReferenced_iff (table : SymbolTable) (id : SymbolId) :
    table.isReferenced id = true
      ↔ ∃ symbol, table.get? id = some symbol ∧ symbol.referenced = true := by
  unfold isReferenced
  cases table.get? id <;> simp

theorem key?_of_get? {table : SymbolTable} {id : SymbolId} {symbol : Symbol}
    (h : table.get? id = some symbol) : table.key? id = some (symbol.module, symbol.name) := by
  rw [key?, h]
  rfl

theorem get?_isSome_iff (table : SymbolTable) (id : Nat) :
    (table.get? id).isSome ↔ id < table.size := by
  simp [get?, size]

theorem exists_get?_of_lt {table : SymbolTable} {id : Nat} (h : id < table.size) :
    ∃ symbol, table.get? id = some symbol :=
  Option.isSome_iff_exists.1 ((table.get?_isSome_iff id).2 h)

theorem lt_size_of_get? {table : SymbolTable} {id : Nat} {symbol : Symbol}
    (h : table.get? id = some symbol) : id < table.size :=
  (table.get?_isSome_iff id).1 (by rw [h]; rfl)

theorem exists_key?_of_lt {table : SymbolTable} {id : Nat} (h : id < table.size) :
    ∃ module name, table.key? id = some (module, name) := by
  obtain ⟨symbol, hs⟩ := exists_get?_of_lt h
  exact ⟨symbol.module, symbol.name, key?_of_get? hs⟩

theorem lt_size_of_key? {table : SymbolTable} {id : Nat} {key : String × String}
    (h : table.key? id = some key) : id < table.size := by
  obtain ⟨symbol, hs, -⟩ := Option.map_eq_some_iff.1 h
  exact lt_size_of_get? hs

/-- A look-up finds the symbol that is for the name. -/
theorem lookup_eq_some_iff_key? (table : SymbolTable) (module name : String) (id : SymbolId) :
    table.lookup module name = some id ↔ table.key? id = some (module, name) := by
  rw [lookup_eq_some_iff, key?, Option.map_eq_some_iff]
  simp [Symbol.IsFor]

/-- No two symbols are for the same name of the same module. -/
theorem key?_inj {table : SymbolTable} {id other : SymbolId} {key : String × String}
    (h : table.key? id = some key) (h' : table.key? other = some key) : id = other := by
  have found := (table.lookup_eq_some_iff_key? key.1 key.2 id).2 h
  rw [(table.lookup_eq_some_iff_key? key.1 key.2 other).2 h'] at found
  exact (Option.some.inj found).symm

theorem lt_size_of_exports {table : SymbolTable} {id source : Nat}
    (h : table.exports id = some source) : id < table.size := by
  obtain ⟨symbol, hs, -⟩ := Option.bind_eq_some_iff.1 h
  exact lt_size_of_get? hs

theorem lt_size_of_mem_aliases {table : SymbolTable} {id newName : Nat}
    (h : newName ∈ table.aliases id) : id < table.size := by
  unfold aliases at h
  split at h
  · next hs => exact lt_size_of_get? hs
  · exact absurd h List.not_mem_nil

/-- A stored identity is read. -/
theorem canonical_of_canonical? {table : SymbolTable} {id : SymbolId} {canonical : Canonical}
    (h : table.canonical? id = some canonical) : table.canonical id = .ok canonical := by
  obtain ⟨symbol, hs, hc⟩ := Option.bind_eq_some_iff.1 h
  rw [SymbolTable.canonical, hs]
  simp only [Option.getD_some, hc]

/-! ## §2. What the operations change -/

theorem exports_push (table : SymbolTable) (module name : String)
    (fresh : table.lookup module name = none) (id : SymbolId) :
    (table.push module name fresh).exports id = table.exports id := by
  unfold exports
  rw [get?_push]
  split
  · next last =>
      subst last
      have absent : table.get? table.size = none := by simp [get?, size]
      rw [absent]
      rfl
  · rfl

theorem aliases_push (table : SymbolTable) (module name : String)
    (fresh : table.lookup module name = none) (id : SymbolId) :
    (table.push module name fresh).aliases id = table.aliases id := by
  unfold aliases
  rw [get?_push]
  by_cases last : id = table.size
  · subst last
    have absent : table.get? table.size = none := by simp [get?, size]
    rw [if_pos rfl, absent]
    rfl
  · rw [if_neg last]

/-- A table after it was asked for the symbol of a name: as before, or with one
symbol more. -/
theorem symbolOf_cases (table : SymbolTable) (module name : String) :
    (∃ id, table.lookup module name = some id ∧ table.symbolOf module name = (id, table))
      ∨ ∃ fresh, table.symbolOf module name = (table.size, table.push module name fresh) := by
  rcases Option.eq_none_or_eq_some (table.lookup module name) with absent | ⟨id, found⟩
  · exact Or.inr ⟨absent, symbolOf_of_lookup_eq_none absent⟩
  · exact Or.inl ⟨id, found, symbolOf_of_lookup_eq_some found⟩

/-- The symbol that was asked for is for the name. -/
theorem key?_symbolOf (table : SymbolTable) (module name : String) :
    (table.symbolOf module name).2.key? (table.symbolOf module name).1 = some (module, name) := by
  rcases table.symbolOf_cases module name with ⟨id, found, h⟩ | ⟨fresh, h⟩
  · rw [h]
    exact (table.lookup_eq_some_iff_key? module name id).1 found
  · rw [h, key?, get?_push, if_pos rfl]
    rfl

theorem exports_symbolOf (table : SymbolTable) (module name : String) (id : SymbolId) :
    (table.symbolOf module name).2.exports id = table.exports id := by
  rcases table.symbolOf_cases module name with ⟨_, -, same⟩ | ⟨fresh, same⟩
  · rw [same]
  · rw [same, exports_push]

theorem get?_modify_of_ne (table : SymbolTable) {id other : SymbolId} (ne : other ≠ id)
    (change : Symbol → Symbol) : (table.modify id change).get? other = table.get? other := by
  rw [get?_modify, if_neg ne]

/-- What a change leaves alone in the symbol is left alone in the table. -/
theorem bind_modify {α : Type} (view : Symbol → Option α) (table : SymbolTable)
    (id other : SymbolId) {change : Symbol → Symbol}
    (same : ∀ symbol, view (symbol.update change) = view symbol) :
    ((table.modify id change).get? other).bind view = (table.get? other).bind view := by
  rw [get?_modify]
  split
  · cases table.get? other with
    | none => rfl
    | some symbol => exact same symbol
  · rfl

/-- What a change makes of the symbol. -/
theorem bind_modify_self {α : Type} (view : Symbol → Option α) (table : SymbolTable)
    {id : Nat} (bound : id < table.size) (change : Symbol → Symbol) :
    ∃ symbol, table.get? id = some symbol
      ∧ ((table.modify id change).get? id).bind view = view (symbol.update change) := by
  obtain ⟨symbol, hs⟩ := exists_get?_of_lt bound
  refine ⟨symbol, hs, ?_⟩
  rw [get?_modify, if_pos rfl, hs]
  rfl

theorem exports_modify (table : SymbolTable) (id other : SymbolId) {change : Symbol → Symbol}
    (same : ∀ symbol, (change symbol).exports = symbol.exports) :
    (table.modify id change).exports other = table.exports other :=
  bind_modify Symbol.exports table id other same

theorem aliases_modify (table : SymbolTable) (id other : SymbolId) {change : Symbol → Symbol}
    (same : ∀ symbol, (change symbol).aliases = symbol.aliases) :
    (table.modify id change).aliases other = table.aliases other := by
  unfold aliases
  rw [get?_modify]
  by_cases h : other = id
  · rw [if_pos h]
    cases table.get? other with
    | none => rfl
    | some symbol => exact same symbol
  · rw [if_neg h]

theorem key?_modify (table : SymbolTable) (id other : SymbolId) (change : Symbol → Symbol) :
    (table.modify id change).key? other = table.key? other := by
  unfold key?
  rw [get?_modify]
  split
  · cases table.get? other <;> rfl
  · rfl

theorem canonical?_modify (table : SymbolTable) (id other : SymbolId) {change : Symbol → Symbol}
    (same : ∀ symbol, (change symbol).canonical = symbol.canonical) :
    (table.modify id change).canonical? other = table.canonical? other :=
  bind_modify Symbol.canonical table id other same

theorem value?_modify (table : SymbolTable) (id other : SymbolId) {change : Symbol → Symbol}
    (same : ∀ symbol, (change symbol).value = symbol.value) :
    (table.modify id change).value? other = table.value? other :=
  bind_modify Symbol.value table id other same

theorem privateName?_modify (table : SymbolTable) (id other : SymbolId)
    {change : Symbol → Symbol} (same : ∀ symbol, (change symbol).privateName = symbol.privateName) :
    (table.modify id change).privateName? other = table.privateName? other :=
  bind_modify Symbol.privateName table id other same

theorem isReferenced_modify (table : SymbolTable) (id other : SymbolId)
    {change : Symbol → Symbol} (same : ∀ symbol, (change symbol).referenced = symbol.referenced) :
    (table.modify id change).isReferenced other = table.isReferenced other := by
  unfold isReferenced
  rw [get?_modify]
  split
  · cases table.get? other with
    | none => rfl
    | some symbol => exact same symbol
  · rfl

/-- What a link that is made changes. -/
def linkSymbol (exported newName id : SymbolId) (symbol : Symbol) : Symbol :=
  if id = newName then { symbol with exports := some exported }
  else if id = exported then { symbol with aliases := symbol.aliases ++ [newName] }
  else symbol

theorem get?_link {table : SymbolTable} {exported newName : SymbolId} (ne : exported ≠ newName)
    (free : table.exports newName = none) (id : SymbolId) :
    (table.link exported newName).get? id
      = (table.get? id).map (linkSymbol exported newName id) := by
  have made : ¬ (exported = newName ∨ (table.exports newName).isSome) := by
    rw [free]
    simpa using ne
  unfold link
  rw [if_neg made, get?_modify, get?_modify]
  cases table.get? id with
  | none => simp
  | some symbol =>
      by_cases hn : id = newName
      · subst hn
        simp [linkSymbol, ne.symm, Symbol.update]
      · by_cases he : id = exported
        · subst he
          simp [linkSymbol, hn, Symbol.update]
        · simp [linkSymbol, hn, he]

/-- A link is made, or nothing changes because the name is the symbol itself or
is linked already. -/
theorem link_cases (table : SymbolTable) (exported newName : SymbolId) :
    ((exported = newName ∨ (table.exports newName).isSome)
        ∧ table.link exported newName = table)
      ∨ (exported ≠ newName ∧ table.exports newName = none) := by
  by_cases kept : exported = newName ∨ (table.exports newName).isSome
  · exact Or.inl ⟨kept, if_pos kept⟩
  · refine Or.inr ⟨fun h => kept (Or.inl h), ?_⟩
    cases h : table.exports newName with
    | none => rfl
    | some source => exact absurd (Or.inr (by rw [h]; rfl)) kept

theorem key?_link (table : SymbolTable) (exported newName id : SymbolId) :
    (table.link exported newName).key? id = table.key? id := by
  unfold link
  split
  · rfl
  · rw [key?_modify, key?_modify]

theorem exports_link {table : SymbolTable} {exported newName : Nat} (ne : exported ≠ newName)
    (free : table.exports newName = none) (bound : newName < table.size) (id : SymbolId) :
    (table.link exported newName).exports id
      = if id = newName then some exported else table.exports id := by
  unfold exports
  rw [get?_link ne free]
  by_cases hn : id = newName
  · subst hn
    obtain ⟨symbol, hs⟩ := exists_get?_of_lt bound
    simp [hs, linkSymbol]
  · rw [if_neg hn]
    cases table.get? id with
    | none => rfl
    | some symbol =>
        show (linkSymbol exported newName id symbol).exports = symbol.exports
        rw [linkSymbol, if_neg hn]
        split <;> rfl

theorem aliases_link {table : SymbolTable} {exported newName : Nat} (ne : exported ≠ newName)
    (free : table.exports newName = none) (bound : exported < table.size) (id : SymbolId) :
    (table.link exported newName).aliases id
      = if id = exported then table.aliases id ++ [newName] else table.aliases id := by
  unfold aliases
  rw [get?_link ne free]
  by_cases he : id = exported
  · subst he
    obtain ⟨symbol, hs⟩ := exists_get?_of_lt bound
    simp [hs, linkSymbol, ne]
  · rw [if_neg he]
    cases table.get? id with
    | none => rfl
    | some symbol =>
        show (linkSymbol exported newName id symbol).aliases = symbol.aliases
        unfold linkSymbol
        rw [if_neg he]
        split <;> rfl

/-! ## §3. The two directions of a link agree -/

/-- Every link is recorded in both directions, once. -/
structure Linked (table : SymbolTable) : Prop where
  mem_aliases : ∀ id newName, newName ∈ table.aliases id ↔ table.exports newName = some id
  nodup_aliases : ∀ id, (table.aliases id).Nodup
  exports_ne_self : ∀ id, table.exports id ≠ some id

theorem Linked.lt_size_of_exports {table : SymbolTable} (linked : table.Linked)
    {id source : Nat} (h : table.exports id = some source) : source < table.size :=
  lt_size_of_mem_aliases ((linked.mem_aliases source id).2 h)

theorem linked_empty : empty.Linked where
  mem_aliases := by simp [aliases, exports, get?, empty]
  nodup_aliases := by simp [aliases, get?, empty]
  exports_ne_self := by simp [exports, get?, empty]

/-- The other table has the same names and the same links. -/
structure SameLinks (table other : SymbolTable) : Prop where
  key? : ∀ id, other.key? id = table.key? id
  exports : ∀ id, other.exports id = table.exports id
  aliases : ∀ id, other.aliases id = table.aliases id

theorem SameLinks.symm {table other : SymbolTable} (h : table.SameLinks other) :
    other.SameLinks table :=
  ⟨fun id => (h.key? id).symm, fun id => (h.exports id).symm, fun id => (h.aliases id).symm⟩

/-- A change that leaves the links of a symbol alone. -/
theorem SameLinks.modify (table : SymbolTable) (id : SymbolId) {change : Symbol → Symbol}
    (exports : ∀ symbol, (change symbol).exports = symbol.exports)
    (aliases : ∀ symbol, (change symbol).aliases = symbol.aliases) :
    table.SameLinks (table.modify id change) :=
  ⟨fun other => table.key?_modify id other change,
    fun other => table.exports_modify id other exports,
    fun other => table.aliases_modify id other aliases⟩

/-- Tables with the same links are linked alike. -/
theorem Linked.of_same_links {table other : SymbolTable} (linked : table.Linked)
    (exports : ∀ id, other.exports id = table.exports id)
    (aliases : ∀ id, other.aliases id = table.aliases id) : other.Linked where
  mem_aliases := by
    intro id newName
    rw [exports, aliases]
    exact linked.mem_aliases id newName
  nodup_aliases := by
    intro id
    rw [aliases]
    exact linked.nodup_aliases id
  exports_ne_self := by
    intro id
    rw [exports]
    exact linked.exports_ne_self id

theorem SameLinks.linked {table other : SymbolTable} (h : table.SameLinks other)
    (linked : table.Linked) : other.Linked :=
  linked.of_same_links h.exports h.aliases

theorem Linked.symbolOf {table : SymbolTable} (linked : table.Linked) (module name : String) :
    (table.symbolOf module name).2.Linked := by
  rcases table.symbolOf_cases module name with ⟨id, -, h⟩ | ⟨fresh, h⟩
  · rw [h]
    exact linked
  · rw [h]
    exact linked.of_same_links (table.exports_push module name fresh)
      (table.aliases_push module name fresh)

/-- **Linking keeps the two directions in agreement.** -/
theorem Linked.link {table : SymbolTable} (linked : table.Linked) {exported newName : Nat}
    (hexported : exported < table.size) (hnewName : newName < table.size) :
    (table.link exported newName).Linked := by
  rcases table.link_cases exported newName with ⟨-, same⟩ | ⟨ne, free⟩
  · rw [same]
    exact linked
  · have exports := exports_link ne free hnewName
    have aliases := aliases_link ne free hexported
    constructor
    · intro id other
      rw [exports, aliases]
      have old := linked.mem_aliases id other
      -- the two lists change at one pair of symbols, and agree there and elsewhere
      by_cases he : id = exported <;> by_cases hn : other = newName
      · simp [he, hn]
      · rw [if_pos he, if_neg hn, ← old]
        simp [hn]
      · rw [if_neg he, if_pos hn, old, hn, free]
        simp [Ne.symm he]
      · rw [if_neg he, if_neg hn, old]
    · intro id
      rw [aliases]
      split
      · next he =>
          -- the name was free, so it was nobody's alias
          have absent : newName ∉ table.aliases id := by
            rw [linked.mem_aliases, free]
            simp
          exact List.nodup_append.2 ⟨linked.nodup_aliases id, by simp, by
            intro a ha b hb e
            rw [List.mem_singleton.1 hb] at e
            exact absent (e ▸ ha)⟩
      · exact linked.nodup_aliases id
    · intro id
      rw [exports]
      split
      · next hn => simp [hn, ne]
      · exact linked.exports_ne_self id

/-! ## §4. Growth while exports are resolved -/

/-- The later table has new symbols that nothing is known of but links, and more
aliases of old symbols; an old symbol is the same in all else. -/
structure Extends (before after : SymbolTable) : Prop where
  old : ∀ id symbol, before.get? id = some symbol →
    ∃ more, after.get? id = some { symbol with aliases := symbol.aliases ++ more }
  new : ∀ id symbol, before.size ≤ id → after.get? id = some symbol →
    symbol.canonical = none ∧ symbol.referenced = false ∧ symbol.value = none
      ∧ symbol.privateName = none

theorem Extends.size_le {before after : SymbolTable} (h : before.Extends after) :
    before.size ≤ after.size := by
  refine Nat.le_of_not_lt fun less => ?_
  obtain ⟨symbol, hs⟩ := exists_get?_of_lt less
  obtain ⟨more, hm⟩ := h.old _ symbol hs
  exact absurd (lt_size_of_get? hm) (by omega)

theorem Extends.refl (table : SymbolTable) : table.Extends table where
  old := fun id symbol hs => ⟨[], by simpa using hs⟩
  new := fun id symbol hle hs => absurd (lt_size_of_get? hs) (by omega)

theorem Extends.trans {first second third : SymbolTable} (h : first.Extends second)
    (h' : second.Extends third) : first.Extends third where
  old := by
    intro id symbol hs
    obtain ⟨more, hm⟩ := h.old id symbol hs
    obtain ⟨further, hf⟩ := h'.old id _ hm
    exact ⟨more ++ further, by simpa using hf⟩
  new := by
    intro id symbol hle hs
    -- a symbol of the third table is new in the second or in the third
    by_cases known : id < second.size
    · obtain ⟨middle, hm⟩ := exists_get?_of_lt known
      obtain ⟨more, hf⟩ := h'.old id middle hm
      rw [hs] at hf
      rw [Option.some.inj hf]
      exact h.new id middle hle hm
    · exact h'.new id symbol (by omega) hs

theorem Extends.new_of_get? {before after : SymbolTable} (h : before.Extends after)
    {id : SymbolId} {symbol : Symbol} (absent : before.get? id = none)
    (hs : after.get? id = some symbol) :
    symbol.canonical = none ∧ symbol.referenced = false ∧ symbol.value = none
      ∧ symbol.privateName = none := by
  refine h.new id symbol (Nat.le_of_not_lt fun old => ?_) hs
  obtain ⟨known, hk⟩ := exists_get?_of_lt old
  rw [absent] at hk
  cases hk

/-- What resolving exports does not touch in an old symbol, and leaves empty in a
new one. -/
theorem Extends.bind_eq {α : Type} {before after : SymbolTable} (h : before.Extends after)
    (view : Symbol → Option α)
    (old : ∀ symbol more, view { symbol with aliases := symbol.aliases ++ more } = view symbol)
    (new : ∀ symbol, symbol.canonical = none ∧ symbol.referenced = false ∧ symbol.value = none
      ∧ symbol.privateName = none → view symbol = none) (id : SymbolId) :
    (after.get? id).bind view = (before.get? id).bind view := by
  cases hb : before.get? id with
  | some symbol =>
      obtain ⟨more, hm⟩ := h.old id symbol hb
      rw [hm]
      exact old symbol more
  | none =>
      cases ha : after.get? id with
      | none => rfl
      | some symbol => exact new symbol (h.new_of_get? hb ha)

theorem Extends.canonical? {before after : SymbolTable} (h : before.Extends after)
    (id : SymbolId) : after.canonical? id = before.canonical? id :=
  h.bind_eq Symbol.canonical (fun _ _ => rfl) (fun _ hs => hs.1) id

theorem Extends.value? {before after : SymbolTable} (h : before.Extends after) (id : SymbolId) :
    after.value? id = before.value? id :=
  h.bind_eq Symbol.value (fun _ _ => rfl) (fun _ hs => hs.2.2.1) id

theorem Extends.privateName? {before after : SymbolTable} (h : before.Extends after)
    (id : SymbolId) : after.privateName? id = before.privateName? id :=
  h.bind_eq Symbol.privateName (fun _ _ => rfl) (fun _ hs => hs.2.2.2) id

theorem Extends.isReferenced {before after : SymbolTable} (h : before.Extends after)
    (id : SymbolId) : after.isReferenced id = before.isReferenced id := by
  unfold SymbolTable.isReferenced
  cases hb : before.get? id with
  | some symbol =>
      obtain ⟨more, hm⟩ := h.old id symbol hb
      rw [hm]
      rfl
  | none =>
      cases ha : after.get? id with
      | none => rfl
      | some symbol => exact (h.new_of_get? hb ha).2.1

theorem Extends.symbolOf (table : SymbolTable) (module name : String) :
    table.Extends (table.symbolOf module name).2 := by
  rcases table.symbolOf_cases module name with ⟨id, -, h⟩ | ⟨fresh, h⟩
  · rw [h]
    exact Extends.refl table
  · rw [h]
    constructor
    -- the new symbol stands after all old ones
    · intro id symbol hs
      refine ⟨[], ?_⟩
      have old : id ≠ table.size := Nat.ne_of_lt (lt_size_of_get? hs)
      rw [get?_push, if_neg old, hs]
      simp
    · intro id symbol hle hs
      rw [get?_push] at hs
      split at hs
      · rw [← Option.some.inj hs]
        exact ⟨rfl, rfl, rfl, rfl⟩
      · exact absurd (lt_size_of_get? hs) (by omega)

/-- Linking a new symbol leaves what the old symbols export alone. -/
theorem Extends.link {before table : SymbolTable} (h : before.Extends table)
    {exported newName : Nat} (new : before.size ≤ newName) :
    before.Extends (table.link exported newName) := by
  rcases table.link_cases exported newName with ⟨-, same⟩ | ⟨ne, free⟩
  · rw [same]
    exact h
  · constructor
    · intro id symbol hs
      obtain ⟨more, hm⟩ := h.old id symbol hs
      -- an old symbol is not the one whose link is made; it may gain an alias
      have old : id ≠ newName := Nat.ne_of_lt (Nat.lt_of_lt_of_le (lt_size_of_get? hs) new)
      rw [get?_link ne free, hm]
      by_cases he : id = exported
      · subst he
        exact ⟨more ++ [newName], by simp [linkSymbol, old]⟩
      · exact ⟨more, by simp [linkSymbol, old, he]⟩
    · intro id symbol hle hs
      rw [get?_link ne free, Option.map_eq_some_iff] at hs
      obtain ⟨middle, hm, rfl⟩ := hs
      have known := h.new id middle hle hm
      unfold linkSymbol
      split
      · exact known
      · split
        · exact known
        · exact known

/-! ## §5. Growth of the links -/

/-- The later table has the symbols of the earlier one under their numbers.  They
export what they exported, and have gained aliases at the end. -/
structure Grows (before after : SymbolTable) : Prop where
  key? : ∀ id, id < before.size → after.key? id = before.key? id
  exports : ∀ id, id < before.size → after.exports id = before.exports id
  aliases : ∀ id, id < before.size → before.aliases id <+: after.aliases id

theorem Grows.refl (table : SymbolTable) : table.Grows table :=
  ⟨fun _ _ => rfl, fun _ _ => rfl, fun _ _ => List.prefix_rfl⟩

theorem Grows.key?_eq_some {before after : SymbolTable} (h : before.Grows after) {id : SymbolId}
    {key : String × String} (hk : before.key? id = some key) : after.key? id = some key := by
  rw [h.key? id (lt_size_of_key? hk), hk]

theorem Grows.size_le {before after : SymbolTable} (h : before.Grows after) :
    before.size ≤ after.size := by
  refine Nat.le_of_not_lt fun less => ?_
  obtain ⟨module, name, hk⟩ := exists_key?_of_lt less
  exact absurd (lt_size_of_key? (h.key?_eq_some hk)) (Nat.lt_irrefl _)

theorem Grows.trans {first second third : SymbolTable} (h : first.Grows second)
    (h' : second.Grows third) : first.Grows third := by
  have bound : ∀ id, id < first.size → id < second.size :=
    fun id hid => Nat.lt_of_lt_of_le hid h.size_le
  constructor
  · intro id hid
    rw [h'.key? id (bound id hid), h.key? id hid]
  · intro id hid
    rw [h'.exports id (bound id hid), h.exports id hid]
  · intro id hid
    exact (h.aliases id hid).trans (h'.aliases id (bound id hid))

/-- A table with the same names and links has not grown at all. -/
theorem SameLinks.grows {table other : SymbolTable} (h : table.SameLinks other) :
    table.Grows other where
  key? := fun id _ => h.key? id
  exports := fun id _ => h.exports id
  aliases := fun id _ => h.aliases id ▸ List.prefix_rfl

theorem Extends.grows {before after : SymbolTable} (h : before.Extends after) :
    before.Grows after := by
  constructor
  · intro id hid
    obtain ⟨symbol, hs⟩ := exists_get?_of_lt hid
    obtain ⟨more, hm⟩ := h.old id symbol hs
    rw [key?_of_get? hm, key?_of_get? hs]
  · intro id hid
    obtain ⟨symbol, hs⟩ := exists_get?_of_lt hid
    obtain ⟨more, hm⟩ := h.old id symbol hs
    rw [SymbolTable.exports, SymbolTable.exports, hm, hs]
    rfl
  · intro id hid
    obtain ⟨symbol, hs⟩ := exists_get?_of_lt hid
    obtain ⟨more, hm⟩ := h.old id symbol hs
    rw [SymbolTable.aliases, SymbolTable.aliases, hm, hs]
    exact ⟨more, rfl⟩

/-- The aliases that an old symbol gains are new. -/
theorem Grows.filter_aliases {before after : SymbolTable} (h : before.Grows after)
    (linked : before.Linked) (linked' : after.Linked) {id : Nat} (hid : id < before.size) :
    (after.aliases id).filter (· < before.size) = before.aliases id := by
  obtain ⟨more, hm⟩ := h.aliases id hid
  have old : ∀ newName ∈ before.aliases id, newName < before.size := fun newName hmem =>
    SymbolTable.lt_size_of_exports ((linked.mem_aliases id newName).1 hmem)
  -- an old alias among the new ones would stand in the list twice
  have new : ∀ newName ∈ more, ¬ newName < before.size := by
    intro newName hmem less
    have link : after.exports newName = some id :=
      (linked'.mem_aliases id newName).1 (hm ▸ List.mem_append_right _ hmem)
    rw [h.exports newName less, ← linked.mem_aliases] at link
    have nodup := linked'.nodup_aliases id
    rw [← hm] at nodup
    exact (List.nodup_append.1 nodup).2.2 newName link newName hmem rfl
  rw [← hm, List.filter_append, List.filter_eq_self.2 (by simpa using old),
    List.filter_eq_nil_iff.2 (by simpa using new), List.append_nil]

/-- The aliases of a new symbol are new. -/
theorem Grows.not_lt_of_mem_aliases {before after : SymbolTable} (h : before.Grows after)
    (linked : before.Linked) (linked' : after.Linked) {id newName : Nat}
    (hid : ¬ id < before.size) (hmem : newName ∈ after.aliases id) : ¬ newName < before.size := by
  intro less
  have link := (linked'.mem_aliases id newName).1 hmem
  rw [h.exports newName less] at link
  exact hid (linked.lt_size_of_exports link)

end FlatBundle.SymbolTable
