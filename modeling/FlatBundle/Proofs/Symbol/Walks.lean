/-
  FlatBundle.Proofs.Symbol.Walks
  ──────────────────────────────
  **WHERE THE TWO WALKS ALONG THE LINKS END.**

  `LeadsTo` is the walk along `exports` without a bound.  Against it:

    • `declaration` ends at a symbol that exports nothing, or that lies on a
      cycle of links (`isEnd_declaration`); from a symbol on a cycle it ends
      right in front of that symbol (`declaration_of_isEnd`),
    • `rootExport` finds a root export exactly if one leads to the symbol
      (`rootExport_eq_none_iff`),
    • neither walk notices that the table has grown (`declaration_grows`,
      `rootExport_grows`).
-/
import FlatBundle.Proofs.Symbol.Links
import FlatBundle.Proofs.Symbol.Search
import Mathlib.Logic.Relation

namespace FlatBundle.SymbolTable

/-! ## §1. Following `exports` -/

/-- One symbol exports another, directly or through others, or is that symbol. -/
def LeadsTo (table : SymbolTable) : SymbolId → SymbolId → Prop :=
  Relation.ReflTransGen fun id source => table.exports id = some source

theorem LeadsTo.total {table : SymbolTable} {id first second : SymbolId}
    (h : table.LeadsTo id first) (h' : table.LeadsTo id second) :
    table.LeadsTo first second ∨ table.LeadsTo second first :=
  Relation.ReflTransGen.total_of_right_unique
    (fun _ _ _ hb hc => Option.some.inj (hb.symm.trans hc)) h h'

theorem LeadsTo.lt_size {table : SymbolTable} (linked : table.Linked) {id other : Nat}
    (h : table.LeadsTo id other) (hid : id < table.size) : other < table.size := by
  induction h with
  | refl => exact hid
  | tail _ step _ => exact linked.lt_size_of_exports step

/-- A symbol at which following `exports` may end: it exports nothing, or it lies
on a cycle. -/
def IsEnd (table : SymbolTable) (id : SymbolId) : Prop :=
  table.exports id = none ∨ ∃ next, table.exports id = some next ∧ table.LeadsTo next id

theorem leadsTo_follow (table : SymbolTable) (visited : List SymbolId) (current : SymbolId) :
    table.LeadsTo current (table.follow visited current) := by
  fun_induction table.follow visited current with
  | case1 visited current _ => exact Relation.ReflTransGen.refl
  | case2 visited current next step _ ih => exact Relation.ReflTransGen.head step ih
  | case3 visited current next step _ => exact Relation.ReflTransGen.refl

theorem leadsTo_declaration (table : SymbolTable) (id : SymbolId) :
    table.LeadsTo id (table.declaration id) :=
  table.leadsTo_follow [id] id

/-- The walk stops only where there is no link, or a link back to a symbol that it
has come through. -/
theorem isEnd_follow {table : SymbolTable} (linked : table.Linked) (visited : List SymbolId)
    (current : SymbolId) (path : ∀ id ∈ visited, table.LeadsTo id current) :
    table.IsEnd (table.follow visited current) := by
  fun_induction table.follow visited current with
  | case1 visited current stop => exact Or.inl stop
  -- the path to the next symbol is the old one and the link
  | case2 visited current next step _ ih =>
      apply ih
      intro id hid
      rcases List.mem_cons.1 hid with rfl | hid
      · exact Relation.ReflTransGen.refl
      · exact Relation.ReflTransGen.tail (path id hid) step
  -- a link is left alone only if it leads back
  | case3 visited current next step stop =>
      have met : next ∈ visited := by
        have bound : next < table.size := linked.lt_size_of_exports step
        simpa [bound] using stop
      exact Or.inr ⟨next, step, path next met⟩

theorem isEnd_declaration {table : SymbolTable} (linked : table.Linked) (id : SymbolId) :
    table.IsEnd (table.declaration id) := by
  apply isEnd_follow linked
  intro other hother
  rw [List.mem_singleton.1 hother]
  exact Relation.ReflTransGen.refl

theorem declaration_of_exports_eq_none {table : SymbolTable} {id : SymbolId}
    (h : table.exports id = none) : table.declaration id = id := by
  rw [declaration, follow, h]

/-- Whatever a symbol on a cycle leads to leads back to it. -/
theorem LeadsTo.back {table : SymbolTable} {start next id : SymbolId}
    (step : table.exports start = some next) (cycle : table.LeadsTo next start)
    (h : table.LeadsTo start id) : table.LeadsTo id start := by
  induction h with
  | refl => exact Relation.ReflTransGen.refl
  | @tail middle id _ hs ih =>
      rcases Relation.ReflTransGen.cases_head ih with rfl | ⟨source, hsource, rest⟩
      · rw [← Option.some.inj (step.symm.trans hs)]
        exact cycle
      · rw [← Option.some.inj (hsource.symm.trans hs)]
        exact rest

/-- From a symbol on a cycle the walk comes round, and stops right in front of the
symbol.  Up to then all symbols on the path but the last lead to one that is on
the path and is not the start. -/
theorem exports_follow_of_cycle {table : SymbolTable} (linked : table.Linked)
    {start next : SymbolId} (step : table.exports start = some next)
    (cycle : table.LeadsTo next start) (visited : List SymbolId) (current : SymbolId)
    (hstart : start ∈ visited) (reached : table.LeadsTo start current)
    (path : ∀ id ∈ visited, id = current
      ∨ ∃ source ∈ visited, source ≠ start ∧ table.exports id = some source) :
    table.exports (table.follow visited current) = some start := by
  fun_induction table.follow visited current with
  -- nothing ends on a cycle
  | case1 visited current stop =>
      exfalso
      have back := LeadsTo.back step cycle reached
      rcases Relation.ReflTransGen.cases_head back with rfl | ⟨_, hs, _⟩
      · exact absurd (step.symm.trans stop) (by simp)
      · exact absurd (hs.symm.trans stop) (by simp)
  -- a symbol not met before is not the start, and takes the path one further
  | case2 visited current source hs unmet ih =>
      have new : source ∉ visited := by simpa using unmet.2
      have other : source ≠ start := fun h => new (h ▸ hstart)
      apply ih (List.mem_cons_of_mem _ hstart) (Relation.ReflTransGen.tail reached hs)
      intro id hid
      rcases List.mem_cons.1 hid with rfl | hid
      · exact Or.inl rfl
      · rcases path id hid with rfl | ⟨target, ht, hne, hl⟩
        · exact Or.inr ⟨source, List.mem_cons_self, other, hs⟩
        · exact Or.inr ⟨target, List.mem_cons_of_mem _ ht, hne, hl⟩
  -- the walk has met its own path, and must have met the start
  | case3 visited current source hs stop =>
      have met : source ∈ visited := by
        have bound : source < table.size := linked.lt_size_of_exports hs
        simpa [bound] using stop
      by_cases hround : source = start
      · rw [hs, hround]
      · -- the path without the start would be closed under `exports`
        exfalso
        have closed : ∀ id ∈ visited, ∀ target, table.exports id = some target →
            target ∈ visited ∧ target ≠ start := by
          intro id hid target ht
          rcases path id hid with rfl | ⟨other, ho, hne, hl⟩
          · rw [← Option.some.inj (hs.symm.trans ht)]
            exact ⟨met, hround⟩
          · rw [← Option.some.inj (hl.symm.trans ht)]
            exact ⟨ho, hne⟩
        have stays : ∀ id, table.LeadsTo next id → id ∈ visited ∧ id ≠ start := by
          intro id hid
          induction hid with
          | refl => exact closed start hstart next step
          | tail _ hl ih => exact closed _ ih.1 _ hl
        exact (stays start cycle).2 rfl

/-- **Where the walk from an end stops**: at the end itself if it exports nothing,
and otherwise at the symbol of its cycle that exports it. -/
theorem declaration_of_isEnd {table : SymbolTable} (linked : table.Linked) {id : SymbolId}
    (h : table.IsEnd id) :
    (table.exports id = none ∧ table.declaration id = id)
      ∨ table.exports (table.declaration id) = some id := by
  rcases h with stop | ⟨next, step, cycle⟩
  · exact Or.inl ⟨stop, declaration_of_exports_eq_none stop⟩
  · refine Or.inr (exports_follow_of_cycle linked step cycle [id] id List.mem_cons_self
      Relation.ReflTransGen.refl ?_)
    intro other hother
    exact Or.inl (List.mem_singleton.1 hother)

/-- An end leads to where the walk from it stops, and back. -/
theorem leadsTo_of_isEnd {table : SymbolTable} (linked : table.Linked) {id : SymbolId}
    (h : table.IsEnd id) : table.LeadsTo (table.declaration id) id := by
  rcases declaration_of_isEnd linked h with ⟨-, same⟩ | link
  · rw [same]
    exact Relation.ReflTransGen.refl
  · exact Relation.ReflTransGen.single link

/-- Two ends with one declaration are the same symbol. -/
theorem eq_of_declaration_eq {table : SymbolTable} (linked : table.Linked) {id other : SymbolId}
    (h : table.IsEnd id) (h' : table.IsEnd other)
    (same : table.declaration id = table.declaration other) : id = other := by
  -- two ends of chains, two on cycles, or one of each, which cannot be
  rcases declaration_of_isEnd linked h with ⟨stop, hd⟩ | link <;>
    rcases declaration_of_isEnd linked h' with ⟨stop', hd'⟩ | link'
  · rw [← hd, same, hd']
  · rw [← same, hd, stop] at link'
    cases link'
  · rw [same, hd', stop'] at link
    cases link
  · rw [same] at link
    exact Option.some.inj (link.symm.trans link')

/-! ## §2. Searching along `aliases` -/

theorem Linked.inRange {table : SymbolTable} (linked : table.Linked) : table.InRange :=
  inRange_of
    (fun id newName h => SymbolTable.lt_size_of_exports ((linked.mem_aliases id newName).1 h))
    fun _ _ h => linked.lt_size_of_exports h

/-- Where links are recorded in both directions, what is reached along aliases leads back. -/
theorem exists_mem_level_iff {table : SymbolTable} (linked : table.Linked) {id root : SymbolId} :
    (∃ n, root ∈ table.level [id] n) ↔ table.LeadsTo root id := by
  constructor
  · rintro ⟨n, hlevel⟩
    induction n generalizing root with
    | zero =>
        rw [List.mem_singleton.1 hlevel]
        exact Relation.ReflTransGen.refl
    | succ n ih =>
        obtain ⟨middle, hmiddle, hmem⟩ := List.mem_flatMap.1 hlevel
        exact Relation.ReflTransGen.head ((linked.mem_aliases middle root).1 hmem) (ih hmiddle)
  · intro leads
    induction leads using Relation.ReflTransGen.head_induction_on with
    | refl => exact ⟨0, List.mem_singleton.2 rfl⟩
    | @head root middle step _ ih =>
        obtain ⟨n, hlevel⟩ := ih
        exact ⟨n + 1, List.mem_flatMap.2 ⟨middle, hlevel, (linked.mem_aliases middle root).2 step⟩⟩

/-- A search that finds something starts from a symbol of the table. -/
theorem lt_size_of_rootExport {table : SymbolTable} {exported : List SymbolId} {id root : Nat}
    (h : table.rootExport exported id = some root) : id < table.size := by
  by_cases inside : id < table.size
  · exact inside
  · rw [rootExport, search, if_neg (by simp [inside]), search] at h
    cases h

theorem rootExport_eq_some {table : SymbolTable} (linked : table.Linked) {exported : List SymbolId}
    {id root : SymbolId} (h : table.rootExport exported id = some root) :
    root ∈ exported ∧ table.LeadsTo root id := by
  obtain ⟨distance, met⟩ := (rootExport_eq_some_iff linked.inRange (lt_size_of_rootExport h)).1 h
  exact ⟨met.mem.2, (exists_mem_level_iff linked).1 ⟨distance, met.mem.1⟩⟩

/-- **The search is complete**: it fails only if no root export leads to the
symbol. -/
theorem rootExport_eq_none_iff {table : SymbolTable} (linked : table.Linked)
    {exported : List SymbolId} {id : Nat} (hid : id < table.size) :
    table.rootExport exported id = none ↔ ∀ root ∈ exported, ¬ table.LeadsTo root id := by
  rw [rootExport_eq_none_iff_level linked.inRange hid]
  constructor
  · intro none root hroot leads
    obtain ⟨n, hlevel⟩ := (exists_mem_level_iff linked).2 leads
    exact none n root hlevel hroot
  · intro none n root hlevel hroot
    exact none root hroot ((exists_mem_level_iff linked).1 ⟨n, hlevel⟩)

/-- A root export is the first that the search from it finds. -/
theorem rootExport_self {table : SymbolTable} {exported : List SymbolId} {root : Nat}
    (hroot : root ∈ exported) (bound : root < table.size) :
    table.rootExport exported root = some root := by
  have fresh : root < table.size ∧ ¬ isOneOf [] root = true := ⟨bound, by simp⟩
  rw [rootExport, search, if_pos fresh, if_pos ((isOneOf_eq_true_iff _ _).2 hroot)]

/-! ## §3. The walks in a table that has grown -/

theorem follow_grows {before after : SymbolTable} (h : before.Grows after)
    (linked : before.Linked) (visited : List SymbolId) (current : Nat)
    (bound : current < before.size) :
    after.follow visited current = before.follow visited current := by
  fun_induction before.follow visited current with
  | case1 visited current stop =>
      rw [follow, h.exports current bound, stop]
  -- an old symbol has its old links, and they lead to old symbols
  | case2 visited current next step unmet ih =>
      have still : next < after.size ∧ ¬ isOneOf visited next = true :=
        ⟨Nat.lt_of_lt_of_le unmet.1 h.size_le, unmet.2⟩
      rw [follow, h.exports current bound, step]
      show (if _ then _ else _) = _
      rw [if_pos still]
      exact ih unmet.1
  | case3 visited current next step stop =>
      have inside : next < before.size := linked.lt_size_of_exports step
      have still : ¬ (next < after.size ∧ ¬ isOneOf visited next = true) :=
        fun hn => stop ⟨inside, hn.2⟩
      rw [follow, h.exports current bound, step]
      show (if _ then _ else _) = _
      rw [if_neg still]

theorem declaration_grows {before after : SymbolTable} (h : before.Grows after)
    (linked : before.Linked) {id : Nat} (hid : id < before.size) :
    after.declaration id = before.declaration id :=
  follow_grows h linked [id] id hid

/-- The later table has the aliases of the earlier one among new symbols: an old symbol
gains new aliases only, and the aliases of a new symbol are new. -/
structure GrowsAliases (before after : SymbolTable) : Prop where
  size_le : before.size ≤ after.size
  old : ∀ id, id < before.size →
    (after.aliases id).filter (· < before.size) = before.aliases id
  new : ∀ id, ¬ id < before.size → ∀ newName ∈ after.aliases id, ¬ newName < before.size

theorem Grows.aliases_new {before after : SymbolTable} (h : before.Grows after)
    (linked : before.Linked) (linked' : after.Linked) : before.GrowsAliases after where
  size_le := h.size_le
  old := fun _ hid => h.filter_aliases linked linked' hid
  new := fun _ hid _ hmem => h.not_lt_of_mem_aliases linked linked' hid hmem

/-- The search in the later table is the search in the earlier one among new
symbols, which lead to new symbols only. -/
theorem search_grows {before after : SymbolTable} (h : before.GrowsAliases after)
    {exported : List SymbolId}
    (old : ∀ root ∈ exported, root < before.size) (visited queue : List SymbolId) :
    after.search exported visited queue
      = before.search exported (visited.filter (· < before.size))
          (queue.filter (· < before.size)) := by
  fun_induction after.search exported visited queue with
  | case1 visited => rw [List.filter_nil, search]
  -- root exports are old, so what is found was found before
  | case2 visited current queue fresh found =>
      have inside : current < before.size := old current ((isOneOf_eq_true_iff _ _).1 found)
      have fresh' : current < before.size
          ∧ ¬ isOneOf (visited.filter (· < before.size)) current = true := by
        refine ⟨inside, ?_⟩
        simpa [inside] using fresh.2
      rw [List.filter_cons_of_pos (by simpa using inside), search, if_pos fresh', if_pos found]
  | case3 visited current queue fresh missed ih =>
      rw [ih, List.filter_append]
      by_cases inside : current < before.size
      · have fresh' : current < before.size
            ∧ ¬ isOneOf (visited.filter (· < before.size)) current = true := by
          refine ⟨inside, ?_⟩
          simpa [inside] using fresh.2
        rw [List.filter_cons_of_pos (by simpa using inside),
          List.filter_cons_of_pos (by simpa using inside),
          h.old current inside,
          search.eq_2 before exported _ current, if_pos fresh', if_neg missed]
      -- the aliases of a new symbol are new, and all of them are filtered away
      · have none : (after.aliases current).filter (· < before.size) = [] := by
          apply List.filter_eq_nil_iff.2
          intro newName hnew
          simpa using h.new current inside newName hnew
        rw [List.filter_cons_of_neg (by simpa using inside),
          List.filter_cons_of_neg (by simpa using inside), none, List.append_nil]
  | case4 visited current queue skipped ih =>
      rw [ih]
      by_cases inside : current < before.size
      · have skipped' : ¬ (current < before.size
            ∧ ¬ isOneOf (visited.filter (· < before.size)) current = true) := by
          intro hn
          apply skipped
          refine ⟨Nat.lt_of_lt_of_le inside h.size_le, ?_⟩
          simpa [inside] using hn.2
        rw [List.filter_cons_of_pos (by simpa using inside),
          search.eq_2 before exported _ current, if_neg skipped']
      · rw [List.filter_cons_of_neg (by simpa using inside)]

theorem GrowsAliases.rootExport {before after : SymbolTable} (h : before.GrowsAliases after)
    {exported : List SymbolId} (old : ∀ root ∈ exported, root < before.size) {id : Nat}
    (hid : id < before.size) : after.rootExport exported id = before.rootExport exported id := by
  unfold SymbolTable.rootExport
  rw [search_grows h old, List.filter_nil, List.filter_cons_of_pos (by simpa using hid),
    List.filter_nil]

theorem rootExport_grows {before after : SymbolTable} (h : before.Grows after)
    (linked : before.Linked) (linked' : after.Linked) {exported : List SymbolId}
    (old : ∀ root ∈ exported, root < before.size) {id : Nat} (hid : id < before.size) :
    after.rootExport exported id = before.rootExport exported id :=
  (h.aliases_new linked linked').rootExport old hid

end FlatBundle.SymbolTable
