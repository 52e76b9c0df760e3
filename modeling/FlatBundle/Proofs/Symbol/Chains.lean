/-
  FlatBundle.Proofs.Symbol.Chains
  ───────────────────────────────
  **BOTH WALKS, IN ANY TABLE.**

  The walk along `exports` follows one chain, as a symbol exports one other at most.  It goes
  on until the chain ends or comes back to itself, so its steps are the longest chain without
  a repetition (`Follows.isLongest`).  Any two chains from one symbol are the beginning of one
  another (`prefix_or_prefix`), so there is one longest.

  Together with the search along `aliases` this says where the two walks end in a table whose
  links are arbitrary, with nothing that bounds their rounds (`walks_ofInRange`).
-/
import FlatBundle.Proofs.Symbol.Accrual
import Mathlib.Data.List.Chain
import Mathlib.Order.Bounds.Basic

namespace FlatBundle.SymbolTable

variable {table : SymbolTable} {exported : List SymbolId}

/-! ## §1. The walk along `exports` without a bound -/

/-- A walk from the symbols that have been visited and the current one, to the symbol at
which it stops. -/
inductive Follows (table : SymbolTable) : List SymbolId → SymbolId → SymbolId → Prop where
  | stop {visited : List SymbolId} {current : SymbolId} (h : table.exports current = none) :
      Follows table visited current current
  | back {visited : List SymbolId} {current next : SymbolId}
      (h : table.exports current = some next) (met : next ∈ visited) :
      Follows table visited current current
  | step {visited : List SymbolId} {current next last : SymbolId}
      (h : table.exports current = some next) (unmet : next ∉ visited)
      (rest : Follows table (next :: visited) next last) : Follows table visited current last

/-- **The walk ends**, wherever it is. -/
theorem follows_follow (inRange : table.InRange) (visited : List SymbolId) (current : SymbolId) :
    table.Follows visited current (table.follow visited current) := by
  fun_induction table.follow visited current with
  | case1 visited current stop => exact .stop stop
  | case2 visited current next step unmet ih => exact .step step (by simpa using unmet.2) ih
  | case3 visited current next step stop =>
      have inside : next < table.size := inRange.source_lt step
      exact .back step (by simpa [inside] using stop)

/-! ## §2. Chains -/

/-- Symbols each of which exports the next one, from a first one on. -/
structure IsChainFrom (table : SymbolTable) (start : SymbolId) (path : List SymbolId) : Prop where
  head : path.head? = some start
  links : path.IsChain fun id source => table.exports id = some source

theorem isChainFrom_self (start : SymbolId) : table.IsChainFrom start [start] :=
  ⟨rfl, List.isChain_singleton start⟩

theorem IsChainFrom.concat {start current next : SymbolId} {front : List SymbolId}
    (h : table.IsChainFrom start (front ++ [current])) (step : table.exports current = some next) :
    table.IsChainFrom start (front ++ [current] ++ [next]) where
  head := by
    rw [List.head?_append, h.head]
    rfl
  links := by
    refine List.isChain_append.2 ⟨h.links, List.isChain_singleton next, ?_⟩
    intro id hid source hsource
    rw [List.getLast?_concat] at hid
    cases hid
    cases hsource
    exact step

/-- Of two chains from one symbol, one is the beginning of the other. -/
theorem prefix_or_prefix {first : List SymbolId} : ∀ {second : List SymbolId} {start : SymbolId},
    table.IsChainFrom start first → table.IsChainFrom start second →
      first <+: second ∨ second <+: first := by
  induction first with
  | nil => exact fun _ _ => Or.inl List.nil_prefix
  | cons id first ih =>
      intro second start h h'
      cases second with
      | nil => exact Or.inr List.nil_prefix
      | cons id' second =>
          obtain rfl : id = start := Option.some.inj h.head
          obtain rfl : id' = id := Option.some.inj h'.head
          cases first with
          | nil => exact Or.inl (List.cons_prefix_cons.2 ⟨rfl, List.nil_prefix⟩)
          | cons next first =>
              cases second with
              | nil => exact Or.inr (List.cons_prefix_cons.2 ⟨rfl, List.nil_prefix⟩)
              | cons next' second =>
                  -- the symbol exports one other, so the chains go on alike
                  obtain ⟨step, links⟩ := List.isChain_cons_cons.1 h.links
                  obtain ⟨step', links'⟩ := List.isChain_cons_cons.1 h'.links
                  obtain rfl : next = next' := Option.some.inj (step.symm.trans step')
                  rcases ih ⟨rfl, links⟩ ⟨rfl, links'⟩ with shorter | longer
                  · exact Or.inl (List.cons_prefix_cons.2 ⟨rfl, shorter⟩)
                  · exact Or.inr (List.cons_prefix_cons.2 ⟨rfl, longer⟩)

/-- A chain without a repetition of which every other such chain is the beginning. -/
structure IsLongest (table : SymbolTable) (start : SymbolId) (path : List SymbolId) : Prop where
  chain : table.IsChainFrom start path
  nodup : path.Nodup
  longest : ∀ other, table.IsChainFrom start other → other.Nodup → other <+: path

/-- A chain that cannot go on without a repetition is the longest. -/
theorem isLongest_of_stuck {start current : SymbolId} {front : List SymbolId}
    (h : table.IsChainFrom start (front ++ [current])) (nodup : (front ++ [current]).Nodup)
    (stuck : ∀ next, table.exports current = some next → next ∈ front ++ [current]) :
    table.IsLongest start (front ++ [current]) where
  chain := h
  nodup := nodup
  longest := by
    intro other h' nodup'
    rcases prefix_or_prefix h h' with ⟨rest, rfl⟩ | shorter
    · cases rest with
      | nil => simp
      | cons next rest =>
          have step : table.exports current = some next :=
            (List.isChain_append.1 h'.links).2.2 current (by simp) next (by simp)
          have apart := (List.nodup_append.1 nodup').2.2 next (stuck next step) next
            List.mem_cons_self
          exact absurd rfl apart
    · exact shorter

/-- **The walk stops at the end of the longest chain.**  What it has visited is its chain so
far. -/
theorem Follows.isLongest {start current last : SymbolId} {visited : List SymbolId}
    (h : table.Follows visited current last) (front : List SymbolId)
    (same : ∀ id, id ∈ visited ↔ id ∈ front ++ [current])
    (chain : table.IsChainFrom start (front ++ [current])) (nodup : (front ++ [current]).Nodup) :
    ∃ path, table.IsLongest start path ∧ path.getLast? = some last := by
  induction h generalizing front with
  | @stop visited current stop =>
      refine ⟨front ++ [current], isLongest_of_stuck chain nodup fun next step => ?_, by simp⟩
      rw [stop] at step
      cases step
  | @back visited current next step met =>
      refine ⟨front ++ [current], isLongest_of_stuck chain nodup fun next' step' => ?_, by simp⟩
      obtain rfl : next = next' := Option.some.inj (step.symm.trans step')
      exact (same next).1 met
  | @step visited current next last step unmet _ ih =>
      refine ih (front ++ [current]) (fun id => ?_) (chain.concat step) ?_
      · rw [List.mem_cons, same id]
        simp only [List.mem_append, List.mem_singleton]
        exact or_comm
      · have new : next ∉ front ++ [current] := fun hmem => unmet ((same next).2 hmem)
        rw [List.nodup_append]
        refine ⟨nodup, by simp, fun id hid other hother => ?_⟩
        rw [List.mem_singleton.1 hother]
        exact fun same => new (same ▸ hid)

theorem exists_isLongest_declaration (inRange : table.InRange) (id : SymbolId) :
    ∃ path, table.IsLongest id path ∧ path.getLast? = some (table.declaration id) :=
  (follows_follow inRange [id] id).isLongest [] (fun _ => Iff.rfl) (isChainFrom_self id)
    (by simp)

/-! ## §3. Both walks -/

/-- What is reached along aliases is so many aliases away. -/
theorem reachesAlias_iff_level {id root : SymbolId} :
    table.ReachesAlias id root ↔ ∃ n, root ∈ table.level [id] n := by
  constructor
  · intro reaches
    induction reaches with
    | refl => exact ⟨0, List.mem_singleton.2 rfl⟩
    | @tail middle root _ hmem ih =>
        obtain ⟨n, hlevel⟩ := ih
        exact ⟨n + 1, List.mem_flatMap.2 ⟨middle, hlevel, hmem⟩⟩
  · rintro ⟨n, hlevel⟩
    induction n generalizing root with
    | zero =>
        rw [List.mem_singleton.1 hlevel]
        exact Relation.ReflTransGen.refl
    | succ n ih =>
        obtain ⟨middle, hmiddle, hmem⟩ := List.mem_flatMap.1 hlevel
        exact (ih hmiddle).tail hmem

/-- The root export is as near to the symbol along aliases as any, and the first of these in
the order of the lists of aliases. -/
def IsNearest (table : SymbolTable) (exported : List SymbolId) (id root : SymbolId) : Prop :=
  ∃ distance, IsLeast {n | ∃ other ∈ table.level [id] n, other ∈ exported} distance
    ∧ (table.level [id] distance).find? (· ∈ exported) = some root

theorem isNearest_iff {id root : SymbolId} :
    table.IsNearest exported id root ↔ ∃ distance, table.MetAt exported [id] distance root := by
  have same : isOneOf exported = fun other => decide (other ∈ exported) := by
    funext other
    rw [Bool.eq_iff_iff, isOneOf_eq_true_iff, decide_eq_true_iff]
  constructor
  · rintro ⟨distance, least, first⟩
    refine ⟨distance, fun n hn other hlevel hother => ?_, by rwa [same]⟩
    have le : distance ≤ n := least.2 ⟨other, hlevel, hother⟩
    omega
  · rintro ⟨distance, met⟩
    refine ⟨distance, ⟨⟨root, met.mem⟩, fun n hn => ?_⟩, same ▸ met.first⟩
    obtain ⟨other, hlevel, hother⟩ := hn
    by_contra less
    exact met.before n (by omega) other hlevel hother

/-- **Where the two walks from a symbol end**, whatever the links of the table are.  Along
aliases a root export is found if there is one to be reached, and then the nearest one, the
first in order among the nearest; along `exports` the last symbol of the longest chain that
has no repetition. -/
theorem walks_ofInRange (inRange : table.InRange) (exported : List SymbolId) {id : Nat}
    (bound : id < table.size) :
    table.Searches exported [] [id] (table.rootExport exported id)
      ∧ (table.rootExport exported id = none ↔ ∀ root ∈ exported, ¬ table.ReachesAlias id root)
      ∧ (∀ root, table.rootExport exported id = some root ↔ table.IsNearest exported id root)
      ∧ table.Follows [id] id (table.declaration id)
      ∧ ∃ path, table.IsLongest id path ∧ path.getLast? = some (table.declaration id) := by
  refine ⟨?_, ?_, fun root => ?_, follows_follow inRange [id] id,
    exists_isLongest_declaration inRange id⟩
  · exact searches_search inRange [] [id] (by simpa using bound)
  · rw [rootExport_eq_none_iff_level inRange bound]
    constructor
    · intro none root hroot reaches
      obtain ⟨n, hlevel⟩ := reachesAlias_iff_level.1 reaches
      exact none n root hlevel hroot
    · intro none n root hlevel hroot
      exact none root hroot (reachesAlias_iff_level.2 ⟨n, hlevel⟩)
  · rw [rootExport_eq_some_iff inRange bound, isNearest_iff]

/-- A table whose links run in circles, stand twice and do not agree in their directions. -/
def tangledTable : SymbolTable :=
  let symbols := ["A", "B", "C", "D"].foldl (fun table name => (table.symbolOf "./a" name).2) empty
  let first := symbols.modify 0 fun symbol =>
    { symbol with aliases := [1, 0, 1], exports := some 1 }
  let second := first.modify 1 fun symbol => { symbol with aliases := [3, 2], exports := some 2 }
  second.modify 2 fun symbol => { symbol with aliases := [0], exports := some 1 }

theorem walks_tangledTable :
    tangledTable.InRange ∧ 0 < tangledTable.size
      ∧ tangledTable.rootExport [2, 3] 0 = some 3
      ∧ tangledTable.IsNearest [2, 3] 0 3
      ∧ ∃ path, tangledTable.IsLongest 0 path ∧ path.getLast? = some 2 := by
  have inRange : tangledTable.InRange := by decide
  have bound : 0 < tangledTable.size := by decide
  obtain ⟨-, -, nearest, -, path, longest, last⟩ := walks_ofInRange inRange [2, 3] bound
  have found : tangledTable.rootExport [2, 3] 0 = some 3 := by decide +kernel
  have stopped : tangledTable.declaration 0 = 2 := by decide +kernel
  exact ⟨inRange, bound, found, (nearest 3).1 found, path, longest, stopped ▸ last⟩

end FlatBundle.SymbolTable
