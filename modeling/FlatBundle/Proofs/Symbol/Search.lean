/-
  FlatBundle.Proofs.Symbol.Search
  ───────────────────────────────
  **THE SEARCH ALONG ALIASES, IN ANY TABLE.**

  A table may hold any links: in circles, twice, and recorded in one direction only.  All that
  is asked of it is that its links stay inside (`InRange`).

  The search takes symbols from the front of a queue, passes over those that it has looked at
  before, and puts the aliases of the others at the end.  `level` has the symbols so many
  aliases away in the order of this queue, with repetitions; the search finds the first root
  export of the first level that has one (`Searches.answers`).  Two facts carry the proof:

    • looking at the front symbol and taking its aliases behind the queue reads the same
      levels (`Answers.of_missed`),
    • a symbol that was looked at before may be passed over, since whatever it leads to is
      led to by a symbol that still waits, in fewer steps (`exists_lt_of_swept`).
-/
import FlatBundle.Symbol.Canonical

namespace FlatBundle.SymbolTable

/-! ## §1. Links that stay inside -/

/-- Every link of the table leads to a symbol of the table. -/
def InRange (table : SymbolTable) : Prop :=
  ∀ symbol ∈ table.toList, (∀ newName ∈ symbol.aliases, newName < table.size)
    ∧ ∀ source ∈ symbol.exports, source < table.size

instance (table : SymbolTable) : Decidable table.InRange :=
  inferInstanceAs (Decidable (∀ symbol ∈ table.toList, _))

variable {table : SymbolTable} {exported : List SymbolId}

theorem mem_toList_of_get? {id : SymbolId} {symbol : Symbol} (h : table.get? id = some symbol) :
    symbol ∈ table.toList := by
  unfold get? at h
  exact Array.mem_toList_iff.2 (Array.mem_of_getElem? h)

theorem InRange.alias_lt (inRange : table.InRange) {id newName : SymbolId}
    (h : newName ∈ table.aliases id) : newName < table.size := by
  unfold aliases at h
  split at h
  · next symbol found => exact (inRange symbol (mem_toList_of_get? found)).1 newName h
  · cases h

theorem InRange.source_lt (inRange : table.InRange) {id source : SymbolId}
    (h : table.exports id = some source) : source < table.size := by
  obtain ⟨symbol, found, link⟩ := Option.bind_eq_some_iff.1 h
  exact (inRange symbol (mem_toList_of_get? found)).2 source link

theorem inRange_of (aliases : ∀ id newName, newName ∈ table.aliases id → newName < table.size)
    (exports : ∀ id source, table.exports id = some source → source < table.size) :
    table.InRange := by
  intro symbol hsymbol
  obtain ⟨id, found⟩ := Array.mem_iff_getElem?.1 (Array.mem_toList_iff.1 hsymbol)
  refine ⟨fun newName hmem => aliases id newName ?_, fun source link => exports id source ?_⟩
  · rw [SymbolTable.aliases, get?, found]
    exact hmem
  · rw [SymbolTable.exports, get?, found]
    exact link

/-! ## §2. The search without a bound -/

/-- A search from symbols that have been looked at and a queue, to what it finds.  Nothing
bounds its rounds, and nothing keeps it from numbers of no symbols. -/
inductive Searches (table : SymbolTable) (exported : List SymbolId) :
    List SymbolId → List SymbolId → Option SymbolId → Prop where
  | empty (visited : List SymbolId) : Searches table exported visited [] none
  | again {visited queue : List SymbolId} {current : SymbolId} {result : Option SymbolId}
      (seen : current ∈ visited) (rest : Searches table exported visited queue result) :
      Searches table exported visited (current :: queue) result
  | found {visited queue : List SymbolId} {current : SymbolId} (fresh : current ∉ visited)
      (h : current ∈ exported) : Searches table exported visited (current :: queue) (some current)
  | missed {visited queue : List SymbolId} {current : SymbolId} {result : Option SymbolId}
      (fresh : current ∉ visited) (h : current ∉ exported)
      (rest : Searches table exported (current :: visited) (queue ++ table.aliases current)
        result) :
      Searches table exported visited (current :: queue) result

/-- **The search ends**, from any queue of symbols of the table. -/
theorem searches_search (inRange : table.InRange) (visited queue : List SymbolId)
    (bound : ∀ id ∈ queue, id < table.size) :
    table.Searches exported visited queue (table.search exported visited queue) := by
  fun_induction table.search exported visited queue with
  | case1 visited => exact .empty visited
  | case2 visited current queue fresh found =>
      exact .found (by simpa using fresh.2) (by simpa using found)
  | case3 visited current queue fresh missed ih =>
      refine .missed (by simpa using fresh.2) (by simpa using missed) (ih fun id hid => ?_)
      rcases List.mem_append.1 hid with hid | hid
      · exact bound id (List.mem_cons_of_mem _ hid)
      · exact inRange.alias_lt hid
  | case4 visited current queue skipped ih =>
      have inside := bound current List.mem_cons_self
      exact .again (by simpa [inside] using skipped)
        (ih fun id hid => bound id (List.mem_cons_of_mem _ hid))

/-! ## §3. Levels -/

/-- The symbols that are so many aliases away from the queue, in the order of the queue and
of the lists of aliases, and as often as there are ways to them. -/
def level (table : SymbolTable) (queue : List SymbolId) : Nat → List SymbolId
  | 0 => queue
  | n + 1 => (table.level queue n).flatMap table.aliases

theorem level_succ (queue : List SymbolId) (n : Nat) :
    table.level queue (n + 1) = table.level (queue.flatMap table.aliases) n := by
  induction n with
  | zero => rfl
  | succ n ih =>
      show (table.level queue (n + 1)).flatMap table.aliases = _
      rw [ih]
      rfl

theorem level_append (first second : List SymbolId) (n : Nat) :
    table.level (first ++ second) n = table.level first n ++ table.level second n := by
  induction n with
  | zero => rfl
  | succ n ih =>
      show (table.level (first ++ second) n).flatMap table.aliases = _
      rw [ih, List.flatMap_append]
      rfl

theorem level_nil (n : Nat) : table.level [] n = [] := by
  induction n with
  | zero => rfl
  | succ n ih =>
      show (table.level [] n).flatMap table.aliases = _
      rw [ih]
      rfl

theorem level_cons (id : SymbolId) (queue : List SymbolId) (n : Nat) :
    table.level (id :: queue) n = table.level [id] n ++ table.level queue n :=
  level_append [id] queue n

/-- The aliases of a symbol read its own levels, from the next one on. -/
theorem level_aliases (id : SymbolId) (n : Nat) :
    table.level (table.aliases id) n = table.level [id] (n + 1) := by
  rw [level_succ]
  simp

/-- What is on a level of a queue is on that level of one of its symbols. -/
theorem mem_level_iff {queue : List SymbolId} {n : Nat} {root : SymbolId} :
    root ∈ table.level queue n ↔ ∃ id ∈ queue, root ∈ table.level [id] n := by
  induction queue with
  | nil => simp [level_nil]
  | cons id queue ih =>
      rw [level_cons, List.mem_append, ih]
      simp

/-! ## §4. What the search finds -/

/-- No root export is so many aliases away from the queue. -/
def NoneOn (table : SymbolTable) (exported queue : List SymbolId) (n : Nat) : Prop :=
  ∀ id ∈ table.level queue n, id ∉ exported

/-- The symbol is the first root export of its level, and no level before has any. -/
structure MetAt (table : SymbolTable) (exported queue : List SymbolId) (distance : Nat)
    (root : SymbolId) : Prop where
  before : ∀ n < distance, table.NoneOn exported queue n
  first : (table.level queue distance).find? (isOneOf exported) = some root

/-- What a search along the queue is to find. -/
def Answers (table : SymbolTable) (exported queue : List SymbolId) : Option SymbolId → Prop
  | none => ∀ n, table.NoneOn exported queue n
  | some root => ∃ distance, table.MetAt exported queue distance root

/-- What has been looked at is no root export, and its aliases have been looked at or wait. -/
def Swept (table : SymbolTable) (exported visited queue : List SymbolId) : Prop :=
  ∀ id ∈ visited, id ∉ exported ∧ ∀ newName ∈ table.aliases id, newName ∈ visited ∨ newName ∈ queue

theorem noneOn_iff_find? {queue : List SymbolId} {n : Nat} :
    table.NoneOn exported queue n ↔ (table.level queue n).find? (isOneOf exported) = none := by
  simp [NoneOn, List.find?_eq_none]

theorem noneOn_append (first second : List SymbolId) {n : Nat} :
    table.NoneOn exported (first ++ second) n
      ↔ table.NoneOn exported first n ∧ table.NoneOn exported second n := by
  unfold NoneOn
  rw [level_append]
  exact List.forall_mem_append

theorem noneOn_cons {id : SymbolId} {queue : List SymbolId} {n : Nat} :
    table.NoneOn exported (id :: queue) n
      ↔ table.NoneOn exported [id] n ∧ table.NoneOn exported queue n :=
  noneOn_append [id] queue

theorem noneOn_aliases {id : SymbolId} {n : Nat} :
    table.NoneOn exported (table.aliases id) n ↔ table.NoneOn exported [id] (n + 1) := by
  unfold NoneOn
  rw [level_aliases]

theorem MetAt.mem {queue : List SymbolId} {distance : Nat} {root : SymbolId}
    (h : table.MetAt exported queue distance root) :
    root ∈ table.level queue distance ∧ root ∈ exported := by
  refine ⟨List.mem_of_find?_eq_some h.first, ?_⟩
  have isRoot := List.find?_some h.first
  simpa using isRoot

/-- A symbol in front changes nothing if no root export is as near to it. -/
theorem MetAt.cons {queue : List SymbolId} {distance : Nat} {root current : SymbolId}
    (h : table.MetAt exported queue distance root)
    (nothing : ∀ n ≤ distance, table.NoneOn exported [current] n) :
    table.MetAt exported (current :: queue) distance root where
  before := fun n hn => noneOn_cons.2 ⟨nothing n (Nat.le_of_lt hn), h.before n hn⟩
  first := by
    rw [level_cons, List.find?_append, noneOn_iff_find?.1 (nothing distance (Nat.le_refl distance)),
      h.first]
    rfl

/-- Without a root export behind the aliases of a symbol, there is none behind the symbol. -/
theorem noneOn_of_missed {queue : List SymbolId} {current : SymbolId} (missed : current ∉ exported)
    {bound : Nat} (h : ∀ n < bound, table.NoneOn exported (queue ++ table.aliases current) n) :
    ∀ n ≤ bound, table.NoneOn exported [current] n := by
  intro n hn
  cases n with
  | zero => simpa [NoneOn, level] using missed
  | succ n => exact noneOn_aliases.1 ((noneOn_append _ _).1 (h n (by omega))).2

/-- A symbol that is no root export may be taken from the front of the queue, if its aliases
are put behind. -/
theorem Answers.of_missed {queue : List SymbolId} {current : SymbolId} {result : Option SymbolId}
    (missed : current ∉ exported)
    (h : table.Answers exported (queue ++ table.aliases current) result) :
    table.Answers exported (current :: queue) result := by
  cases result with
  | none =>
      intro n
      have nothing := noneOn_of_missed missed (fun m (_ : m < n) => h m) n (Nat.le_refl n)
      exact noneOn_cons.2 ⟨nothing, ((noneOn_append _ _).1 (h n)).1⟩
  | some root =>
      obtain ⟨distance, before, first⟩ := h
      have nothing := noneOn_of_missed missed before
      have queued : ∀ n < distance, table.NoneOn exported queue n :=
        fun n hn => ((noneOn_append _ _).1 (before n hn)).1
      rw [level_append, level_aliases, List.find?_append] at first
      -- the root export waits in the queue, or is one level further from the front symbol
      cases here : (table.level queue distance).find? (isOneOf exported) with
      | some other =>
          rw [here] at first
          exact ⟨distance, MetAt.cons ⟨queued, here.trans first⟩ nothing⟩
      | none =>
          rw [here] at first
          have further : (table.level [current] (distance + 1)).find? (isOneOf exported)
              = some root := first
          refine ⟨distance + 1, fun n hn => noneOn_cons.2 ⟨nothing n (by omega), ?_⟩, ?_⟩
          · by_cases last : n = distance
            · subst last
              exact noneOn_iff_find?.2 here
            · exact queued n (by omega)
          · rw [level_cons, List.find?_append, further]
            rfl

/-- A root export that is reached from a symbol looked at before is nearer to the queue. -/
theorem exists_lt_of_swept {visited queue : List SymbolId}
    (swept : table.Swept exported visited queue) {start root : SymbolId} (hroot : root ∈ exported)
    {n : Nat} (hstart : start ∈ visited) (h : root ∈ table.level [start] n) :
    ∃ m < n, root ∈ table.level queue m := by
  induction n generalizing start with
  | zero =>
      rw [List.mem_singleton.1 h] at hroot
      exact absurd hroot (swept start hstart).1
  | succ n ih =>
      rw [← level_aliases, mem_level_iff] at h
      obtain ⟨next, hnext, hlevel⟩ := h
      rcases (swept start hstart).2 next hnext with seen | waits
      · obtain ⟨m, hm, nearer⟩ := ih seen hlevel
        exact ⟨m, by omega, nearer⟩
      · exact ⟨n, by omega, mem_level_iff.2 ⟨next, waits, hlevel⟩⟩

/-- A symbol that was looked at before may be passed over. -/
theorem Answers.of_again {visited queue : List SymbolId} {current : SymbolId}
    {result : Option SymbolId} (swept : table.Swept exported visited queue)
    (seen : current ∈ visited) (h : table.Answers exported queue result) :
    table.Answers exported (current :: queue) result := by
  cases result with
  | none =>
      intro n
      refine noneOn_cons.2 ⟨fun root hlevel hroot => ?_, h n⟩
      obtain ⟨m, -, nearer⟩ := exists_lt_of_swept swept hroot seen hlevel
      exact h m root nearer hroot
  | some root =>
      obtain ⟨distance, met⟩ := h
      refine ⟨distance, met.cons fun n hn other hlevel hother => ?_⟩
      obtain ⟨m, hm, nearer⟩ := exists_lt_of_swept swept hother seen hlevel
      exact met.before m (by omega) other nearer hother

/-- **A search finds the first root export of the first level that has one.** -/
theorem Searches.answers {visited queue : List SymbolId} {result : Option SymbolId}
    (h : table.Searches exported visited queue result)
    (swept : table.Swept exported visited queue) : table.Answers exported queue result := by
  induction h with
  | empty visited =>
      intro n id hid
      rw [level_nil] at hid
      cases hid
  | @again visited queue current result seen _ ih =>
      -- the symbol does not wait any more, but it has been looked at
      have swept' : table.Swept exported visited queue := by
        intro id hid
        refine ⟨(swept id hid).1, fun newName hnew => ?_⟩
        rcases (swept id hid).2 newName hnew with met | waits
        · exact Or.inl met
        · rcases List.mem_cons.1 waits with rfl | waits
          · exact Or.inl seen
          · exact Or.inr waits
      exact Answers.of_again swept' seen (ih swept')
  | @found visited queue current fresh h =>
      refine ⟨0, by simp, ?_⟩
      show (current :: queue).find? (isOneOf exported) = some current
      rw [List.find?_cons_of_pos (by simpa using h)]
  | @missed visited queue current result fresh h _ ih =>
      refine Answers.of_missed h (ih fun id hid => ?_)
      rcases List.mem_cons.1 hid with rfl | hid
      · exact ⟨h, fun newName hnew => Or.inr (List.mem_append_right _ hnew)⟩
      · refine ⟨(swept id hid).1, fun newName hnew => ?_⟩
        rcases (swept id hid).2 newName hnew with met | waits
        · exact Or.inl (List.mem_cons_of_mem _ met)
        · rcases List.mem_cons.1 waits with rfl | waits
          · exact Or.inl List.mem_cons_self
          · exact Or.inr (List.mem_append_left _ waits)

theorem answers_rootExport (inRange : table.InRange) {id : Nat} (bound : id < table.size) :
    table.Answers exported [id] (table.rootExport exported id) :=
  Searches.answers (searches_search inRange [] [id] (by simpa using bound)) (by simp [Swept])

/-- There is one first root export. -/
theorem MetAt.unique {queue : List SymbolId} {distance distance' : Nat} {root root' : SymbolId}
    (h : table.MetAt exported queue distance root)
    (h' : table.MetAt exported queue distance' root') : root = root' := by
  have same : distance = distance' := by
    rcases Nat.lt_trichotomy distance distance' with less | same | more
    · exact absurd h.mem.2 (h'.before distance less root h.mem.1)
    · exact same
    · exact absurd h'.mem.2 (h.before distance' more root' h'.mem.1)
  subst same
  exact Option.some.inj (h.first.symm.trans h'.first)

theorem rootExport_eq_some_iff (inRange : table.InRange) {id root : Nat} (bound : id < table.size) :
    table.rootExport exported id = some root
      ↔ ∃ distance, table.MetAt exported [id] distance root := by
  have answers : table.Answers exported [id] (table.rootExport exported id) :=
    answers_rootExport inRange bound
  constructor
  · intro found
    rwa [found] at answers
  · rintro ⟨distance, met⟩
    cases found : table.rootExport exported id with
    | none =>
        rw [found] at answers
        exact absurd met.mem.2 (answers distance root met.mem.1)
    | some other =>
        rw [found] at answers
        obtain ⟨_, met'⟩ := answers
        rw [met'.unique met]

theorem rootExport_eq_none_iff_level (inRange : table.InRange) {id : Nat}
    (bound : id < table.size) :
    table.rootExport exported id = none ↔ ∀ n, ∀ root ∈ table.level [id] n, root ∉ exported := by
  have answers : table.Answers exported [id] (table.rootExport exported id) :=
    answers_rootExport inRange bound
  constructor
  · intro found
    rwa [found] at answers
  · intro none
    cases found : table.rootExport exported id with
    | none => rfl
    | some root =>
        rw [found] at answers
        obtain ⟨distance, met⟩ := answers
        exact absurd met.mem.2 (none distance root met.mem.1)

end FlatBundle.SymbolTable
