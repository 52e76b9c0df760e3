/-
  FlatBundle.Proofs.Run.Soundness
  ───────────────────────────────
  **WHAT HOLDS OF A RUN AT ANY MOMENT.**

  A run is `Sound` for a host and a root if its store answers with the documents
  of the host, its links are recorded in both directions, and every symbol belongs
  to a module whose exports are known or are being resolved.  The small steps of a
  run keep it sound; what they may do to names and known exports is `Keeps`.
-/
import FlatBundle.Proofs.NormalForm
import FlatBundle.Proofs.Run.Steps
import FlatBundle.Proofs.Symbol.Identity

namespace FlatBundle

variable {host : Host} {root : String}

/-! ## §1. Sound runs -/

/-- The symbol is for a name of the module. -/
def SymbolTable.BelongsTo (table : SymbolTable) (module : String) (id : SymbolId) : Prop :=
  ∃ name, table.key? id = some (module, name)

/-- A symbol is one that there was before a name was asked for, or the one for that
name. -/
theorem SymbolTable.BelongsTo.of_symbolOf {table : SymbolTable} {source name module : String}
    {id : SymbolId} (h : (table.symbolOf source name).2.BelongsTo module id) :
    table.BelongsTo module id ∨ module = source := by
  obtain ⟨name', hk⟩ := h
  rcases table.symbolOf_cases source name with ⟨_, -, same⟩ | ⟨new, same⟩
  · rw [same] at hk
    exact Or.inl ⟨name', hk⟩
  · rw [same, SymbolTable.key?, SymbolTable.get?_push] at hk
    split at hk
    · simp only [Option.map_some, Option.some.injEq, Prod.mk.injEq] at hk
      exact Or.inr hk.1.symm
    · exact Or.inl ⟨name', hk⟩

/-- The exports of the module are resolved, or are being resolved. -/
def Run.Knows (run : Run) (module : String) : Prop :=
  (run.resolved.get? module).isSome ∨ module ∈ run.inProgress

/-- What holds of a run at any moment, for a host and a root. -/
structure Run.Sound (host : Host) (root : String) (run : Run) : Prop where
  host_eq : run.store.host = host
  root_eq : run.store.root = root
  faithful : run.store.Faithful
  linked : run.symbols.Linked
  /-- There is no symbol of a module that has not been entered. -/
  knows : ∀ id module, run.symbols.BelongsTo module id → run.Knows module
  /-- What a module exports belongs to it. -/
  lists : ∀ module ids, run.resolved.get? module = some ids →
    ids.Nodup ∧ ∀ id ∈ ids, run.symbols.BelongsTo module id
  /-- What an alias exports belongs to a module in normal form. -/
  normal : ∀ id source module, run.symbols.exports id = some source →
    run.symbols.BelongsTo module source → ModulePath.IsNormal module

theorem Run.sound_start (host : Host) (root : String) : (Run.start host root).Sound host root where
  host_eq := rfl
  root_eq := rfl
  faithful := Store.faithful_new host root
  linked := SymbolTable.linked_empty
  knows := by
    intro id module hstep
    obtain ⟨name, h⟩ := hstep
    exact absurd (SymbolTable.lt_size_of_key? h) (Nat.not_lt_zero id)
  lists := by
    intro module ids h
    cases h
  normal := by
    intro id source module h _
    exact absurd (SymbolTable.lt_size_of_exports h) (Nat.not_lt_zero id)

/-! ## §2. Small steps -/

/-- The links and the names of the symbols are all that a sound run says of them. -/
theorem Run.Sound.of_same_links {run : Run} (sound : run.Sound host root) {symbols : SymbolTable}
    {log : List Step} (same : run.symbols.SameLinks symbols) :
    Run.Sound host root { run with symbols := symbols, log := log } := by
  -- the names are the same, so symbols belong to the same modules
  have belongs : ∀ module id, symbols.BelongsTo module id ↔ run.symbols.BelongsTo module id := by
    intro module id
    rw [SymbolTable.BelongsTo, SymbolTable.BelongsTo, same.key?]
  refine ⟨sound.host_eq, sound.root_eq, sound.faithful,
    same.linked sound.linked, ?_, ?_, ?_⟩
  · intro id module hb
    exact sound.knows id module ((belongs module id).1 hb)
  · intro module ids hr
    obtain ⟨nodup, owned⟩ := sound.lists module ids hr
    exact ⟨nodup, fun id hid => (belongs module id).2 (owned id hid)⟩
  · intro id source module hl hb
    have link := (same.exports id).symm.trans hl
    exact sound.normal id source module link ((belongs module source).1 hb)

theorem Run.Sound.reads {run : Run} (sound : run.Sound host root) : run.Reads host root :=
  ⟨sound.host_eq, sound.root_eq, sound.faithful⟩

/-- It does not matter what the log says. -/
theorem Run.Sound.noted {run : Run} (sound : run.Sound host root) (log : List Step) :
    Run.Sound host root { run with log := log } :=
  ⟨sound.host_eq, sound.root_eq, sound.faithful, sound.linked, sound.knows, sound.lists,
    sound.normal⟩

/-- A document is looked at. -/
theorem Run.Sound.document {run : Run} (sound : run.Sound host root) (module : String) :
    RunM.Ensures (RunM.document module) run fun document run' =>
      document = host.sources root module ∧ run'.Sound host root
        ∧ run' = (Step.document module).apply run := by
  obtain ⟨answer, reads⟩ := sound.reads.document module
  exact ⟨answer, ⟨reads.host_eq, reads.root_eq, reads.faithful, sound.linked, sound.knows,
    sound.lists, sound.normal⟩, rfl⟩

/-- The run in which a module has been entered and its document looked at. -/
def Run.inside (run : Run) (module : String) : Run :=
  (Step.document module).apply ((Step.enter module).apply run)

/-- The symbol for a name of a known module is looked up or created. -/
theorem Run.Sound.symbolOf {run : Run} (sound : run.Sound host root) {source : String}
    (hsource : run.Knows source) (name : String) :
    ((Step.symbolOf source name).apply run).Sound host root := by
  have grows := (SymbolTable.Extends.symbolOf run.symbols source name).grows
  have links : ∀ id, (run.symbols.symbolOf source name).2.exports id = run.symbols.exports id := by
    intro id
    rcases run.symbols.symbolOf_cases source name with ⟨_, -, same⟩ | ⟨new, same⟩
    · rw [same]
    · rw [same, SymbolTable.exports_push]
  refine ⟨sound.host_eq, sound.root_eq, sound.faithful, sound.linked.symbolOf source name,
    ?_, ?_, ?_⟩
  · intro id other hb
    rcases hb.of_symbolOf with old | rfl
    · exact sound.knows id other old
    · exact hsource
  · intro other ids hr
    obtain ⟨nodup, owned⟩ := sound.lists other ids hr
    refine ⟨nodup, fun id hid => ?_⟩
    obtain ⟨name', hk⟩ := owned id hid
    exact ⟨name', grows.key?_eq_some hk⟩
  · intro id target other hl hb
    have hl' : run.symbols.exports id = some target := (links id).symm.trans hl
    obtain ⟨name', hk⟩ := hb
    have bound := sound.linked.lt_size_of_exports hl'
    exact sound.normal id target other hl' ⟨name', (grows.key? target bound).symm.trans hk⟩

/-! ## §3. What is kept -/

/-- Names that symbols have, and exports that modules have, are kept. -/
structure Run.Keeps (before after : Run) : Prop where
  key? : ∀ id key, before.symbols.key? id = some key → after.symbols.key? id = some key
  resolved : ∀ module ids, before.resolved.get? module = some ids →
    after.resolved.get? module = some ids

theorem Run.Keeps.refl (run : Run) : run.Keeps run := ⟨fun _ _ h => h, fun _ _ h => h⟩

theorem Run.Keeps.trans {first second third : Run} (h : first.Keeps second)
    (h' : second.Keeps third) : first.Keeps third :=
  ⟨fun id key hk => h'.key? id key (h.key? id key hk),
    fun module ids hr => h'.resolved module ids (h.resolved module ids hr)⟩

theorem Run.Keeps.belongsTo {before after : Run} (h : before.Keeps after) {module : String}
    {id : SymbolId} (hb : before.symbols.BelongsTo module id) :
    after.symbols.BelongsTo module id := by
  obtain ⟨name, hk⟩ := hb
  exact ⟨name, h.key? id _ hk⟩

theorem Run.Keeps.knows {before after : Run} (h : before.Keeps after)
    (stack : after.inProgress = before.inProgress) {module : String} (hk : before.Knows module) :
    after.Knows module := by
  rcases hk with known | entered
  · obtain ⟨ids, hr⟩ := Option.isSome_iff_exists.1 known
    exact Or.inl (by rw [h.resolved module ids hr]; rfl)
  · exact Or.inr (stack ▸ entered)

end FlatBundle
