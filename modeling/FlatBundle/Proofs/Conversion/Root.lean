/-
  FlatBundle.Proofs.Conversion.Root
  ─────────────────────────────────
  **EVERYTHING THAT THE ROOT EXPORTS IS CONVERTED.**

  Before the root is bundled, nothing but exports has been resolved
  (`Run.Exporting`), in any order and as often as one likes.  Afterwards the run is
  `Converted`: the values that have been asked for are complete, and they are the
  ones that the exports of the root need, directly or through others.  This is so with
  any computation below the last level of conversion (`convertRootWithin`).
-/
import FlatBundle.Bundle
import FlatBundle.Proofs.Conversion.Symbols

namespace FlatBundle

variable {host : Host} {root : String} {exported : List SymbolId}

/-! ## §1. Before the root is bundled -/

/-- A run in which exports have been resolved, and nothing else. -/
structure Run.Exporting (host : Host) (root : String) (run : Run) : Prop where
  sound : run.Sound host root
  idle : run.inProgress = []
  open_ : ∀ id, run.symbols.canonical? id = none
  unasked : ∀ id, run.symbols.isReferenced id = false
  empty : ∀ id, run.symbols.value? id = none
  unnamed : ∀ id, run.symbols.privateName? id = none
  traced : (host.sources root).Acyclic → run.Traced (host.sources root)

theorem Run.exporting_start (host : Host) (root : String) :
    (Run.start host root).Exporting host root where
  sound := Run.sound_start host root
  idle := rfl
  open_ := fun _ => rfl
  unasked := fun _ => rfl
  empty := fun _ => rfl
  unnamed := fun _ => rfl
  traced := fun _ => Run.traced_start (host.sources root) host root

/-- The exports of a module are resolved. -/
theorem Run.Exporting.exportAll {run : Run} (h : run.Exporting host root) (module : String) :
    RunM.Ensures (exportAll module) run fun result later =>
      later.Exporting host root ∧ later.resolved.get? module = some result := by
  refine (traces_exportAll h.sound h.idle h.traced module).mono ?_
  intro result later hstep
  obtain ⟨hout, traced'⟩ := hstep
  refine ⟨⟨hout.sound, hout.stack.trans h.idle, ?_, ?_, ?_, ?_, traced'⟩,
    hout.resolved_of_idle h.idle⟩
  · exact fun id => (hout.symbols.canonical? id).trans (h.open_ id)
  · exact fun id => (hout.symbols.isReferenced id).trans (h.unasked id)
  · exact fun id => (hout.symbols.value? id).trans (h.empty id)
  · exact fun id => (hout.symbols.privateName? id).trans (h.unnamed id)

/-- It does not matter what the log says. -/
theorem Run.Exporting.noted {run : Run} (h : run.Exporting host root) (log : List Step) :
    Run.Exporting host root { run with log := log } where
  sound := h.sound.noted log
  idle := h.idle
  open_ := h.open_
  unasked := h.unasked
  empty := h.empty
  unnamed := h.unnamed
  traced := fun acyclic =>
    ⟨(h.traced acyclic).links, (h.traced acyclic).origins, (h.traced acyclic).lists⟩

/-- The exports of a module are asked for. -/
theorem Run.Exporting.askExports {run : Run} (h : run.Exporting host root) (module : String) :
    RunM.Ensures (askExports module) run fun result later =>
      later.Exporting host root ∧ later.resolved.get? module = some result := by
  refine RunM.Ensures.askExports ((h.exportAll module).mono fun result later hstep => ?_)
  obtain ⟨exporting, known⟩ := hstep
  exact ⟨exporting.noted _, known⟩

/-- The exports of many modules are asked for, one after the other. -/
theorem Run.Exporting.forM {run : Run} (h : run.Exporting host root) (modules : List String) :
    RunM.Ensures (modules.forM fun module => do let _ ← FlatBundle.askExports module) run
      fun _ later => later.Exporting host root := by
  refine RunM.Ensures.forM (fun later => later.Exporting host root) modules h ?_
  intro module _ later hlater
  refine RunM.Ensures.bind (hlater.askExports module) ?_
  intro _ final hstep
  obtain ⟨hfinal, -⟩ := hstep
  exact RunM.Ensures.pure hfinal

/-! ## §2. The root -/

/-- The identities of all symbols are stored. -/
theorem Run.Exporting.settleSymbols {run : Run} (h : run.Exporting host root)
    (known : run.resolved.get? (rootModule root) = some exported) :
    RunM.Ensures (settleSymbols exported) run fun _ later =>
      later.Settled host root exported ∧ run.Prepares later := by
  -- nothing is stored or asked for yet, so most of it holds of nothing
  have roots : ((Step.roots exported).apply run).Settled host root exported := by
    refine ⟨⟨h.sound.host_eq, h.sound.root_eq, h.sound.faithful, h.sound.linked, h.sound.knows,
      h.sound.lists, h.sound.normal⟩, h.idle, rfl, known, ?_, ?_, fun id _ => h.empty id, h.unnamed,
      fun acyclic => ?_⟩
    · intro id canonical hc
      cases (h.open_ id).symm.trans hc
    · intro id hid
      cases (h.unasked id).symm.trans hid
    · exact ⟨(h.traced acyclic).links, (h.traced acyclic).origins, (h.traced acyclic).lists⟩
  refine RunM.Ensures.bindPerform (RunM.Ensures.bindGet ?_)
  refine RunM.Ensures.forM (fun later => later.Settled host root exported ∧ run.Prepares later) _
    ⟨roots, Run.Prepares.of_symbols_eq rfl⟩ ?_
  intro id hid later hstep
  obtain ⟨settled, prepares⟩ := hstep
  have bound : id < run.symbols.size := List.mem_range.1 hid
  obtain rfl := settled.rootExports
  obtain ⟨settled', prepares', -⟩ :=
    settled.settle (Nat.lt_of_lt_of_le bound prepares.grows.size_le) rfl
  exact ⟨settled', prepares.trans prepares'⟩

/-- A run in which everything that the root exports has been converted. -/
structure Run.Converted (host : Host) (root : String) (exported : List SymbolId) (run : Run) :
    Prop where
  settled : run.Settled host root exported
  roots : ∀ id ∈ exported, run.symbols.isReferenced id = true
  complete : ∀ id, run.symbols.isReferenced id = true →
    run.symbols.Complete (host.sources root) exported id (run.symbols.value? id)
  needed : ∀ id, run.symbols.isReferenced id = true → ∃ first ∈ exported,
    Relation.ReflTransGen (run.symbols.Needs (host.sources root) exported) first id

/-- Convert the value of a symbol's identity, with `bottom` below the last level. -/
def convertSymbolWithin (bottom : SymbolId → ConvertM Unit) (id : SymbolId) : ConvertM Unit := do
  convertOnce^[conversionDepth (← get)] bottom id

/-- Convert everything, with `bottom` below the last level. -/
def convertRootWithin (bottom : SymbolId → ConvertM Unit) (root : String) :
    ConvertM (List SymbolId) := do
  let exported ← FlatBundle.askExports (rootModule root)
  settleSymbols exported
  exported.forM (convertSymbolWithin bottom)
  return exported

theorem convertRootWithin_nothing (root : String) :
    convertRootWithin (fun _ => return ()) root = convertRoot root := by
  have same : (convertSymbolWithin fun _ => return ()) = convertSymbol := by
    funext id
    unfold convertSymbolWithin convertSymbol
    simp only [convertNested_eq_iterate]
  rw [convertRootWithin, same]
  rfl

/-- The values of the root's exports are converted. -/
theorem Run.Settled.convertExports {run : Run} (h : run.Settled host root exported)
    (unasked : ∀ id, run.symbols.isReferenced id = false) (bottom : SymbolId → ConvertM Unit) :
    ConvertM.Yields (exported.forM (convertSymbolWithin bottom)) run fun _ later =>
      later.Converted host root exported := by
  -- what has been asked for is needed by the roots walked so far
  let asked : SymbolTable → SymbolId → Prop := fun table first =>
    ∃ id ∈ exported, first = (table.canonicalize exported id).symbol
  refine ConvertM.Yields.forM (fun walked later =>
      run.Converts host root exported asked later
        ∧ ∀ id ∈ walked, later.symbols.isReferenced id = true)
    exported ⟨Run.Converts.of_prepares h (Run.Prepares.refl run), by simp⟩ ?_ ?_
  · intro walked id rest later split hstep
    obtain ⟨converts, marks⟩ := hstep
    have settled := converts.settled
    have hid : id ∈ exported := by simp [split]
    -- the depth is fixed by the documents, whatever the run has come to
    have enough : host.placeCount exported
        < conversionDepth later + (later.symbols.occupied (host.sources root)).card := by
      rw [settled.conversionDepth_eq]
      omega
    have placed : later.symbols.IsPlaced root id :=
      ⟨rootModule root, settled.owned id hid, Or.inr rfl⟩
    refine ConvertM.Yields.bindGet ((convertsSymbols_iterate bottom (conversionDepth later) later
      settled enough later id settled (Run.Precedes.refl later) (settled.lt_size id hid) placed).mono
        ?_)
    intro _ final hstep
    obtain ⟨converts', marked⟩ := hstep
    refine ⟨converts.trans (converts'.mono fun _ _ _ first hfirst => ⟨id, hid, hfirst⟩), ?_⟩
    intro other hother
    rcases List.mem_append.1 hother with hother | hother
    · exact converts'.precedes.referenced other (marks other hother)
    · rw [List.mem_singleton.1 hother]
      rw [SymbolTable.canonicalize_root hid (settled.lt_size id hid)] at marked
      exact marked
  · intro later hstep
    obtain ⟨converts, marks⟩ := hstep
    have settled := converts.settled
    -- nothing was asked for at the start, so all is asked for by the roots
    have final : ∀ id, later.symbols.isReferenced id = true →
        later.symbols.Complete (host.sources root) exported id (later.symbols.value? id)
          ∧ ∃ first, asked later.symbols first ∧
            Relation.ReflTransGen (later.symbols.Needs (host.sources root) exported) first id := by
      intro id hid
      rcases converts.complete id hid with old | new
      · cases (unasked id).symm.trans old
      · exact new later settled (Run.Precedes.refl later)
    refine ⟨settled, marks, fun id hid => (final id hid).1, fun id hid => ?_⟩
    obtain ⟨-, first, ⟨export_, hexport, rfl⟩, chain⟩ := final id hid
    rw [SymbolTable.canonicalize_root hexport (settled.lt_size export_ hexport)] at chain
    exact ⟨export_, hexport, chain⟩

/-- The root is converted, whatever is below the last level. -/
theorem Run.Exporting.convertRootWithin {run : Run} (h : run.Exporting host root)
    (bottom : SymbolId → ConvertM Unit) :
    ConvertM.Yields (convertRootWithin bottom root) run fun exported later =>
      later.Converted host root exported := by
  refine ConvertM.Yields.bind (ConvertM.Yields.lift (h.askExports (rootModule root))) ?_
  intro exported run₁ hstep
  obtain ⟨exporting, known⟩ := hstep
  refine ConvertM.Yields.bind (ConvertM.Yields.lift (exporting.settleSymbols known)) ?_
  intro _ run₂ hstep
  obtain ⟨settled, prepares⟩ := hstep
  refine ConvertM.Yields.bind (settled.convertExports ?_ bottom) ?_
  · exact fun id => (prepares.referenced id).trans (exporting.unasked id)
  · intro _ run₃ converted
    exact ConvertM.Yields.pure converted

/-- **The root is converted**, from any run in which only exports have been
resolved. -/
theorem Run.Exporting.convertRoot {run : Run} (h : run.Exporting host root) :
    ConvertM.Yields (convertRoot root) run fun exported later =>
      later.Converted host root exported := by
  rw [← convertRootWithin_nothing]
  exact h.convertRootWithin _

end FlatBundle
