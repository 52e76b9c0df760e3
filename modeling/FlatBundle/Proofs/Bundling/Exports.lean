/-
  FlatBundle.Proofs.Bundling.Exports
  ──────────────────────────────────
  **WHAT A MODULE EXPORTS DOES NOT DEPEND ON WHAT WAS RESOLVED BEFORE.**

  For a library in which no module re-exports from itself, `exportAll` computes what the
  documents say (`exportAll_claims`): the symbols for the names that the module claims,
  each once and at its first claim, linked to where that claim takes the name from.  Asked
  again at any later time it gives the same answer and leaves the run alone.
-/
import FlatBundle.Proofs.Bundling.References
import FlatBundle.Proofs.Bundling.Totality
import FlatBundle.Proofs.Export.Listing

namespace FlatBundle

variable {host : Host} {root : String}

/-! ## §1. Resolved modules -/

/-- What has been resolved stays resolved while other exports are. -/
theorem Run.Exporting.keeps_resolved {run : Run} (h : run.Exporting host root) {module : String}
    {ids : List SymbolId} (known : run.resolved.get? module = some ids) (modules : List String) :
    RunM.Ensures (exportModules modules) run fun _ later =>
      later.resolved.get? module = some ids := by
  have all : RunM.Ensures (exportModules modules) run fun _ later =>
      later.Exporting host root ∧ later.resolved.get? module = some ids := by
    refine RunM.Ensures.forM (fun later =>
      later.Exporting host root ∧ later.resolved.get? module = some ids) modules ⟨h, known⟩ ?_
    rintro other - later ⟨exporting, known'⟩
    have keeps : RunM.Ensures (FlatBundle.askExports other) later fun _ final =>
        final.resolved.get? module = some ids :=
      RunM.Ensures.askExports ((ensures_exportAll exporting.sound other).mono fun _ _ outcome =>
        outcome.keeps.resolved module ids known')
    refine RunM.Ensures.bind ((exporting.askExports other).and keeps) ?_
    intro _ final hstep
    obtain ⟨⟨exporting', -⟩, kept⟩ := hstep
    exact RunM.Ensures.pure ⟨exporting', kept⟩
  exact all.mono fun _ _ => And.right

/-- After exports have been resolved, all that is resolved is listed. -/
theorem Run.listed_exportModules (host : Host) (root : String) (modules : List String) :
    RunM.Ensures (exportModules modules) (Run.start host root) fun _ later =>
      later.Exporting host root ∧ later.Listed (host.sources root) := by
  refine RunM.Ensures.forM (fun later =>
      later.Exporting host root ∧ later.Listed (host.sources root)) modules
    ⟨Run.exporting_start host root, Run.listed_start (host.sources root) host root⟩ ?_
  rintro module - later ⟨exporting, listed⟩
  have listed' : RunM.Ensures (askExports module) later fun _ final =>
      final.Listed (host.sources root) :=
    RunM.Ensures.askExports (lists_exportAll exporting.sound exporting.idle listed module)
  refine RunM.Ensures.bind ((exporting.askExports module).and listed') ?_
  intro _ final hstep
  obtain ⟨⟨exporting', -⟩, hlisted⟩ := hstep
  exact RunM.Ensures.pure ⟨exporting', hlisted⟩

/-! ## §2. Without circles -/

/-- Where no module re-exports from itself, no declaration is passed over. -/
theorem Sources.Claims.exportClaims {sources : Sources} (acyclic : sources.Acyclic)
    {module : String} {claims : List Claim} (h : sources.Claims sources.LeadsBack module claims) :
    sources.ExportClaims module claims := by
  obtain ⟨declared, hdeclared, rfl⟩ := h
  refine ⟨declared, hdeclared.mono ?_ fun _ mem => mem, rfl⟩
  intro here there edge back
  exact acyclic here (Relation.TransGen.head' edge back)

/-- The symbols are what the claims of a module say: each claimed name once, in order, and
linked to where its first claim takes it from. -/
structure Run.ExportsAs (run : Run) (module : String) (claims : List Claim)
    (ids : List SymbolId) : Prop where
  nodup : ids.Nodup
  spells : run.symbols.Spells module ids (claimedNames claims)
  exports : ∀ id ∈ ids, ∀ name origin?, run.symbols.key? id = some (module, name) →
    Pairs.find? name claims = some origin? →
    (run.symbols.exports id).map run.symbols.key? = origin?.map some

/-- What a traced run has resolved is exported as the documents say. -/
theorem Run.Traced.exportsAs {run : Run} (traced : run.Traced (host.sources root))
    (sound : run.Sound host root) {module : String} {ids : List SymbolId} {claims : List Claim}
    (known : run.resolved.get? module = some ids)
    (hclaims : (host.sources root).ExportClaims module claims)
    (spells : run.symbols.Spells module ids (claimedNames claims)) :
    run.ExportsAs module claims ids where
  nodup := (sound.lists module ids known).1
  spells := spells
  exports := by
    intro id _ name origin? key found
    have origin_iff := hclaims.origin_of_find? found
    -- a link leads to the origin, and where there is an origin there is a link
    cases link : run.symbols.exports id with
    | some source =>
        obtain ⟨module', name', key'⟩ :=
          SymbolTable.exists_key?_of_lt (sound.linked.lt_size_of_exports link)
        have origin := traced.links (module, name) (module', name') ⟨id, source, key, key', link⟩
        rw [(origin_iff (module', name')).1 origin, Option.map_some, Option.map_some, key']
    | none =>
        cases origin? with
        | none => rfl
        | some origin =>
            obtain ⟨id', source, key', -, link'⟩ := traced.origins (module, name) origin
              (by rw [known]; rfl) ((origin_iff origin).2 rfl)
            rw [SymbolTable.key?_inj key' key, link] at link'
            cases link'

/-! ## §3. The theorem -/

/-- **A module exports what the documents say, in their order**, whatever has been
resolved before; and a later call gives the same answer and changes nothing. -/
theorem exportAll_claims {host : Host} {root : String} (acyclic : (host.sources root).Acyclic)
    (earlier later : List String) (module : String) :
    ∃ claims ids run last,
      (host.sources root).ExportClaims module claims
      ∧ (∀ other, (host.sources root).ExportClaims module other → other = claims)
      ∧ exportAll module (exportModules earlier (Run.start host root)).2 = (ids, run)
      ∧ run.ExportsAs module claims ids
      ∧ (exportModules later run).2 = last
      ∧ exportAll module last = (ids, last) := by
  obtain ⟨exporting, listed⟩ := Run.listed_exportModules host root earlier
  have listed' := lists_exportAll exporting.sound exporting.idle listed module
  obtain ⟨exporting', known⟩ := exporting.exportAll module
  obtain ⟨claims, passing, spells⟩ := listed' module _ known
  have hclaims := passing.exportClaims acyclic
  refine ⟨claims, _, _, _, hclaims, fun other hother => hother.unique hclaims, rfl, ?_, rfl, ?_⟩
  · exact (exporting'.traced acyclic).exportsAs exporting'.sound known hclaims spells
  · exact exportAll_of_resolved (exporting'.keeps_resolved known later)

theorem exportAll_claims_shapeLibrary :
    ∃ claims ids run last,
      (shapeLibrary.sources "./index").ExportClaims "./index" claims
      ∧ (∀ other, (shapeLibrary.sources "./index").ExportClaims "./index" other → other = claims)
      ∧ exportAll "./index" (exportModules ["./shapes"] (Run.start shapeLibrary "./index")).2
        = (ids, run)
      ∧ run.ExportsAs "./index" claims ids
      ∧ (exportModules ["./absent", "./shapes"] run).2 = last
      ∧ exportAll "./index" last = (ids, last) :=
  exportAll_claims acyclic_shapeLibrary ["./shapes"] ["./absent", "./shapes"] "./index"

end FlatBundle
