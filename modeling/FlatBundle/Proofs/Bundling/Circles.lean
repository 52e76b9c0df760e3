/-
  FlatBundle.Proofs.Bundling.Circles
  ──────────────────────────────────
  **NAMES IN CIRCLES OF MODULES.**

  A declaration may export all of a module that leads back to where it stands.  Met on the
  way round, such a module exports nothing yet, and the module that is given nothing keeps
  that answer.  So a name can get lost in a circle, and whether it does depends on where
  the circle is entered (`exports_ringLibrary`).

  A name does not get lost where no step of the way leads back
  (`exists_export_of_chain`), whatever other modules do and whatever has been resolved
  before.
-/
import FlatBundle.Proofs.Bundling.Exports

namespace FlatBundle

variable {sources : Sources}

/-! ## §1. Chains of modules -/

namespace Sources

/-- The module has a declaration that exports all of the other one. -/
def ExportsAll (sources : Sources) (module source : String) : Prop :=
  ∃ declaration ∈ sources.declarations module, declaration.items = none
    ∧ source = ModulePath.resolve declaration.source module

/-- The module exports all of the other one, which does not lead back. -/
def ExportsDown (sources : Sources) (module source : String) : Prop :=
  sources.ExportsAll module source ∧ ¬ sources.LeadsBack module source

/-- What the other module claims is claimed where the declaration is not passed over. -/
theorem DeclarationClaims.offered {passes : String → String → Prop} {module : String}
    {listed : List ExportDeclaration} {claims : List Claim}
    (h : sources.DeclarationClaims passes module listed claims) {declaration : ExportDeclaration}
    (mem : declaration ∈ listed) (all : declaration.items = none)
    (kept : ¬ passes module (ModulePath.resolve declaration.source module)) :
    ∃ offered, sources.Claims passes (ModulePath.resolve declaration.source module) offered
      ∧ ∀ name ∈ claimedNames offered, name ∈ Pairs.keys claims := by
  induction h with
  | nil => cases mem
  | chosen chosen _ ih =>
      rcases List.mem_cons.1 mem with rfl | mem
      · cases chosen.symm.trans all
      · obtain ⟨offered, hoffered, names⟩ := ih mem kept
        refine ⟨offered, hoffered, fun name hname => ?_⟩
        rw [Pairs.keys_append]
        exact List.mem_append_right _ (names name hname)
  | @all _ _ _ here _ _ offers _ _ ih =>
      rcases List.mem_cons.1 mem with rfl | mem
      · refine ⟨_, ⟨here, offers, rfl⟩, fun name hname => ?_⟩
        rw [Pairs.keys_append, keys_sameClaims]
        exact List.mem_append_left _ hname
      · obtain ⟨offered, hoffered, names⟩ := ih mem kept
        refine ⟨offered, hoffered, fun name hname => ?_⟩
        rw [Pairs.keys_append]
        exact List.mem_append_right _ (names name hname)
  | passed _ passed _ ih =>
      rcases List.mem_cons.1 mem with rfl | mem
      · exact absurd passed kept
      · exact ih mem kept

/-- A module claims what is declared at the end of a chain that never leads back. -/
theorem Claims.mem_of_chain {module last : String}
    (chain : Relation.ReflTransGen sources.ExportsDown module last) {name : String}
    (declared : name ∈ Pairs.keys (sources.entryClaims last)) {claims : List Claim}
    (h : sources.Claims sources.LeadsBack module claims) : name ∈ claimedNames claims := by
  -- from the end of the chain to its start, with each module's claims offered to the one before
  induction chain using Relation.ReflTransGen.head_induction_on generalizing claims with
  | refl =>
      obtain ⟨_, -, rfl⟩ := h
      rw [mem_claimedNames, Pairs.keys_append]
      exact List.mem_append_left _ declared
  | head step _ ih =>
      obtain ⟨⟨declaration, mem, all, rfl⟩, oneWay⟩ := step
      obtain ⟨_, hdeclared, rfl⟩ := h
      obtain ⟨offered, hoffered, names⟩ := hdeclared.offered mem all oneWay
      rw [mem_claimedNames, Pairs.keys_append]
      exact List.mem_append_right _ (names name (ih hoffered))

end Sources

/-- **A name does not get lost on a way that never leads back**: what is declared at its
end is exported at its start, in any library and whatever has been resolved before. -/
theorem exists_export_of_chain {host : Host} {root module last name : String}
    (chain : Relation.ReflTransGen (host.sources root).ExportsDown module last)
    {document : Document} (found : host.sources root last = some document)
    (declared : document.declares name = true) (earlier : List String) :
    ∃ ids run, exportAll module (exportModules earlier (Run.start host root)).2 = (ids, run)
      ∧ ∃ id ∈ ids, run.symbols.key? id = some (module, name) := by
  obtain ⟨exporting, listed⟩ := Run.listed_exportModules host root earlier
  have listed' := lists_exportAll exporting.sound exporting.idle listed module
  obtain ⟨-, known⟩ := exporting.exportAll module
  obtain ⟨claims, hclaims, spells⟩ := listed' module _ known
  have mem := hclaims.mem_of_chain chain (Sources.mem_keys_entryClaims.2 ⟨document, found, declared⟩)
  refine ⟨_, _, rfl, ?_⟩
  exact spells.exists_of_mem mem

/-! ## §2. A circle of two modules -/

/-- The modules that a document names. -/
def Sources.edges (sources : Sources) (module : String) : List String :=
  (sources.entryClaims module).filterMap (fun claim => claim.2.map Prod.fst)
    ++ (sources.declarations module).map fun declaration =>
      ModulePath.resolve declaration.source module

theorem Sources.Edge.mem_edges {module source : String} (edge : sources.Edge module source) :
    source ∈ sources.edges module := by
  obtain ⟨document, found, names⟩ := edge
  rw [edges, entryClaims, declarations, found, List.mem_append]
  rcases names with ⟨entry, hentry, specifier, name, arguments, refers, rfl⟩ | ⟨declaration, hd, rfl⟩
  · left
    have origin : entryOrigin? module entry.2 = some (ModulePath.resolve specifier module, name) :=
      entryOrigin?_eq_some_iff.2 ⟨specifier, name, arguments, refers, rfl⟩
    refine List.mem_filterMap.2 ⟨(entry.1, entryOrigin? module entry.2), ?_, by rw [origin]; rfl⟩
    exact List.mem_map_of_mem (f := fun entry => (entry.1, entryOrigin? module entry.2)) hentry
  · exact Or.inr (List.mem_map_of_mem hd)

/-- A root that names `./a` without exporting anything of it, and exports all of `./b`;
and two modules each of which exports all of the other. -/
def ringLibrary : Host :=
  Entries.ofList
    [("./index", { exports := some [⟨"./a", some []⟩, ⟨"./b", none⟩] }),
      ("./a", (Document.ofEntries (Entries.ofList [("A", .str "a")])).addExport ⟨"./b", none⟩),
      ("./b", (Document.ofEntries (Entries.ofList [("B", .str "b")])).addExport ⟨"./a", none⟩)]

/-- **A name can get lost in a circle.**  The root exports all of `./b`, which exports all
of `./a`, which declares `A`; but `./b` was entered from `./a`, and it has kept what it was
given on the way round. -/
theorem exports_ringLibrary :
    (ringLibrary.sources "./index").ExportsAll "./index" "./b"
      ∧ (ringLibrary.sources "./index").ExportsAll "./b" "./a"
      ∧ ["./index", "./b", "./a"].Nodup
      ∧ ((ringLibrary.sources "./index" "./a").map (·.declares "A")) = some true
      ∧ ∀ id ∈ (exportAll "./index" (Run.start ringLibrary "./index")).1,
        (exportAll "./index" (Run.start ringLibrary "./index")).2.symbols.key? id
          ≠ some ("./index", "A") := by
  refine ⟨⟨⟨"./b", none⟩, ?_, rfl, ?_⟩, ⟨⟨"./a", none⟩, ?_, rfl, ?_⟩, ?_, ?_, ?_⟩
  all_goals decide +kernel

/-- The circle does not lead back to the root. -/
theorem not_leadsBack_ringLibrary :
    ¬ (ringLibrary.sources "./index").LeadsBack "./index" "./b" := by
  intro back
  -- no edge leaves the circle
  have circle : ∀ module ∈ ["./a", "./b"], ∀ source ∈ (ringLibrary.sources "./index").edges module,
      source ∈ ["./a", "./b"] := by
    decide +kernel
  have inside : ∀ module, Relation.ReflTransGen (ringLibrary.sources "./index").Edge "./b" module →
      module ∈ ["./a", "./b"] := by
    intro module path
    induction path with
    | refl => decide
    | tail _ edge ih => exact circle _ ih _ edge.mem_edges
  exact absurd (inside "./index" back) (by decide)

theorem exists_export_of_chain_ringLibrary :
    ∃ ids run, exportAll "./index" (exportModules ["./a"] (Run.start ringLibrary "./index")).2
        = (ids, run)
      ∧ ∃ id ∈ ids, run.symbols.key? id = some ("./index", "B") :=
  exists_export_of_chain
    (Relation.ReflTransGen.single
      ⟨⟨⟨"./b", none⟩, by decide +kernel, rfl, by decide +kernel⟩, not_leadsBack_ringLibrary⟩)
    (show ringLibrary.sources "./index" "./b" = some _ from rfl) (by decide +kernel) ["./a"]

end FlatBundle
