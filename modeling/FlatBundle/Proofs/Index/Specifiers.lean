/-
  FlatBundle.Proofs.Index.Specifiers
  ──────────────────────────────────
  **WHERE THE SPECIFIERS OF AN INDEX LEAD.**

  The source of an index names the root module and the modules of the private symbols.  All
  of these specifiers are written as seen from the root module, and they are read from the
  index.  What a specifier means depends on the directory that it is read from, so

    • where the out file stays in the directory of the root module, all of them lead where
      they are meant to lead (`FlatIndex.leads_iff`),
    • where it does not, they lead elsewhere (`not_leads_bundlesIndex`).
-/
import FlatBundle.Proofs.Bundling.Names
import FlatBundle.Proofs.Index.Placement

namespace FlatBundle

open ModulePath

/-! ## §1. The rows of a bundle, whatever the library holds -/

/-- Every row of a bundle is for a name of a module of the library. -/
theorem isRelative_of_bundle {host : Host} {root importAs : String} {bundled : Bundle}
    (done : bundle root importAs host = .ok bundled) :
    ∀ row ∈ bundled.privates, isRelative row.module = true := by
  obtain ⟨exported, run, hconvert, converted⟩ := (Run.exporting_start host root).convertRoot
  obtain ⟨named, hnamed, naming⟩ := converted.namePrivates
  -- the bundle was written from this table, so its rows are those of the private symbols
  have written : run.symbols.toBundle exported importAs = .ok bundled := by
    rw [← done, bundle, bundleFrom_of_convertRoot hconvert]
  rw [SymbolTable.toBundle, hnamed] at written
  replace written : (do let entries ← named.bundleEntries; _) = _ := written
  have rows : bundled.privates = named.privates := by
    cases entries : named.bundleEntries with
    | error error =>
        rw [entries] at written
        cases written
    | ok all =>
        rw [entries] at written
        cases written
        rfl
  intro row hrow
  rw [rows, naming.privates_eq] at hrow
  obtain ⟨id, hid, rfl⟩ := List.mem_map.1 hrow
  exact converted.isRelative_row naming hid

/-! ## §2. The theorem -/

/-- The directory of the out file, read from that of the root module, is that of the root
module. -/
def StaysBeside (root outFile : String) : Prop :=
  normalize (dirname root ++ "/" ++ dirname outFile) = normalize (dirname root)

instance (root outFile : String) : Decidable (StaysBeside root outFile) :=
  inferInstanceAs (Decidable (_ = _))

theorem staysBeside_iff {root outFile : String} : StaysBeside root outFile
    ↔ segments (dirname root ++ "/" ++ dirname outFile) = segments (dirname root) :=
  normalize_eq_iff (isRooted_join (dirname_ne_nil root) (dirname outFile))

/-- Read from where the index is written, its specifiers lead to the modules that they are
meant for. -/
structure FlatIndex.Leads (index : FlatIndex) (host : Host) (root : String) : Prop where
  /-- The library is the root module. -/
  library : resolve index.libraryIndex index.indexName = normalize root
  /-- The specifiers in the source: that of the library and those of the rows. -/
  source : index.source = indexSource index.libraryIndex index.bundle.privates
  rows : ∀ row ∈ index.bundle.privates,
    resolve row.module index.indexName = resolve row.module root
  /-- So a row leads to the document that its symbol was read from. -/
  documents : ∀ row ∈ index.bundle.privates,
    host.get? (resolve row.module index.indexName) = host.sources root row.module

/-- **The specifiers of an index lead where they are meant to lead**, for every library,
every root file and every out file that stays in the directory of the root module; and
every specifier means the same in the index as in the root module in no other case. -/
theorem FlatIndex.leads_iff {options : IndexOptions} {files : List String} {host : Host}
    {index : FlatIndex} (made : flatIndex options files host = .ok index) :
    ∃ root, rootModule? files = some root
      ∧ (StaysBeside root options.outFile → index.Leads host root)
      ∧ (StaysBeside root options.outFile
          ↔ ∀ specifier, resolve specifier index.indexName = resolve specifier root) := by
  obtain ⟨root, found, madeFor⟩ := FlatIndex.exists_madeFor made
  have rooted : isRooted index.indexName = isRooted root := by
    rw [madeFor.indexName, isRooted_indexNameFor]
  have same : StaysBeside root options.outFile
      ↔ ∀ specifier, resolve specifier index.indexName = resolve specifier root := by
    rw [resolve_eq_iff rooted, madeFor.indexName, segments_dirname_indexNameFor, staysBeside_iff]
  refine ⟨root, found, fun stays => ?_, same⟩
  have leads := same.1 stays
  refine ⟨?_, madeFor.source, fun row _ => leads row.module, fun row hrow => ?_⟩
  · rw [leads, madeFor.libraryIndex, resolve_slash_basename]
  · rw [leads, Host.sources, if_pos (isRelative_of_bundle madeFor.bundle row hrow)]

/-! ## §3. A library with an index -/

theorem handleFree_sourceLibrary : sourceLibrary.HandleFree := by decide

theorem rootModule?_sourceLibrary : rootModule? ["src/index.ts"] = some "src/index" := by
  decide +kernel

/-- The library has an index, under the name of any out file. -/
theorem exists_flatIndex_sourceLibrary (outFile : String) :
    ∃ index, flatIndex ⟨outFile, "shapes"⟩ ["src/index.ts"] sourceLibrary = .ok index
      ∧ index.MadeFor ⟨outFile, "shapes"⟩ sourceLibrary "src/index" := by
  obtain ⟨_, _, _, _, bundles, -⟩ := handleFree_sourceLibrary.bundlesTo "src/index" "shapes"
  exact exists_flatIndex rootModule?_sourceLibrary bundles.bundle

/-- An out file that leaves the directory and comes back. -/
theorem leads_sourceLibrary :
    ∃ index, flatIndex ⟨"../src/flat.js", "shapes"⟩ ["src/index.ts"] sourceLibrary = .ok index
      ∧ index.Leads sourceLibrary "src/index" := by
  obtain ⟨index, made, -⟩ := exists_flatIndex_sourceLibrary "../src/flat.js"
  obtain ⟨root, found, leads, -⟩ := FlatIndex.leads_iff made
  obtain rfl := Option.some.inj (rootModule?_sourceLibrary.symm.trans found)
  exact ⟨index, made, leads (by decide +kernel)⟩

/-- **An out file with a directory** puts the index where the specifier of the library leads
to no module. -/
theorem not_leads_bundlesIndex :
    ∃ index, flatIndex ⟨"bundles/index.js", "shapes"⟩ ["src/index.ts"] sourceLibrary = .ok index
      ∧ index.indexName = "src/bundles/index.ts"
      ∧ index.libraryIndex = "./index"
      ∧ resolve index.libraryIndex index.indexName ≠ normalize "src/index"
      ∧ sourceLibrary.get? (resolve index.libraryIndex index.indexName) = none := by
  obtain ⟨index, made, madeFor⟩ := exists_flatIndex_sourceLibrary "bundles/index.js"
  refine ⟨index, made, ?_⟩
  rw [madeFor.indexName, madeFor.libraryIndex]
  decide +kernel

end FlatBundle
