/-
  FlatBundle.Proofs.Index.Outputs
  ───────────────────────────────
  **WHAT AN INDEX AND ITS METADATA ARE WRITTEN OVER.**

  An index and the metadata next to it have one stem, and the stem is the module that the
  out file names in the directory of the root module.  Nothing keeps the out file from
  naming a module of the library:

    • the outputs are in the way of an input where the out file names that input, and
      nowhere else (`FlatIndex.writesAt`),
    • every input is below the directory of the root module, so an out file that leads out
      of it is in nobody's way,
    • the index exports itself under the name of the library where the out file has the
      last piece of the root module (`resolve_libraryIndex_eq_stem_iff`).
-/
import FlatBundle.Proofs.Bundling.Identifiers
import FlatBundle.Proofs.Index.Specifiers
import FlatBundle.Config

namespace FlatBundle

open ModulePath

variable {root outFile : String}

/-! ## §1. The inputs of a bundle -/

/-- The names that the host is asked for while a root module is bundled. -/
def askedNames (root importAs : String) (host : Host) : List String :=
  (bundleFrom root importAs (Run.start host root)).2.store.asked

/-- The modules that a bundle is made of: the root, and what the host is asked for. -/
def inputNames (root importAs : String) (host : Host) : List String :=
  normalize root :: askedNames root importAs host

/-- **Every input is below the directory of the root module.** -/
theorem dirname_prefix_of_mem_inputNames (named : basename root ∉ ["", ".", ".."])
    (importAs : String) (host : Host) :
    ∀ name ∈ inputNames root importAs host, segments (dirname root) <+: segments name := by
  intro name hname
  rcases List.mem_cons.1 hname with rfl | asked
  · rw [segments_normalize, (segments_eq_concat_iff (isSegment_basename named)).2 rfl]
    exact List.prefix_append _ _
  · have performs := performs_bundlingHistory host root importAs []
    have normal := keepsNormal_bundleAfter named importAs (List.forall_mem_nil _) _
      (Run.normal_start host root)
    rw [performs.after] at normal
    have once := normal.knowsByOneName
    -- a module in normal form is read on top of the directory of the root
    rw [askedNames, ← bundleAfter_nil, performs.after, once.asked] at asked
    obtain ⟨module, known, rfl⟩ := List.mem_map.1 asked
    obtain ⟨key, inside⟩ := List.mem_filter.1 known
    rw [segments_resolve (once.normal module (.document key)) inside]
    exact List.prefix_append _ _

/-! ## §2. The index itself -/

/-- **The index exports itself** under the name of the library exactly if the out file has
the last piece of the root module. -/
theorem resolve_libraryIndex_eq_stem_iff (named : basename root ∉ ["", ".", ".."]) :
    resolve ("./" ++ basename root) (indexNameFor root outFile)
        = normalize (indexStem root outFile)
      ↔ basename (dropEnding ".js" outFile) = basename root := by
  have proper := isSegment_basename named
  have inside : isRelative ("./" ++ basename root) = true := by simp [isRelative]
  have rooted : isRooted (dirname (indexNameFor root outFile) ++ "/" ++ ("./" ++ basename root))
      = isRooted (indexStem root outFile) := by
    rw [isRooted_join (dirname_ne_nil _), isRooted_dirname, isRooted_indexNameFor,
      isRooted_indexStem]
  have read : segments (dirname (indexNameFor root outFile) ++ "/" ++ ("./" ++ basename root))
      = segments (dirname (indexStem root outFile)) ++ [(basename root).toList] := by
    have resolved := segments_resolve (isNormal_slash proper) inside (indexNameFor root outFile)
    rw [resolve, if_pos inside, segments_normalize, segments_slash proper] at resolved
    rw [resolved, segments_dirname_indexNameFor, segments_dirname_indexStem]
  -- both stand in one directory, so their last pieces decide
  rw [resolve, if_pos inside, normalize_eq_iff rooted, read, eq_comm, segments_eq_concat_iff proper,
    basename_indexStem]
  exact String.toList_inj

/-! ## §3. The theorem -/

/-- Where the outputs of an index are written, beside the inputs. -/
structure FlatIndex.WritesAt (index : FlatIndex) (options : IndexOptions) (host : Host)
    (root : String) : Prop where
  /-- The index and its metadata have one stem, the module that the out file names. -/
  metadata : dropEnding metadataEnding index.metadataName = dropEnding ".ts" index.indexName
  stem : normalize (dropEnding ".ts" index.indexName) = outModule root options.outFile
  /-- An input is written over exactly if the out file names one. -/
  replaced : normalize (dropEnding ".ts" index.indexName) ∈ inputNames root options.moduleId host
    ↔ outModule root options.outFile ∈ inputNames root options.moduleId host
  /-- An out file that leads out of the directory of the root module names no input. -/
  outside : basename root ∉ ["", ".", ".."] →
    ¬ segments (dirname root) <+: segments (outModule root options.outFile) →
    outModule root options.outFile ∉ inputNames root options.moduleId host
  /-- The index exports itself only under the last piece of the root module. -/
  itself : basename root ∉ ["", ".", ".."] →
    (resolve index.libraryIndex index.indexName = normalize (dropEnding ".ts" index.indexName)
      ↔ basename (dropEnding ".js" options.outFile) = basename root)

/-- **An output is in the way of an input only where the out file names the input**, for
every library, every list of root files and all options. -/
theorem FlatIndex.writesAt {options : IndexOptions} {files : List String} {host : Host}
    {index : FlatIndex} (made : flatIndex options files host = .ok index) :
    ∃ root, rootModule? files = some root ∧ index.WritesAt options host root := by
  obtain ⟨root, found, madeFor⟩ := FlatIndex.exists_madeFor made
  have stem : dropEnding ".ts" index.indexName = indexStem root options.outFile := by
    rw [madeFor.indexName, indexStem]
  refine ⟨root, found, ?_, ?_, ?_, ?_, ?_⟩
  · rw [madeFor.metadataName, dropEnding_append, stem]
  · rw [stem, normalize_indexStem]
  · rw [stem, normalize_indexStem]
  · intro named outside input
    exact outside (dirname_prefix_of_mem_inputNames named options.moduleId host _ input)
  · intro named
    rw [stem, madeFor.libraryIndex, madeFor.indexName]
    exact resolve_libraryIndex_eq_stem_iff named

theorem writesAt_sourceLibrary :
    ∃ index, flatIndex ⟨"flat.js", "shapes"⟩ ["src/index.ts"] sourceLibrary = .ok index
      ∧ index.WritesAt ⟨"flat.js", "shapes"⟩ sourceLibrary "src/index" := by
  obtain ⟨index, made, -⟩ := exists_flatIndex_sourceLibrary "flat.js"
  obtain ⟨root, found, writes⟩ := FlatIndex.writesAt made
  obtain rfl := Option.some.inj (rootModule?_sourceLibrary.symm.trans found)
  exact ⟨index, made, writes⟩

/-- A library of a root module that exports all of another one. -/
def passingLibrary : Host :=
  Entries.ofList [("./src/index", { exports := some [⟨"./shapes", none⟩] }),
    ("./src/shapes", {})]

/-- **An out file may name an input**: the root module, which the index then exports itself
as, or another module that the host is asked for.  The options are accepted. -/
theorem writesOver_passingLibrary :
    (∀ outFile ∈ ["index.js", "shapes.js"],
        Config.validate ⟨["src/index.ts"], ⟨outFile, "lib"⟩⟩
          = .ok ⟨["src/index.ts"], ⟨outFile, "lib"⟩⟩)
      ∧ (∃ index, flatIndex ⟨"index.js", "lib"⟩ ["src/index.ts"] passingLibrary = .ok index
        ∧ normalize (dropEnding ".ts" index.indexName) = normalize "src/index"
        ∧ resolve index.libraryIndex index.indexName
          = normalize (dropEnding ".ts" index.indexName))
      ∧ ∃ index, flatIndex ⟨"shapes.js", "lib"⟩ ["src/index.ts"] passingLibrary = .ok index
        ∧ normalize (dropEnding ".ts" index.indexName)
          ∈ askedNames "src/index" "lib" passingLibrary := by
  have free : passingLibrary.HandleFree := by decide
  have made : ∀ outFile, ∃ index,
      flatIndex ⟨outFile, "lib"⟩ ["src/index.ts"] passingLibrary = .ok index
        ∧ index.MadeFor ⟨outFile, "lib"⟩ passingLibrary "src/index" := by
    intro outFile
    obtain ⟨_, _, _, _, bundles, -⟩ := free.bundlesTo "src/index" "lib"
    exact exists_flatIndex rootModule?_sourceLibrary bundles.bundle
  refine ⟨by decide +kernel, ?_, ?_⟩
  · obtain ⟨index, done, madeFor⟩ := made "index.js"
    refine ⟨index, done, ?_⟩
    rw [madeFor.indexName, madeFor.libraryIndex]
    decide +kernel
  · obtain ⟨index, done, madeFor⟩ := made "shapes.js"
    refine ⟨index, done, ?_⟩
    rw [madeFor.indexName]
    decide +kernel

end FlatBundle
