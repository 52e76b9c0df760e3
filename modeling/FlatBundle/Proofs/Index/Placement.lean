/-
  FlatBundle.Proofs.Index.Placement
  ─────────────────────────────────
  **WHERE AN INDEX STANDS.**

  The path of an index is made from two texts, the root module and the out file: it is the
  out file, with another ending, read from the directory of the root module, and written
  without `./` in front.  Its pieces are then known (`pieces_fileIn`), and with them

    • its directory: that of the out file, read from that of the root module
      (`segments_dirname_indexNameFor`),
    • its stem: the module that the out file names there (`normalize_indexStem`).

  The last piece of the path is a segment whatever the out file is, as the ending is in it.
-/
import FlatBundle.FlatIndex
import FlatBundle.Proofs.Directories

namespace FlatBundle

open ModulePath

namespace ModulePath

/-! ## §1. Endings -/

theorem dropEnding_append_of_hasEnding {ending path : String} (has : hasEnding ending path = true) :
    dropEnding ending path ++ ending = path := by
  obtain ⟨before, text⟩ := List.isSuffixOf_iff_suffix.1 has
  have joined : path = String.ofList before ++ ending := String.toList_injective (by simp [text])
  rw [joined, dropEnding_append]

/-- An ending without a slash is dropped from the last piece. -/
theorem dirname_dropEnding {ending : String} (h : '/' ∉ ending.toList) (path : String) :
    dirname (dropEnding ending path) = dirname path := by
  cases has : hasEnding ending path with
  | true => rw [← dirname_append h (dropEnding ending path), dropEnding_append_of_hasEnding has]
  | false => rw [dropEnding, has, if_neg Bool.false_ne_true]

theorem hasEnding_of_basename {ending path : String}
    (has : hasEnding ending (basename path) = true) : hasEnding ending path = true := by
  rw [hasEnding, List.isSuffixOf_iff_suffix] at has ⊢
  refine has.trans ?_
  rw [basename]
  split
  · exact List.suffix_rfl
  · next before after cut =>
      rw [String.toList_ofList, (eq_append_of_splitLast cut).1]
      exact ⟨before ++ ['/'], by simp⟩

/-- What has an ending of some length is a segment. -/
theorem isSegment_append {ending : String} (h : '/' ∉ ending.toList)
    (long : 2 < ending.toList.length) {name : String} (inside : '/' ∉ name.toList) :
    IsSegment (name ++ ending).toList := by
  have size : 2 < (name ++ ending).toList.length := by
    rw [String.toList_append, List.length_append]
    omega
  refine ⟨?_, ?_, ?_, by simp [inside, h]⟩
  all_goals
    intro same
    rw [same] at size
    simp at size

/-! ## §2. The directory of a path, by its pieces -/

/-- What stands in front of the last piece is the directory. -/
theorem segments_dirname {path : String} {front : List (List Char)} {last : List Char}
    (cut : pieces path.toList = front ++ [last]) :
    (basename path).toList = last ∧ (segments (dirname path)).reverse = walk [] front := by
  obtain ⟨front', cut', same⟩ := exists_pieces_eq_concat path
  obtain ⟨rfl, last'⟩ := List.append_inj' (cut'.symm.trans cut) rfl
  exact ⟨List.singleton_inj.1 last', (reverse_segments _).trans (same [])⟩

/-- A file below a directory adds its last piece to its own directory there. -/
theorem segments_join (directory : String) {file : String} (h : IsSegment (basename file).toList) :
    segments (directory ++ "/" ++ file)
      = segments (directory ++ "/" ++ dirname file) ++ [(basename file).toList] := by
  rw [← List.reverse_inj, reverse_segments_join, walk_pieces_eq_step, ← reverse_segments_join,
    List.reverse_append]
  exact @walk_segments [(basename file).toList] (by simpa using h) _

end ModulePath

/-! ## §3. Files in a directory -/

/-- A file in a directory is its segments, written without `./` in front. -/
theorem toList_fileIn {directory file : String} (nonempty : directory.toList ≠ [])
    {first : List Char} {rest : List (List Char)}
    (cut : segments (directory ++ "/" ++ file) = first :: rest) :
    (fileIn directory file).toList
      = (if isRooted directory then ['/'] else []) ++ first ++ rest.flatMap ('/' :: ·) := by
  have text := toList_render (List.cons_ne_nil first rest) (isRooted directory)
  have joined : normalize (directory ++ "/" ++ file)
      = render (isRooted directory) (first :: rest) := by
    rw [ModulePath.normalize, cut, isRooted_join nonempty]
  rw [fileIn]
  simp only [joined, text]
  -- only the path of a directory that is not rooted has `./` in front
  cases rooted : isRooted directory with
  | true => simpa [rooted] using text
  | false => simp

section

variable {directory file : String} (nonempty : directory.toList ≠ [])
  (h : IsSegment (basename file).toList)

include nonempty h

/-- **The pieces of a file in a directory** are its segments, behind the slash of a rooted
one. -/
theorem pieces_fileIn : pieces (fileIn directory file).toList
    = (if isRooted directory then [[]] else []) ++ segments (directory ++ "/" ++ file) := by
  have named := segments_join directory h
  have inside : ∀ s ∈ segments (directory ++ "/" ++ file), '/' ∉ s :=
    fun s hs => (isSegment_of_mem_segments _ s hs).no_slash
  have some : segments (directory ++ "/" ++ file) ≠ [] := by simp [named]
  obtain ⟨first, rest, cut⟩ := List.exists_cons_of_ne_nil some
  rw [cut] at inside
  have read := pieces_append_of_no_slash (inside first List.mem_cons_self)
    (pieces_flatMap_slash fun s hs => inside s (List.mem_cons_of_mem first hs))
  rw [List.append_nil] at read
  rw [toList_fileIn nonempty cut, cut]
  cases isRooted directory with
  | true => exact (pieces_slash _).trans (congrArg ([] :: ·) read)
  | false => exact read

theorem isRooted_fileIn : isRooted (fileIn directory file) = isRooted directory := by
  have segs := isSegment_of_mem_segments (directory ++ "/" ++ file)
  have some : segments (directory ++ "/" ++ file) ≠ [] := by simp [segments_join directory h]
  obtain ⟨first, rest, cut⟩ := List.exists_cons_of_ne_nil some
  have first_ := segs first (cut ▸ List.mem_cons_self)
  obtain ⟨c, cs, rfl⟩ := List.exists_cons_of_ne_nil first_.ne_nil
  have other : c ≠ '/' := fun e => first_.no_slash (e ▸ List.mem_cons_self)
  rw [isRooted, toList_fileIn nonempty cut]
  cases isRooted directory with
  | true => rfl
  | false => simpa using other

/-- The directory and the last piece of a file in a directory. -/
theorem basename_fileIn : basename (fileIn directory file) = basename file
    ∧ segments (dirname (fileIn directory file))
      = segments (directory ++ "/" ++ dirname file) := by
  have cut := pieces_fileIn nonempty h
  rw [segments_join directory h, ← List.append_assoc] at cut
  obtain ⟨last, front⟩ := segments_dirname cut
  refine ⟨String.toList_injective last, List.reverse_inj.1 (front.trans ?_)⟩
  have read := walk_segments (isSegment_of_mem_segments (directory ++ "/" ++ dirname file)) []
  rw [List.append_nil] at read
  cases isRooted directory with
  | true => exact read
  | false => exact read

end

/-! ## §4. The path of an index -/

section

variable (root outFile : String)

theorem dirname_sourceFileName : dirname (sourceFileName outFile) = dirname outFile := by
  rw [sourceFileName, dirname_append (by decide), dirname_dropEnding (by decide)]

theorem basename_sourceFileName :
    basename (sourceFileName outFile) = basename (dropEnding ".js" outFile) ++ ".ts" :=
  basename_append (by decide) _

theorem isSegment_sourceFileName : IsSegment (basename (sourceFileName outFile)).toList := by
  rw [basename_sourceFileName]
  exact isSegment_append (by decide) (by decide) (no_slash_basename _)

theorem isRooted_indexNameFor : isRooted (indexNameFor root outFile) = isRooted root := by
  rw [indexNameFor, isRooted_fileIn (dirname_ne_nil root) (isSegment_sourceFileName outFile),
    isRooted_dirname]

/-- **The directory of an index** is that of the out file, read from that of the root. -/
theorem segments_dirname_indexNameFor : segments (dirname (indexNameFor root outFile))
    = segments (dirname root ++ "/" ++ dirname outFile) := by
  rw [← dirname_sourceFileName outFile]
  exact (basename_fileIn (dirname_ne_nil root) (isSegment_sourceFileName outFile)).2

theorem basename_indexNameFor : basename (indexNameFor root outFile)
    = basename (dropEnding ".js" outFile) ++ ".ts" := by
  rw [← basename_sourceFileName outFile]
  exact (basename_fileIn (dirname_ne_nil root) (isSegment_sourceFileName outFile)).1

theorem hasEnding_indexNameFor : hasEnding ".ts" (indexNameFor root outFile) = true := by
  apply hasEnding_of_basename
  rw [basename_indexNameFor, hasEnding, List.isSuffixOf_iff_suffix, String.toList_append]
  exact List.suffix_append _ _

/-- The path of an index without its ending. -/
def indexStem : String := dropEnding ".ts" (indexNameFor root outFile)

theorem indexStem_append : indexStem root outFile ++ ".ts" = indexNameFor root outFile :=
  dropEnding_append_of_hasEnding (hasEnding_indexNameFor root outFile)

theorem basename_indexStem :
    basename (indexStem root outFile) = basename (dropEnding ".js" outFile) := by
  have whole : basename (indexStem root outFile ++ ".ts")
      = basename (indexStem root outFile) ++ ".ts" :=
    basename_append (by decide) _
  rw [indexStem_append, basename_indexNameFor] at whole
  have texts := congrArg String.toList whole
  rw [String.toList_append, String.toList_append] at texts
  exact String.toList_injective (List.append_cancel_right texts).symm

theorem segments_dirname_indexStem : segments (dirname (indexStem root outFile))
    = segments (dirname root ++ "/" ++ dirname outFile) := by
  rw [indexStem, dirname_dropEnding (by decide), segments_dirname_indexNameFor]

theorem isRooted_indexStem : isRooted (indexStem root outFile) = isRooted root := by
  rw [← isRooted_dirname, indexStem, dirname_dropEnding (by decide), isRooted_dirname,
    isRooted_indexNameFor]

/-- The module that the out file names in the directory of the root module. -/
def outModule : String := resolve ("./" ++ dropEnding ".js" outFile) root

/-- **The stem of an index** is the module that the out file names. -/
theorem normalize_indexStem : normalize (indexStem root outFile) = outModule root outFile := by
  have relative : isRelative ("./" ++ dropEnding ".js" outFile) = true := by simp [isRelative]
  have text : ("./" ++ dropEnding ".js" outFile).toList
      = ['.'] ++ '/' :: (dropEnding ".js" outFile).toList := by
    simp
  have directory : walk [] (pieces (dirname (indexStem root outFile)).toList)
      = walk (walk [] (pieces (dirname root).toList)) (pieces (dirname outFile).toList) := by
    rw [← reverse_segments, segments_dirname_indexStem, reverse_segments_join]
  -- the same last piece, read from the same directory
  have segs : segments (dirname root ++ "/" ++ ("./" ++ dropEnding ".js" outFile))
      = segments (indexStem root outFile) := by
    rw [← List.reverse_inj, reverse_segments_join, text, pieces_append_slash, walk_append,
      walk_pieces_eq_step _ (dropEnding ".js" outFile), dirname_dropEnding (by decide),
      reverse_segments, walk_pieces_eq_step [] (indexStem root outFile), directory,
      basename_indexStem]
    rfl
  rw [outModule, resolve, if_pos relative, ModulePath.normalize, ModulePath.normalize, segs,
    isRooted_indexStem, isRooted_join (dirname_ne_nil root), isRooted_dirname]

end

/-! ## §5. What an index is made of -/

/-- An index of a root module. -/
structure FlatIndex.MadeFor (index : FlatIndex) (options : IndexOptions) (host : Host)
    (root : String) : Prop where
  bundle : FlatBundle.bundle root options.moduleId host = .ok index.bundle
  indexName : index.indexName = indexNameFor root options.outFile
  metadataName : index.metadataName = indexStem root options.outFile ++ metadataEnding
  libraryIndex : index.libraryIndex = "./" ++ basename root
  source : index.source = indexSource index.libraryIndex index.bundle.privates

/-- The root module of a compilation. -/
def rootModule? (files : List String) : Option String :=
  (rootFile? files).map (dropEnding ".ts")

/-- **An index is made for the root module**, which is then known and has a bundle. -/
theorem FlatIndex.exists_madeFor {options : IndexOptions} {files : List String} {host : Host}
    {index : FlatIndex} (made : flatIndex options files host = .ok index) :
    ∃ root, rootModule? files = some root ∧ index.MadeFor options host root := by
  unfold flatIndex at made
  split at made
  · cases made
  · next file found =>
      refine ⟨dropEnding ".ts" file, by rw [rootModule?, found, Option.map_some], ?_⟩
      dsimp only at made
      split at made
      · cases made
      · next bundled done =>
          rw [← Except.ok.inj made]
          refine ⟨done, ?_, ?_, ?_, ?_⟩
          all_goals dsimp only [indexStem]

/-- A root module with a bundle has an index. -/
theorem exists_flatIndex {options : IndexOptions} {files : List String} {host : Host}
    {root : String} {bundled : Bundle} (found : rootModule? files = some root)
    (done : bundle root options.moduleId host = .ok bundled) :
    ∃ index, flatIndex options files host = .ok index ∧ index.MadeFor options host root := by
  obtain ⟨file, hfile, rfl⟩ := Option.map_eq_some_iff.1 found
  have made : ∃ index, flatIndex options files host = .ok index := by
    unfold flatIndex
    rw [hfile]
    dsimp only
    rw [done]
    exact ⟨_, rfl⟩
  obtain ⟨index, made⟩ := made
  obtain ⟨root, found', madeFor⟩ := FlatIndex.exists_madeFor made
  rw [← Option.some.inj (found'.symm.trans found)] at *
  exact ⟨index, made, madeFor⟩

end FlatBundle
