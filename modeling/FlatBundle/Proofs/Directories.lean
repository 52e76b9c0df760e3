/-
  FlatBundle.Proofs.Directories
  ─────────────────────────────
  **THE DIRECTORY OF A MODULE, AND WHAT IS READ FROM IT.**

  A path is its directory and its last piece: read against a stack, it is the directory
  read first and then one more piece (`walk_pieces_eq_step`).  Hence

    • what a relative specifier means in a module depends on the segments of the module's
      directory and on nothing else (`resolve_eq_iff`),
    • a module is found from its own directory under its last piece
      (`resolve_slash_basename`),
    • an ending that is put behind a path goes to its last piece, and leaves the directory
      alone (`basename_append`, `dirname_append`).
-/
import FlatBundle.Proofs.NormalForm

namespace FlatBundle.ModulePath

/-! ## §1. The last piece -/

theorem splitLast_of_no_slash {cs : List Char} (h : '/' ∉ cs) : splitLast cs = none := by
  cases cut : splitLast cs with
  | none => rfl
  | some parts =>
      rw [(eq_append_of_splitLast cut).1] at h
      exact absurd (by simp) h

theorem splitLast_append {before after : List Char} (h : '/' ∉ after) :
    splitLast (before ++ '/' :: after) = some (before, after) := by
  induction before with
  | nil => simp [splitLast, splitLast_of_no_slash h]
  | cons c before ih => rw [List.cons_append, splitLast, ih]

theorem pieces_of_no_slash {cs : List Char} (h : '/' ∉ cs) : pieces cs = [cs] := by
  have cut := pieces_append_of_no_slash h (show pieces [] = [] :: [] from rfl)
  rwa [List.append_nil] at cut

/-- The pieces of a path are those of its directory, up to pieces that do nothing, and the
last one. -/
theorem exists_pieces_eq_concat (path : String) :
    ∃ front, pieces path.toList = front ++ [(basename path).toList]
      ∧ ∀ stack, walk stack (pieces (dirname path).toList) = walk stack front := by
  rw [basename, dirname]
  cases cut : splitLast path.toList with
  | none => exact ⟨[], pieces_of_no_slash (no_slash_of_splitLast cut), fun _ => rfl⟩
  | some parts =>
      obtain ⟨before, after⟩ := parts
      obtain ⟨text, last⟩ := eq_append_of_splitLast cut
      refine ⟨pieces before, ?_, fun stack => ?_⟩
      · rw [text, pieces_append_slash, pieces_of_no_slash last, String.toList_ofList]
      · cases before with
        | nil => simp [walk, step, pieces]
        | cons c before => rw [String.toList_ofList]

/-- **A path is its directory and one more piece.** -/
theorem walk_pieces_eq_step (stack : List (List Char)) (path : String) :
    walk stack (pieces path.toList)
      = step (walk stack (pieces (dirname path).toList)) (basename path).toList := by
  obtain ⟨front, cut, same⟩ := exists_pieces_eq_concat path
  rw [cut, walk_append, same]
  rfl

/-- A piece is pushed exactly if it names something. -/
theorem step_eq_cons_iff {last : List Char} (h : IsSegment last) {stack : List (List Char)}
    {piece : List Char} : step stack piece = last :: stack ↔ piece = last := by
  constructor
  · intro pushed
    have longer := congrArg List.length pushed
    unfold step at pushed longer
    -- a piece that is dropped or goes up leaves a stack that is too short
    split at pushed
    · next nothing => simp [nothing] at longer
    · split at pushed
      · next up => simp [up] at longer
      · exact (List.cons.inj pushed).1
  · rintro rfl
    rw [step, if_neg (by simp [h.ne_nil, h.ne_dot]), if_neg h.ne_dots]

/-- A path adds a segment to its directory exactly if that is its last piece. -/
theorem segments_eq_concat_iff {last : List Char} (h : IsSegment last) {path : String} :
    segments path = segments (dirname path) ++ [last] ↔ (basename path).toList = last := by
  rw [← List.reverse_inj, List.reverse_append, segments, segments, List.reverse_reverse,
    List.reverse_reverse, walk_pieces_eq_step]
  exact step_eq_cons_iff h

theorem dirname_ne_nil (path : String) : (dirname path).toList ≠ [] := by
  rw [dirname]
  split
  · simp
  · simp
  · next nonempty _ =>
      rw [String.toList_ofList]
      exact nonempty

theorem isRooted_dirname (path : String) : isRooted (dirname path) = isRooted path := by
  rw [dirname]
  split
  · next uncut =>
      have inside := no_slash_of_splitLast uncut
      cases text : path.toList with
      | nil => simp [isRooted, text]
      | cons c cs =>
          rw [text] at inside
          have other : c ≠ '/' := fun e => inside (e ▸ List.mem_cons_self)
          simp [isRooted, text, other]
  · next cut => simp [isRooted, (eq_append_of_splitLast cut).1]
  · next before _ nonempty cut =>
      obtain ⟨c, rest, rfl⟩ := List.exists_cons_of_ne_nil nonempty
      simp [isRooted, (eq_append_of_splitLast cut).1]

/-! ## §2. Paths below a directory -/

/-- Two paths from one place have one normal form exactly if they have the same segments. -/
theorem normalize_eq_iff {first second : String} (rooted : isRooted first = isRooted second) :
    normalize first = normalize second ↔ segments first = segments second := by
  constructor
  · intro same
    have read := congrArg segments same
    rwa [segments_normalize, segments_normalize] at read
  · intro same
    rw [normalize, normalize, rooted, same]

theorem toList_join (directory file : String) :
    (directory ++ "/" ++ file).toList = directory.toList ++ '/' :: file.toList := by
  simp

theorem isRooted_join {directory : String} (nonempty : directory.toList ≠ []) (file : String) :
    isRooted (directory ++ "/" ++ file) = isRooted directory := by
  obtain ⟨c, rest, text⟩ := List.exists_cons_of_ne_nil nonempty
  rw [isRooted, isRooted, toList_join, text]
  rfl

theorem reverse_segments_join (directory file : String) :
    (segments (directory ++ "/" ++ file)).reverse
      = walk (walk [] (pieces directory.toList)) (pieces file.toList) := by
  rw [segments, List.reverse_reverse, toList_join, pieces_append_slash, walk_append]

theorem reverse_segments (path : String) :
    (segments path).reverse = walk [] (pieces path.toList) :=
  List.reverse_reverse _

/-- A module that is found in its own directory. -/
theorem resolve_slash_basename (path : String) :
    resolve ("./" ++ basename path) path = normalize path := by
  have inside : isRelative ("./" ++ basename path) = true := by simp [isRelative]
  have cut : pieces ("./" ++ basename path).toList = [['.'], (basename path).toList] := by
    rw [show ("./" ++ basename path).toList = ['.'] ++ '/' :: (basename path).toList by simp,
      pieces_append_slash, pieces_of_no_slash (no_slash_basename path)]
    rfl
  have segs : segments (dirname path ++ "/" ++ ("./" ++ basename path)) = segments path := by
    rw [← List.reverse_inj, reverse_segments_join, cut, reverse_segments,
      walk_pieces_eq_step [] path]
    rfl
  rw [resolve, if_pos inside, normalize, normalize, segs, isRooted_join (dirname_ne_nil path),
    isRooted_dirname]

/-- **What a specifier means depends on the directory of the module that it stands in**, and
tells which directory that is. -/
theorem resolve_eq_iff {first second : String} (rooted : isRooted first = isRooted second) :
    (∀ specifier, resolve specifier first = resolve specifier second)
      ↔ segments (dirname first) = segments (dirname second) := by
  constructor
  · intro same
    have one : IsNormal ("./" ++ "x") :=
      isNormal_slash (show IsSegment "x".toList from ⟨by decide, by decide, by decide, by decide⟩)
    have read := congrArg segments (same ("./" ++ "x"))
    rw [segments_resolve one rfl, segments_resolve one rfl] at read
    exact List.append_cancel_right read
  · intro same specifier
    have below : segments (dirname first ++ "/" ++ specifier)
        = segments (dirname second ++ "/" ++ specifier) := by
      rw [← List.reverse_inj, reverse_segments_join, reverse_segments_join, ← reverse_segments,
        ← reverse_segments, same]
    rw [resolve, resolve, normalize, normalize, below, isRooted_join (dirname_ne_nil first),
      isRooted_join (dirname_ne_nil second), isRooted_dirname, isRooted_dirname, rooted]

/-! ## §3. Endings -/

theorem dropEnding_append (path ending : String) : dropEnding ending (path ++ ending) = path := by
  have has : hasEnding ending (path ++ ending) = true := by
    rw [hasEnding, List.isSuffixOf_iff_suffix, String.toList_append]
    exact List.suffix_append _ _
  rw [dropEnding, if_pos has]
  apply String.toList_injective
  simp

/-- An ending belongs to what stands behind the last slash. -/
theorem splitLast_append_ending {ending : List Char} (h : '/' ∉ ending) (cs : List Char) :
    splitLast (cs ++ ending)
      = (splitLast cs).map fun parts => (parts.1, parts.2 ++ ending) := by
  cases cut : splitLast cs with
  | none => exact splitLast_of_no_slash (by simp [no_slash_of_splitLast cut, h])
  | some parts =>
      obtain ⟨text, last⟩ := eq_append_of_splitLast cut
      rw [text, List.append_assoc, List.cons_append]
      exact splitLast_append (by simp [last, h])

variable {ending : String} (h : '/' ∉ ending.toList) (path : String)

include h

theorem basename_append : basename (path ++ ending) = basename path ++ ending := by
  rw [basename, basename, String.toList_append, splitLast_append_ending h]
  cases splitLast path.toList with
  | none => rfl
  | some parts => exact String.toList_injective (by simp)

theorem dirname_append : dirname (path ++ ending) = dirname path := by
  rw [dirname, dirname, String.toList_append, splitLast_append_ending h]
  cases splitLast path.toList with
  | none => rfl
  | some parts =>
      obtain ⟨before, after⟩ := parts
      cases before <;> rfl

end FlatBundle.ModulePath
