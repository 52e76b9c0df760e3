/-
  FlatBundle.Proofs.Evaluation
  ────────────────────────────
  **PATHS ARE EVALUATED FROM LEFT TO RIGHT ON A STACK.**

  `Reads` gives the rules of the evaluation, one for each kind of part: an empty part and `.`
  do nothing, `..` takes the top of the stack away if there is one, and any other part goes on
  top.  `Evaluates` says that a path spells what parts leave on an empty stack.

    • `evaluates_normalize`: a normal form spells what the parts of the path leave,
    • `resolve_normalize`: where the last part names something, the other parts leave the
      directory, and the normal form of the path lies in the same one,
    • `evaluates_resolve_resolve`: two specifiers that are resolved one after the other are
      read in one pass.
-/
import FlatBundle.Proofs.Directories

namespace FlatBundle.ModulePath

/-! ## §1. The rules -/

/-- The parts of a path between its slashes. -/
def parts (path : String) : List (List Char) := path.toList.splitOn '/'

/-- A part that is the name of something. -/
def IsName (part : List Char) : Prop := part ≠ [] ∧ part ≠ ['.'] ∧ part ≠ ['.', '.']

instance (part : List Char) : Decidable (IsName part) :=
  inferInstanceAs (Decidable (part ≠ [] ∧ part ≠ ['.'] ∧ part ≠ ['.', '.']))

/-- The last part of a path is the name of something. -/
def EndsInName (path : String) : Prop := ∃ last, (parts path).getLast? = some last ∧ IsName last

/-- Parts that are read from left to right against a stack, the top of which is its end. -/
inductive Reads : (stack parts result : List (List Char)) → Prop where
  | done (stack : List (List Char)) : Reads stack [] stack
  | empty {stack rest result : List (List Char)} (h : Reads stack rest result) :
      Reads stack ([] :: rest) result
  | dot {stack rest result : List (List Char)} (h : Reads stack rest result) :
      Reads stack (['.'] :: rest) result
  | up {stack rest result : List (List Char)} {top : List Char} (h : Reads stack rest result) :
      Reads (stack ++ [top]) (['.', '.'] :: rest) result
  | upAtBottom {rest result : List (List Char)} (h : Reads [] rest result) :
      Reads [] (['.', '.'] :: rest) result
  | name {stack rest result : List (List Char)} {part : List Char} (isName : IsName part)
      (h : Reads (stack ++ [part]) rest result) : Reads stack (part :: rest) result

/-- Segments joined by single slashes, behind `/` or `./`; `.` if there is none. -/
def spell (rooted : Bool) : List (List Char) → List Char
  | [] => ['.']
  | first :: rest => (if rooted then ['/'] else ['.', '/']) ++ ['/'].intercalate (first :: rest)

/-- The path spells what the parts leave on the stack. -/
def Evaluates (rooted : Bool) (parts : List (List Char)) (path : String) : Prop :=
  ∃ segments, Reads [] parts segments ∧ path.toList = spell rooted segments

/-! ## §2. The stack of a walk follows the rules -/

theorem intercalate_pieces (cs : List Char) : ['/'].intercalate (pieces cs) = cs := by
  induction cs with
  | nil => rfl
  | cons c cs ih =>
      obtain ⟨piece, rest, hp⟩ := List.exists_cons_of_ne_nil (pieces_ne_nil cs)
      by_cases h : c = '/'
      · subst h
        rw [pieces_slash, List.intercalate_cons_of_ne_nil (pieces_ne_nil cs), ih]
        rfl
      · rw [pieces_cons_of_ne h hp, List.intercalate_cons_cons_left, ← hp, ih]

/-- Cut at its slashes, a text has its pieces as parts. -/
theorem parts_eq_pieces (path : String) : parts path = pieces path.toList := by
  have cut := List.splitOn_intercalate '/' (no_slash_of_mem_pieces path.toList)
    (pieces_ne_nil path.toList)
  rwa [intercalate_pieces] at cut

theorem step_of_isName {part : List Char} (h : IsName part) (stack : List (List Char)) :
    step stack part = part :: stack := by
  unfold step
  rw [if_neg (by simp [h.1, h.2.1]), if_neg h.2.2]

theorem Reads.eq_walk {stack parts result : List (List Char)} (h : Reads stack parts result) :
    result = (walk stack.reverse parts).reverse := by
  induction h with
  | done stack => simp [walk]
  | empty _ ih => exact ih
  | dot _ ih => exact ih
  | @up stack rest result top _ ih =>
      rw [ih, List.reverse_append]
      rfl
  | upAtBottom _ ih => exact ih
  | @name stack rest result part isName _ ih =>
      show result = (walk (step stack.reverse part) rest).reverse
      rw [ih, List.reverse_append, step_of_isName isName]
      rfl

/-- **A walk follows the rules**, and they allow nothing else. -/
theorem reads_walk (parts : List (List Char)) (stack : List (List Char)) :
    Reads stack parts (walk stack.reverse parts).reverse := by
  induction parts generalizing stack with
  | nil =>
      show Reads stack [] stack.reverse.reverse
      rw [List.reverse_reverse]
      exact .done stack
  | cons part rest ih =>
      show Reads stack (part :: rest) (walk (step stack.reverse part) rest).reverse
      by_cases isName : IsName part
      · have pushed := ih (stack ++ [part])
        rw [List.reverse_append] at pushed
        rw [step_of_isName isName]
        exact .name isName pushed
      · by_cases none : part = []
        · subst none
          exact .empty (ih stack)
        by_cases dot : part = ['.']
        · subst dot
          exact .dot (ih stack)
        have dots : part = ['.', '.'] := by
          unfold IsName at isName
          simpa [none, dot] using isName
        subst dots
        -- going up takes the top away, or stays at the bottom
        rcases List.eq_nil_or_concat stack with rfl | ⟨front, top, rfl⟩
        · exact .upAtBottom (ih [])
        · have popped := ih front
          rw [List.concat_eq_append, List.reverse_append]
          exact .up popped

theorem intercalate_cons (first : List Char) (rest : List (List Char)) :
    ['/'].intercalate (first :: rest) = first ++ rest.flatMap ('/' :: ·) := by
  induction rest generalizing first with
  | nil => simp
  | cons second rest ih =>
      rw [List.intercalate_cons_cons, ih, List.flatMap_cons]
      simp

theorem toList_render_eq_spell (rooted : Bool) (segments : List (List Char)) :
    (render rooted segments).toList = spell rooted segments := by
  cases segments with
  | nil => simp [render, spell]
  | cons first rest =>
      rw [toList_render (List.cons_ne_nil first rest)]
      show _ = (if rooted then ['/'] else ['.', '/']) ++ ['/'].intercalate (first :: rest)
      rw [intercalate_cons, List.flatMap_cons]
      cases rooted <;> simp

/-- What a path leaves on the stack, written back, is an evaluation of whatever parts leave
the same. -/
theorem evaluates_render (rooted : Bool) {segments ps : List (List Char)}
    (h : segments.reverse = walk [] ps) : Evaluates rooted ps (render rooted segments) := by
  refine ⟨segments, ?_, toList_render_eq_spell rooted segments⟩
  have read := reads_walk ps []
  rw [List.reverse_nil, ← h, List.reverse_reverse] at read
  exact read

theorem evaluates_normalize (path : String) :
    Evaluates (isRooted path) (parts path) (normalize path) := by
  refine evaluates_render _ ?_
  rw [reverse_segments, parts_eq_pieces]

/-! ## §3. Directories -/

/-- All parts but the last one leave the directory on the stack. -/
theorem walk_dropLast_parts (stack : List (List Char)) (path : String) :
    walk stack (parts path).dropLast = walk stack (pieces (dirname path).toList) := by
  obtain ⟨front, cut, same⟩ := exists_pieces_eq_concat path
  rw [parts_eq_pieces, cut, List.dropLast_concat, same]

theorem isSegment_of_endsInName {path : String} (h : EndsInName path) :
    IsSegment (basename path).toList := by
  obtain ⟨last, hlast, isName⟩ := h
  obtain ⟨front, cut, -⟩ := exists_pieces_eq_concat path
  rw [parts_eq_pieces, cut, List.getLast?_concat] at hlast
  obtain rfl : (basename path).toList = last := Option.some.inj hlast
  exact ⟨isName.1, isName.2.1, isName.2.2, no_slash_basename path⟩

/-- The last segment of a path in normal form is its last piece. -/
theorem basename_render (rooted : Bool) (front : List (List Char)) {last : List Char}
    (h : IsSegment last) : (basename (render rooted (front ++ [last]))).toList = last := by
  have text : (render rooted (front ++ [last])).toList
      = ((if rooted then [] else ['.']) ++ front.flatMap ('/' :: ·)) ++ '/' :: last := by
    rw [toList_render (by simp), List.flatMap_append, ← List.append_assoc]
    simp
  rw [basename, text, splitLast_append h.no_slash]
  simp

/-- The directory of a path in normal form has all segments but the last one. -/
theorem segments_dirname_render (rooted : Bool) {front : List (List Char)} {last : List Char}
    (hfront : ∀ s ∈ front, IsSegment s) (h : IsSegment last) :
    segments (dirname (render rooted (front ++ [last]))) = front := by
  have named := (segments_eq_concat_iff h).2 (basename_render rooted front h)
  have all : ∀ s ∈ front ++ [last], IsSegment s := by
    intro s hs
    rcases List.mem_append.1 hs with hs | hs
    · exact hfront s hs
    · exact List.mem_singleton.1 hs ▸ h
  rw [segments_render rooted all] at named
  exact (List.append_cancel_right named).symm

/-- A path is its directory and its last part, if that names something. -/
theorem segments_eq_concat {path : String} (h : EndsInName path) :
    segments path = segments (dirname path) ++ [(basename path).toList] :=
  (segments_eq_concat_iff (isSegment_of_endsInName h)).2 rfl

theorem isRooted_normalize {path : String} (h : EndsInName path) :
    isRooted (normalize path) = isRooted path :=
  isRooted_render _ (by simp [segments_eq_concat h])

/-- **The normal form of a path lies in the directory of the path.** -/
theorem segments_dirname_normalize {path : String} (h : EndsInName path) :
    segments (dirname (normalize path)) = segments (dirname path) := by
  rw [normalize, segments_eq_concat h]
  exact segments_dirname_render _ (isSegment_of_mem_segments _) (isSegment_of_endsInName h)

/-- **Resolution depends on the normal form of the module alone.** -/
theorem resolve_normalize {module : String} (h : EndsInName module) (specifier : String) :
    resolve specifier (normalize module) = resolve specifier module :=
  (resolve_eq_iff (isRooted_normalize h)).2 (segments_dirname_normalize h) specifier

/-! ## §4. One specifier after the other -/

/-- What a specifier means is written from its segments, rooted as the module is. -/
theorem resolve_eq_render {specifier : String} (hrel : isRelative specifier = true)
    (module : String) :
    resolve specifier module = render (isRooted module) (segments (resolve specifier module)) := by
  rw [resolve, if_pos hrel, segments_normalize, normalize, isRooted_join (dirname_ne_nil module),
    isRooted_dirname]

/-- What a specifier with a name at its end means lies in the directory of the specifier, read
from the directory of the module. -/
theorem reverse_segments_dirname_resolve {specifier : String}
    (hrel : isRelative specifier = true) (h : EndsInName specifier) (module : String) :
    isRooted (resolve specifier module) = isRooted module
      ∧ (segments (dirname (resolve specifier module))).reverse
        = walk [] ((parts module).dropLast ++ (parts specifier).dropLast) := by
  have isSegment := isSegment_of_endsInName h
  -- the specifier puts its last part on top of what is left of the two directories
  have read := reverse_segments_resolve hrel module
  rw [walk_pieces_eq_step, (step_eq_cons_iff isSegment).2 rfl] at read
  generalize directories : walk (walk [] (pieces (dirname module).toList))
    (pieces (dirname specifier).toList) = stack at read
  have split : segments (resolve specifier module)
      = stack.reverse ++ [(basename specifier).toList] := by
    rw [← List.reverse_inj, read]
    simp
  have inside : ∀ s ∈ stack.reverse, IsSegment s := by
    intro s hs
    apply isSegment_of_mem_segments (resolve specifier module)
    rw [split]
    exact List.mem_append_left _ hs
  constructor
  · rw [resolve_eq_render hrel, isRooted_render _ (by simp [split])]
  · rw [resolve_eq_render hrel, split, segments_dirname_render _ inside isSegment,
      List.reverse_reverse, walk_append, walk_dropLast_parts, walk_dropLast_parts, directories]

/-- **Two specifiers resolved one after the other are read in one pass.** -/
theorem evaluates_resolve_resolve {specifier between : String}
    (hrel : isRelative specifier = true) (hrel' : isRelative between = true)
    (h : EndsInName between) (module : String) :
    Evaluates (isRooted module) ((parts module).dropLast ++ (parts between).dropLast
      ++ parts specifier) (resolve specifier (resolve between module)) := by
  obtain ⟨rooted, directory⟩ := reverse_segments_dirname_resolve hrel' h module
  rw [resolve_eq_render hrel, rooted]
  apply evaluates_render
  rw [reverse_segments_resolve hrel, ← reverse_segments, directory, walk_append, walk_append,
    walk_append, parts_eq_pieces specifier]

/-! ## §5. The theorem -/

/-- **The algebra of paths.**  Any path has one normal form, which spells what its parts leave
on the stack; specifiers mean the same in a module and in its normal form; and specifiers that
are resolved one after the other evaluate in one pass. -/
theorem paths_areEvaluated :
    (∀ path, ∃ segments, Reads [] (parts path) segments
        ∧ (∀ s ∈ segments, IsName s ∧ '/' ∉ s)
        ∧ (normalize path).toList = spell (isRooted path) segments
        ∧ normalize (normalize path) = normalize path)
      ∧ (∀ specifier module, isRelative specifier = true → EndsInName module →
          resolve specifier module = resolve specifier (normalize module))
      ∧ ∀ specifier between module, isRelative specifier = true → isRelative between = true →
          EndsInName between →
          Evaluates (isRooted module) ((parts module).dropLast ++ (parts between).dropLast
            ++ parts specifier) (resolve specifier (resolve between module)) := by
  refine ⟨fun path => ?_, fun specifier module _ h => (resolve_normalize h specifier).symm,
    fun specifier between module hrel hrel' h => evaluates_resolve_resolve hrel hrel' h module⟩
  obtain ⟨_, reads, spelled⟩ := evaluates_normalize path
  have same := reads.eq_walk
  rw [List.reverse_nil, parts_eq_pieces] at same
  subst same
  refine ⟨_, reads, fun s hs => ?_, spelled, normalize_normalize path⟩
  have isSegment := isSegment_of_mem_segments path s hs
  exact ⟨⟨isSegment.ne_nil, isSegment.ne_dot, isSegment.ne_dots⟩, isSegment.no_slash⟩

theorem paths_areEvaluated_deepModule :
    isRelative "../../x" = true ∧ EndsInName "./a/..//b/./c"
      ∧ resolve "../../x" "./a/..//b/./c" = resolve "../../x" (normalize "./a/..//b/./c")
      ∧ isRelative "../../lib/deep" = true ∧ EndsInName "../../lib/deep"
      ∧ Evaluates true ((parts "/src/../main").dropLast ++ (parts "../../lib/deep").dropLast
          ++ parts "../../x") (resolve "../../x" (resolve "../../lib/deep" "/src/../main"))
      ∧ resolve "../../x" (resolve "../../lib/deep" "/src/../main") = "/x" := by
  have module : EndsInName "./a/..//b/./c" := ⟨"c".toList, by decide, by decide⟩
  have between : EndsInName "../../lib/deep" := ⟨"deep".toList, by decide, by decide⟩
  exact ⟨rfl, module, paths_areEvaluated.2.1 _ _ rfl module, rfl, between,
    paths_areEvaluated.2.2 _ _ "/src/../main" rfl rfl between, by decide⟩

end FlatBundle.ModulePath
