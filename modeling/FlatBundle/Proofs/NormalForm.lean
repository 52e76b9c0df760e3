/-
  FlatBundle.Proofs.NormalForm
  ────────────────────────────
  **NORMAL FORMS OF MODULE PATHS.**

  A path in normal form is its segments, written with single slashes between
  them; reading it back leaves the same segments on the stack
  (`segments_render`).  Hence

    • normalising again changes nothing (`normalize_normalize`), so what a
      specifier resolves to is in normal form (`isNormal_resolve`),
    • read from one root, two modules in normal form are different paths
      (`resolve_injective`): a library has as many modules as documents,
    • a relative specifier leads from a module inside of the bundle to another one
      (`isRelative_resolve`).
-/
import FlatBundle.ModulePath

namespace FlatBundle.ModulePath

/-! ## §1. Cutting at slashes -/

/-- A piece of a path that names something. -/
structure IsSegment (piece : List Char) : Prop where
  ne_nil : piece ≠ []
  ne_dot : piece ≠ ['.']
  ne_dots : piece ≠ ['.', '.']
  no_slash : '/' ∉ piece

theorem pieces_ne_nil (cs : List Char) : pieces cs ≠ [] := by
  cases cs with
  | nil => simp [pieces]
  | cons c cs =>
      rw [pieces]
      split
      · simp
      · split <;> simp

theorem pieces_slash (cs : List Char) : pieces ('/' :: cs) = [] :: pieces cs := by
  simp [pieces]

theorem pieces_cons_of_ne {c : Char} (h : c ≠ '/') {cs piece : List Char} {rest : List (List Char)}
    (hp : pieces cs = piece :: rest) : pieces (c :: cs) = (c :: piece) :: rest := by
  rw [pieces, if_neg h, hp]

/-- No piece has a slash in it. -/
theorem no_slash_of_mem_pieces (cs : List Char) : ∀ piece ∈ pieces cs, '/' ∉ piece := by
  induction cs with
  | nil => simp [pieces]
  | cons c cs ih =>
      intro piece hmem
      -- a slash opens a piece, any other letter goes into the first
      by_cases h : c = '/'
      · rw [h, pieces_slash] at hmem
        rcases List.mem_cons.1 hmem with rfl | hmem
        · simp
        · exact ih piece hmem
      · obtain ⟨first, rest, hp⟩ := List.exists_cons_of_ne_nil (pieces_ne_nil cs)
        rw [pieces_cons_of_ne h hp] at hmem
        rcases List.mem_cons.1 hmem with rfl | hmem
        · have := ih first (hp ▸ List.mem_cons_self)
          simp [this, Ne.symm h]
        · exact ih piece (hp ▸ List.mem_cons_of_mem _ hmem)

/-- A slash between two texts separates their pieces. -/
theorem pieces_append_slash (before after : List Char) :
    pieces (before ++ '/' :: after) = pieces before ++ pieces after := by
  induction before with
  | nil => simp [pieces]
  | cons c before ih =>
      by_cases h : c = '/'
      · rw [h, List.cons_append, pieces_slash, pieces_slash, ih]
        rfl
      · obtain ⟨piece, rest, hp⟩ := List.exists_cons_of_ne_nil (pieces_ne_nil before)
        rw [hp] at ih
        rw [List.cons_append, pieces_cons_of_ne h hp, pieces_cons_of_ne h ih]
        rfl

/-- A text without a slash belongs to the first piece of what follows. -/
theorem pieces_append_of_no_slash {text : List Char} (h : '/' ∉ text) {after piece : List Char}
    {rest : List (List Char)} (hp : pieces after = piece :: rest) :
    pieces (text ++ after) = (text ++ piece) :: rest := by
  induction text with
  | nil => exact hp
  | cons c text ih =>
      have hc : c ≠ '/' := fun e => h (e ▸ List.mem_cons_self)
      have := ih fun hmem => h (List.mem_cons_of_mem _ hmem)
      rw [List.cons_append, pieces_cons_of_ne hc this]
      rfl

/-- Segments, each behind a slash, are cut into an empty piece and themselves. -/
theorem pieces_flatMap_slash {segments : List (List Char)} (h : ∀ s ∈ segments, '/' ∉ s) :
    pieces (segments.flatMap ('/' :: ·)) = [] :: segments := by
  induction segments with
  | nil => rfl
  | cons segment rest ih =>
      have := ih fun s hs => h s (List.mem_cons_of_mem _ hs)
      rw [List.flatMap_cons, List.cons_append, pieces_slash,
        pieces_append_of_no_slash (h segment List.mem_cons_self) this, List.append_nil]

/-! ## §2. Reading pieces against the stack -/

theorem walk_append (stack : List (List Char)) (ps qs : List (List Char)) :
    walk stack (ps ++ qs) = walk (walk stack ps) qs :=
  List.foldl_append

/-- Segments are pushed. -/
theorem walk_segments {segments : List (List Char)} (h : ∀ s ∈ segments, IsSegment s)
    (stack : List (List Char)) : walk stack segments = segments.reverse ++ stack := by
  induction segments generalizing stack with
  | nil => rfl
  | cons segment rest ih =>
      have hs := h segment List.mem_cons_self
      have pushed : step stack segment = segment :: stack := by
        rw [step, if_neg (by simp [hs.ne_nil, hs.ne_dot]), if_neg hs.ne_dots]
      show walk (step stack segment) rest = _
      rw [pushed, ih fun s hmem => h s (List.mem_cons_of_mem _ hmem)]
      simp

theorem isSegment_of_mem_walk {pieces : List (List Char)} (h : ∀ piece ∈ pieces, '/' ∉ piece)
    {stack : List (List Char)} (hstack : ∀ s ∈ stack, IsSegment s) :
    ∀ s ∈ walk stack pieces, IsSegment s := by
  induction pieces generalizing stack with
  | nil => exact hstack
  | cons piece rest ih =>
      show ∀ s ∈ walk (step stack piece) rest, IsSegment s
      apply ih fun p hp => h p (List.mem_cons_of_mem _ hp)
      intro s hs
      -- a piece is dropped, takes a segment away, or is a segment itself
      unfold step at hs
      split at hs
      · exact hstack s hs
      · next hne =>
          split at hs
          · exact hstack s (List.mem_of_mem_tail hs)
          · next hdots =>
              rcases List.mem_cons.1 hs with rfl | hs
              · exact ⟨fun e => hne (Or.inl e), fun e => hne (Or.inr e), hdots,
                  h s List.mem_cons_self⟩
              · exact hstack s hs

/-- What a path leaves on the stack names something. -/
theorem isSegment_of_mem_segments (path : String) : ∀ s ∈ segments path, IsSegment s := by
  intro s hs
  exact isSegment_of_mem_walk (no_slash_of_mem_pieces path.toList) (by simp) s
    (List.mem_reverse.1 hs)

/-! ## §3. Writing segments and reading them back -/

theorem toList_render {segments : List (List Char)} (h : segments ≠ []) (rooted : Bool) :
    (render rooted segments).toList
      = (if rooted then [] else ['.']) ++ segments.flatMap ('/' :: ·) := by
  rw [render, if_neg h, String.toList_ofList]

theorem walk_pieces_render (rooted : Bool) {segments : List (List Char)}
    (h : ∀ s ∈ segments, IsSegment s) (stack : List (List Char)) :
    walk stack (pieces (render rooted segments).toList) = segments.reverse ++ stack := by
  by_cases hnil : segments = []
  · have dot : (render rooted segments).toList = ['.'] := by
      rw [render, if_pos hnil]
      simp
    rw [dot, hnil]
    rfl
  · have cut := pieces_flatMap_slash fun s hs => (h s hs).no_slash
    rw [toList_render hnil]
    cases rooted with
    | true =>
        show walk stack (pieces (segments.flatMap ('/' :: ·))) = _
        rw [cut]
        show walk (step stack []) segments = _
        rw [step, if_pos (Or.inl rfl), walk_segments h]
    | false =>
        show walk stack (pieces (['.'] ++ segments.flatMap ('/' :: ·))) = _
        rw [pieces_append_of_no_slash (by simp) cut]
        show walk (step stack ['.']) segments = _
        rw [step, if_pos (Or.inr rfl), walk_segments h]

/-- **Segments that are written are read back.** -/
theorem segments_render (rooted : Bool) {segments : List (List Char)}
    (h : ∀ s ∈ segments, IsSegment s) :
    ModulePath.segments (render rooted segments) = segments := by
  rw [ModulePath.segments, walk_pieces_render rooted h, List.append_nil, List.reverse_reverse]

theorem isRooted_render (rooted : Bool) {segments : List (List Char)} (h : segments ≠ []) :
    isRooted (render rooted segments) = rooted := by
  rw [isRooted, toList_render h]
  cases rooted with
  | false => rfl
  | true =>
      obtain ⟨segment, rest, rfl⟩ := List.exists_cons_of_ne_nil h
      rfl

theorem segments_normalize (path : String) : segments (normalize path) = segments path :=
  segments_render _ (isSegment_of_mem_segments path)

/-- What is written is in normal form. -/
theorem normalize_render (rooted : Bool) {segments : List (List Char)}
    (h : ∀ s ∈ segments, IsSegment s) :
    normalize (render rooted segments) = render rooted segments := by
  by_cases hnil : segments = []
  · have dot : render rooted segments = "." := by rw [render, if_pos hnil]
    rw [dot]
    rfl
  · rw [normalize, segments_render rooted h, isRooted_render rooted hnil]

theorem normalize_normalize (path : String) : normalize (normalize path) = normalize path :=
  normalize_render (isRooted path) (isSegment_of_mem_segments path)

/-! ## §4. Modules in normal form -/

/-- A name of a module by which alone the module is known: a path in normal form,
or the name of a module outside of the bundle. -/
def IsNormal (module : String) : Prop :=
  isRelative module = true → normalize module = module

instance (module : String) : Decidable (IsNormal module) :=
  inferInstanceAs (Decidable (isRelative module = true → normalize module = module))

theorem isNormal_resolve (specifier source : String) : IsNormal (resolve specifier source) := by
  intro h
  unfold resolve at h ⊢
  split
  · exact normalize_normalize _
  · next hrel =>
      rw [if_neg hrel] at h
      exact absurd h hrel

theorem isRooted_of_isRelative {module : String} (h : isRelative module = true) :
    isRooted module = false := by
  unfold isRelative at h
  unfold isRooted
  simp at h
  rw [h]
  rfl

/-- A module in normal form is its segments. -/
theorem eq_render_of_isNormal {module : String} (h : IsNormal module)
    (hrel : isRelative module = true) : module = render false (segments module) := by
  have same := h hrel
  rw [normalize, isRooted_of_isRelative hrel] at same
  exact same.symm

/-- A relative specifier is read on top of the segments of the directory. -/
theorem reverse_segments_resolve {specifier : String} (hrel : isRelative specifier = true)
    (source : String) : (segments (resolve specifier source)).reverse
      = walk (walk [] (pieces (dirname source).toList)) (pieces specifier.toList) := by
  have text : (dirname source ++ "/" ++ specifier).toList
      = (dirname source).toList ++ '/' :: specifier.toList := by
    simp
  rw [resolve, if_pos hrel, segments_normalize, segments, List.reverse_reverse, text,
    pieces_append_slash, walk_append]

/-- Read from a root, a module in normal form adds its segments to those of the
root's directory. -/
theorem segments_resolve {module : String} (h : IsNormal module) (hrel : isRelative module = true)
    (root : String) :
    segments (resolve module root) = segments (dirname root) ++ segments module := by
  rw [← List.reverse_inj, reverse_segments_resolve hrel]
  have read := walk_pieces_render false (isSegment_of_mem_segments module)
    (walk [] (pieces (dirname root).toList))
  rw [← eq_render_of_isNormal h hrel] at read
  rw [read, List.reverse_append, segments, segments, List.reverse_reverse, List.reverse_reverse]

/-- **Two modules in normal form are two paths**, read from any root. -/
theorem resolve_injective {first second root : String} (h : IsNormal first)
    (hrel : isRelative first = true) (h' : IsNormal second) (hrel' : isRelative second = true)
    (same : resolve first root = resolve second root) : first = second := by
  have split := segments_resolve h hrel root
  rw [same, segments_resolve h' hrel' root] at split
  rw [eq_render_of_isNormal h hrel, eq_render_of_isNormal h' hrel',
    List.append_cancel_left split]

/-! ## §5. What is inside of the bundle stays inside -/

theorem no_slash_of_splitLast {cs : List Char} (h : splitLast cs = none) : '/' ∉ cs := by
  induction cs with
  | nil => simp
  | cons c cs ih =>
      rw [splitLast] at h
      split at h
      · cases h
      · next uncut =>
          split at h
          · cases h
          · next hc => simp [ih uncut, Ne.symm hc]

/-- A text is cut at a slash, and there is none behind it. -/
theorem eq_append_of_splitLast {cs before after : List Char}
    (h : splitLast cs = some (before, after)) : cs = before ++ '/' :: after ∧ '/' ∉ after := by
  induction cs generalizing before with
  | nil => cases h
  | cons c cs ih =>
      rw [splitLast] at h
      split at h
      · next cut =>
          cases h
          obtain ⟨rfl, last⟩ := ih cut
          exact ⟨rfl, last⟩
      · next uncut =>
          split at h
          · next hc =>
              cases h
              exact ⟨hc ▸ rfl, no_slash_of_splitLast uncut⟩
          · cases h

theorem no_slash_basename (path : String) : '/' ∉ (basename path).toList := by
  rw [basename]
  split
  · next uncut => exact no_slash_of_splitLast uncut
  · next cut =>
      rw [String.toList_ofList]
      exact (eq_append_of_splitLast cut).2

/-- The directory of a module inside of the bundle is inside of it. -/
theorem isRelative_dirname {source : String} (hrel : isRelative source = true) :
    isRelative (dirname source) = true := by
  simp only [isRelative, decide_eq_true_eq] at hrel
  rw [dirname]
  split
  · rfl
  · next cut =>
      rw [(eq_append_of_splitLast cut).1] at hrel
      cases hrel
  · next before _ nonempty cut =>
      obtain ⟨c, rest, rfl⟩ := List.exists_cons_of_ne_nil nonempty
      rw [(eq_append_of_splitLast cut).1] at hrel
      simpa [isRelative] using hrel

theorem isRelative_render (segments : List (List Char)) : isRelative (render false segments) := by
  by_cases hnil : segments = []
  · rw [hnil]
    rfl
  · rw [isRelative, toList_render hnil]
    rfl

/-- **A relative specifier in a module inside of the bundle** means a module inside of it. -/
theorem isRelative_resolve {specifier source : String} (hrel : isRelative specifier = true)
    (hsource : isRelative source = true) : isRelative (resolve specifier source) = true := by
  have inside : isRelative (dirname source ++ "/" ++ specifier) = true := by
    have first := isRelative_dirname hsource
    simp only [isRelative, decide_eq_true_eq] at first ⊢
    simp [List.head?_append, first]
  rw [resolve, if_pos hrel, normalize, isRooted_of_isRelative inside]
  exact isRelative_render _

/-- A name behind a dot and a slash is a module of one segment. -/
theorem slash_eq_render (name : String) : "./" ++ name = render false [name.toList] := by
  apply String.toList_injective
  rw [toList_render (List.cons_ne_nil _ _)]
  simp

/-- A name behind a dot and a slash is a module in normal form. -/
theorem isNormal_slash {name : String} (h : IsSegment name.toList) : IsNormal ("./" ++ name) := by
  intro _
  rw [slash_eq_render]
  exact normalize_render false (by simpa using h)

theorem segments_slash {name : String} (h : IsSegment name.toList) :
    segments ("./" ++ name) = [name.toList] := by
  rw [slash_eq_render]
  exact segments_render false (by simpa using h)

end FlatBundle.ModulePath
