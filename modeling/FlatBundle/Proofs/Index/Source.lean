/-
  FlatBundle.Proofs.Index.Source
  ──────────────────────────────
  **THE SOURCE OF AN INDEX SAYS WHICH ROWS IT WAS MADE FROM.**

  The rows of a bundle go into the source of its index in groups, one group for each module
  and one line for each group.  `Lists` says which groups these are, without a word about
  sorting, and leaves no choice (`Lists.eq_groupsOf`):

    • the order of the rows does not matter,
    • the source is the lines of the groups, under the header and the export of the library,
    • the source can be cut into its lines, a line into its clauses and a clause into its
      names as long as no text has a mark of the source in it, so the source determines the
      rows up to their order (`perm_of_indexSource_eq`).
-/
import FlatBundle.Proofs.Bundling.Names
import FlatBundle.Proofs.ByteOrder
import FlatBundle.FlatIndex

namespace FlatBundle

/-! ## §1. Groups of rows -/

/-- The rows of one module, with the name of the module. -/
abbrev RowGroup := String × List PrivateEntry

/-- The rows are for different names of modules. -/
def RowsApart (privates : List PrivateEntry) : Prop :=
  (privates.map fun row => (row.module, row.name)).Nodup

instance (privates : List PrivateEntry) : Decidable (RowsApart privates) :=
  inferInstanceAs (Decidable (List.Nodup _))

/-- The groups hold the rows: one group for each module, the modules and the names of each
group in increasing order of their bytes. -/
structure Lists (groups : List RowGroup) (privates : List PrivateEntry) : Prop where
  modules : ∀ module, module ∈ groups.map Prod.fst ↔ ∃ row ∈ privates, row.module = module
  ascending : (groups.map Prod.fst).Pairwise BytesBefore
  rows : ∀ group ∈ groups, group.2.Perm (privates.filter (·.module = group.1))
  names : ∀ group ∈ groups, (group.2.map PrivateEntry.name).Pairwise BytesBefore

/-- The line of a group. -/
def groupLine (group : RowGroup) : String :=
  "export \x7b" ++ ",".intercalate (group.2.map fun row => row.name ++ " as " ++ row.privateName)
    ++ "\x7d from '" ++ group.1 ++ "';"

variable {privates other : List PrivateEntry} {groups : List RowGroup} {row : PrivateEntry}

/-! ## §2. Sorted without repetitions -/

theorem BytesBefore.ne {first second : String} (before : BytesBefore first second) :
    first ≠ second := String.ne_of_lt (bytesBefore_iff.1 before)

theorem BytesBefore.asymm {first second : String} (before : BytesBefore first second) :
    ¬ BytesBefore second first := by
  rw [bytesBefore_iff] at *
  exact String.lt_asymm before

theorem nodup_eraseDups : ∀ texts : List String, texts.eraseDups.Nodup
  | [] => List.nodup_nil
  | text :: texts => by
      rw [List.eraseDups_cons, List.nodup_cons, List.mem_eraseDups]
      exact ⟨by simp, nodup_eraseDups _⟩
termination_by texts => texts.length
decreasing_by exact Nat.lt_succ_of_le (List.length_filter_le _ _)

/-- Sorted by a text of which no two have the same, a list is in increasing order. -/
theorem pairwise_mergeSort_key {α : Type} (key : α → String) {items : List α}
    (apart : (items.map key).Nodup) :
    ((items.mergeSort fun a b => key a ≤ key b).map key).Pairwise BytesBefore := by
  have sorted : (items.mergeSort fun a b => key a ≤ key b).Pairwise
      fun a b => decide (key a ≤ key b) = true := by
    refine List.pairwise_mergeSort (fun a b c le le' => ?_) (fun a b => ?_) items
    · exact decide_eq_true (String.le_trans (of_decide_eq_true le) (of_decide_eq_true le'))
    · simpa using String.le_total (key a) (key b)
  have distinct := ((List.mergeSort_perm items fun a b => key a ≤ key b).map key).nodup_iff.2 apart
  rw [List.Nodup, List.pairwise_map] at distinct
  rw [List.pairwise_map]
  refine sorted.imp₂ (fun a b le ne => ?_) distinct
  rw [bytesBefore_iff]
  exact String.not_le.1 fun ge => ne (String.le_antisymm (of_decide_eq_true le) ge)

/-- Two lists in increasing order with the same members are the same list. -/
theorem eq_of_pairwise_bytesBefore {texts texts' : List String}
    (h : texts.Pairwise BytesBefore) (h' : texts'.Pairwise BytesBefore)
    (same : ∀ text, text ∈ texts ↔ text ∈ texts') : texts = texts' := by
  have perm := (List.perm_ext_iff_of_nodup (h.imp BytesBefore.ne) (h'.imp BytesBefore.ne)).2 same
  exact perm.eq_of_pairwise (fun _ _ _ _ before after => absurd after before.asymm) h h'

/-! ## §3. The groups of the rows -/

/-- The groups that an index is made of. -/
def groupsOf (privates : List PrivateEntry) : List RowGroup :=
  (modulesOf privates).map fun module =>
    (module, sortByName (privates.filter (·.module = module)))

theorem map_fst_groupsOf : (groupsOf privates).map Prod.fst = modulesOf privates := by
  rw [groupsOf, List.map_map]
  exact List.map_id _

theorem mem_modulesOf {module : String} :
    module ∈ modulesOf privates ↔ ∃ row ∈ privates, row.module = module := by
  rw [modulesOf, List.mem_mergeSort, List.mem_eraseDups, List.mem_map]

/-- Rows of one module have different names. -/
theorem RowsApart.nodup_names (apart : RowsApart privates) (module : String) :
    ((privates.filter (·.module = module)).map PrivateEntry.name).Nodup := by
  have pairs := ((List.filter_sublist (p := (·.module = module))).map _).nodup apart
  rw [List.Nodup, List.pairwise_map] at pairs ⊢
  refine pairs.imp_of_mem fun {row row'} hrow hrow' differ same => differ ?_
  rw [of_decide_eq_true (List.mem_filter.1 hrow).2, of_decide_eq_true (List.mem_filter.1 hrow').2,
    same]

theorem RowsApart.lists_groupsOf (apart : RowsApart privates) :
    Lists (groupsOf privates) privates where
  modules module := by rw [map_fst_groupsOf, mem_modulesOf]
  ascending := by
    have once : ((privates.map PrivateEntry.module).eraseDups.map id).Nodup := by
      rw [List.map_id]
      exact nodup_eraseDups _
    have sorted := pairwise_mergeSort_key id once
    rw [List.map_id] at sorted
    rw [map_fst_groupsOf]
    exact sorted
  rows group hgroup := by
    obtain ⟨module, -, rfl⟩ := List.mem_map.1 hgroup
    exact List.mergeSort_perm _ _
  names group hgroup := by
    obtain ⟨module, -, rfl⟩ := List.mem_map.1 hgroup
    exact pairwise_mergeSort_key PrivateEntry.name (apart.nodup_names module)

/-- **No other groups hold the rows.** -/
theorem Lists.eq_groupsOf (lists : Lists groups privates) (apart : RowsApart privates) :
    groups = groupsOf privates := by
  have canonical := apart.lists_groupsOf
  have modules : groups.map Prod.fst = modulesOf privates := by
    rw [← map_fst_groupsOf]
    refine eq_of_pairwise_bytesBefore lists.ascending canonical.ascending fun module => ?_
    rw [lists.modules, canonical.modules]
  rw [groupsOf, ← modules, List.map_map]
  refine (List.map_id groups).symm.trans (List.map_congr_left fun group hgroup => ?_)
  obtain ⟨module, rows⟩ := group
  have perm : rows.Perm (sortByName (privates.filter (·.module = module))) :=
    (lists.rows _ hgroup).trans (List.mergeSort_perm _ _).symm
  -- both are in increasing order of names, so a permutation is the identity
  have sorted := pairwise_mergeSort_key PrivateEntry.name (apart.nodup_names module)
  have names := lists.names _ hgroup
  rw [List.pairwise_map] at sorted names
  have same : rows = sortByName (privates.filter (·.module = module)) :=
    perm.eq_of_pairwise (fun _ _ _ _ before after => absurd after before.asymm) names sorted
  show (module, rows) = (module, sortByName (privates.filter (·.module = module)))
  rw [← same]

theorem RowsApart.of_perm (apart : RowsApart privates) (perm : other.Perm privates) :
    RowsApart other := ((perm.map _).nodup_iff).2 apart

/-- Rows in another order are held by the same groups. -/
theorem Lists.of_perm (lists : Lists groups privates) (perm : other.Perm privates) :
    Lists groups other where
  modules module := by
    rw [lists.modules]
    simp only [perm.mem_iff]
  ascending := lists.ascending
  rows group hgroup := (lists.rows group hgroup).trans (perm.filter _).symm
  names := lists.names

/-- The source of an index is the lines of its groups, below the header and the export of
the library. -/
theorem indexSource_eq (library : String) (privates : List PrivateEntry) :
    indexSource library privates
      = "\n".intercalate ([indexHeader, "export * from '" ++ library ++ "';", ""]
          ++ (groupsOf privates).map groupLine) := by
  rw [indexSource, groupsOf, List.map_map]
  rfl

/-! ## §4. Reading the source back -/

/-- The marks at which the source of an index is cut. -/
def sourceMarks : List Char := [' ', ',', '\x7b', '\x7d', '\n']

/-- A text without marks; it may have quotes. -/
def IsPlain (text : String) : Prop := ∀ c ∈ sourceMarks, c ∉ text.toList

instance (text : String) : Decidable (IsPlain text) :=
  List.decidableBAll (· ∉ text.toList) sourceMarks

/-- The texts of the row are without marks. -/
def PrivateEntry.IsPlain (row : PrivateEntry) : Prop :=
  ∀ text ∈ [row.module, row.name, row.privateName], FlatBundle.IsPlain text

instance (row : PrivateEntry) : Decidable row.IsPlain :=
  inferInstanceAs (Decidable (∀ text ∈ [row.module, row.name, row.privateName], _))

/-- A joined text has the characters of its parts and of what joins them. -/
theorem notMem_intercalate {c : Char} {separator : String} {texts : List String}
    (hseparator : c ∉ separator.toList) (free : ∀ text ∈ texts, c ∉ text.toList) :
    c ∉ (separator.intercalate texts).toList := by
  induction texts with
  | nil => simp
  | cons text texts ih =>
    have rest := ih fun other hother => free other (List.mem_cons_of_mem _ hother)
    have first := free text List.mem_cons_self
    cases texts with
    | nil => simpa using first
    | cons next texts =>
      rw [String.intercalate_cons_cons, String.toList_append, String.toList_append]
      simp only [List.mem_append, not_or]
      exact ⟨⟨first, hseparator⟩, rest⟩

/-- **Texts without the separator are read back from the joined text.** -/
theorem intercalate_inj {c : Char} {separator : String} (hseparator : separator.toList = [c])
    {texts texts' : List String} (some : texts ≠ []) (some' : texts' ≠ [])
    (free : ∀ text ∈ texts, c ∉ text.toList) (free' : ∀ text ∈ texts', c ∉ text.toList)
    (same : separator.intercalate texts = separator.intercalate texts') : texts = texts' := by
  have cut : ∀ {texts : List String}, texts ≠ [] → (∀ text ∈ texts, c ∉ text.toList) →
      (separator.intercalate texts).toList.splitOn c = texts.map String.toList := by
    intro texts some free
    rw [String.toList_intercalate, hseparator]
    refine List.splitOn_intercalate c ?_ (by simpa using some)
    simpa using free
  have pieces := cut some free
  rw [same, cut some' free'] at pieces
  exact (List.map_injective_iff.2 fun _ _ => String.toList_inj.1) pieces.symm

theorem exportClause_eq (row : PrivateEntry) :
    exportClause row = " ".intercalate [row.name, "as", row.privateName] := by
  have spaced : " as " = " " ++ ("as" ++ " ") := by decide
  rw [String.intercalate_cons_cons, String.intercalate_cons_cons, String.intercalate_singleton,
    exportClause, spaced]
  simp only [String.append_assoc]

/-- The line of a group, cut behind its clauses. -/
def lineHalves (group : RowGroup) : List String :=
  ["export \x7b" ++ ",".intercalate (group.2.map exportClause), " from '" ++ group.1 ++ "';"]

theorem groupLine_eq (group : RowGroup) :
    groupLine group = "\x7d".intercalate (lineHalves group) := by
  have closed : "\x7d from '" = "\x7d" ++ " from '" := by decide
  have clauses : (fun row : PrivateEntry => row.name ++ " as " ++ row.privateName)
    = exportClause := rfl
  rw [lineHalves, String.intercalate_cons_cons, String.intercalate_singleton, groupLine, clauses,
    closed]
  simp only [String.append_assoc]

theorem PrivateEntry.IsPlain.notMem_exportClause (plain : row.IsPlain) {c : Char}
    (mark : c ∈ sourceMarks) (outside : c ∉ " as ".toList) : c ∉ (exportClause row).toList := by
  have name := plain row.name (by simp) c mark
  have privateName := plain row.privateName (by simp) c mark
  simp only [exportClause, String.toList_append, List.mem_append, not_or]
  exact ⟨⟨name, outside⟩, privateName⟩

/-- A clause is cut at its spaces, so it has the names of one row of a module only. -/
theorem PrivateEntry.IsPlain.eq_of_exportClause_eq {row row' : PrivateEntry} (plain : row.IsPlain)
    (plain' : row'.IsPlain) (module : row.module = row'.module)
    (same : exportClause row = exportClause row') : row = row' := by
  have spaceless : ∀ {row : PrivateEntry}, row.IsPlain →
      ∀ text ∈ [row.name, "as", row.privateName], ' ' ∉ text.toList := by
    intro row plain text htext
    simp only [List.mem_cons, List.not_mem_nil, or_false] at htext
    rcases htext with rfl | rfl | rfl
    · exact plain row.name (by simp) _ (by decide)
    · decide
    · exact plain row.privateName (by simp) _ (by decide)
  rw [exportClause_eq, exportClause_eq] at same
  have words := intercalate_inj (by decide) (List.cons_ne_nil _ _) (List.cons_ne_nil _ _)
    (spaceless plain) (spaceless plain') same
  simp only [List.cons.injEq, true_and, and_true] at words
  obtain ⟨name, privateName⟩ := words
  cases row
  cases row'
  cases module
  cases name
  cases privateName
  rfl

/-! ## §5. Lines of groups -/

/-- A group with rows, without marks in them. -/
structure PlainGroup (group : RowGroup) : Prop where
  some : group.2 ≠ []
  module : IsPlain group.1
  rows : ∀ row ∈ group.2, row.IsPlain

variable {group group' : RowGroup}

/-- A line has one closing brace and no end of a line. -/
theorem PlainGroup.notMem_lineHalves (plain : PlainGroup group) {c : Char}
    (mark : c = '\n' ∨ c = '\x7d') : ∀ text ∈ lineHalves group, c ∉ text.toList := by
  have marked : c ∈ sourceMarks := by rcases mark with rfl | rfl <;> decide
  have fixed : ∀ text ∈ ["export \x7b", " as ", ",", " from '", "';"], c ∉ text.toList := by
    rcases mark with rfl | rfl <;> decide
  have clauses : c ∉ (",".intercalate (group.2.map exportClause)).toList := by
    refine notMem_intercalate (fixed _ (by simp)) fun clause hclause => ?_
    obtain ⟨row, hrow, rfl⟩ := List.mem_map.1 hclause
    exact (plain.rows row hrow).notMem_exportClause marked (fixed _ (by simp))
  have module := plain.module c marked
  intro text htext
  simp only [lineHalves, List.mem_cons, List.not_mem_nil, or_false] at htext
  rcases htext with rfl | rfl
  · simp only [String.toList_append, List.mem_append, not_or]
    exact ⟨fixed _ (by simp), clauses⟩
  · simp only [String.toList_append, List.mem_append, not_or]
    exact ⟨⟨fixed _ (by simp), module⟩, fixed _ (by simp)⟩

theorem PlainGroup.notMem_groupLine (plain : PlainGroup group) :
    '\n' ∉ (groupLine group).toList := by
  rw [groupLine_eq]
  exact notMem_intercalate (by decide) (plain.notMem_lineHalves (Or.inl rfl))

/-- **A line is cut at its closing brace and its commas**, so it has one module and one list
of clauses. -/
theorem PlainGroup.eq_of_groupLine_eq (plain : PlainGroup group) (plain' : PlainGroup group')
    (same : groupLine group = groupLine group') :
    group.1 = group'.1 ∧ group.2.map exportClause = group'.2.map exportClause := by
  have commaless : ∀ {group : RowGroup}, PlainGroup group →
      ∀ clause ∈ group.2.map exportClause, ',' ∉ clause.toList := by
    intro group plain clause hclause
    obtain ⟨row, hrow, rfl⟩ := List.mem_map.1 hclause
    exact (plain.rows row hrow).notMem_exportClause (by decide) (by decide)
  rw [groupLine_eq, groupLine_eq] at same
  have halves := intercalate_inj (by decide) (List.cons_ne_nil _ _) (List.cons_ne_nil _ _)
    (plain.notMem_lineHalves (Or.inr rfl)) (plain'.notMem_lineHalves (Or.inr rfl)) same
  simp only [List.cons.injEq, String.append_left_inj, String.append_right_inj, and_true] at halves
  obtain ⟨clauses, module⟩ := halves
  refine ⟨module, ?_⟩
  exact intercalate_inj (by decide) (by simpa using plain.some) (by simpa using plain'.some)
    (commaless plain) (commaless plain') clauses

theorem Lists.mem_iff (lists : Lists groups privates) (hgroup : group ∈ groups) :
    row ∈ group.2 ↔ row ∈ privates ∧ row.module = group.1 := by
  rw [(lists.rows group hgroup).mem_iff, List.mem_filter, decide_eq_true_iff]

/-- Every row is in the group of its module. -/
theorem Lists.exists_group (lists : Lists groups privates) (hrow : row ∈ privates) :
    ∃ group ∈ groups, row ∈ group.2 := by
  obtain ⟨group, hgroup, module⟩ := List.mem_map.1 ((lists.modules row.module).2 ⟨row, hrow, rfl⟩)
  exact ⟨group, hgroup, (lists.mem_iff hgroup).2 ⟨hrow, module.symm⟩⟩

theorem Lists.plainGroup (lists : Lists groups privates) (plain : ∀ row ∈ privates, row.IsPlain)
    (hgroup : group ∈ groups) : PlainGroup group := by
  obtain ⟨row, hrow, module⟩ := (lists.modules group.1).1 (List.mem_map_of_mem hgroup)
  have inside : row ∈ group.2 := (lists.mem_iff hgroup).2 ⟨hrow, module⟩
  refine ⟨List.ne_nil_of_mem inside, ?_, fun other hother => ?_⟩
  · rw [← module]
    exact plain row hrow row.module (by simp)
  · exact plain other ((lists.mem_iff hgroup).1 hother).1

/-! ## §6. The rows of a source -/

/-- **A source is cut at the ends of its lines**, so it has one list of groups' lines. -/
theorem map_groupLine_eq {library : String} (apart : RowsApart privates) (apart' : RowsApart other)
    (plain : ∀ row ∈ privates, row.IsPlain) (plain' : ∀ row ∈ other, row.IsPlain)
    (same : indexSource library privates = indexSource library other) :
    (groupsOf privates).map groupLine = (groupsOf other).map groupLine := by
  -- the empty line below the export of the library is cut off with the groups
  have top : ∀ privates, indexSource library privates
      = "\n".intercalate [indexHeader, "export * from '" ++ library ++ "';"] ++ "\n"
        ++ "\n".intercalate ("" :: (groupsOf privates).map groupLine) := by
    intro privates
    rw [indexSource_eq, ← String.intercalate_append_of_ne_nil (by simp) (by simp)]
    rfl
  have oneLine : ∀ {privates}, RowsApart privates → (∀ row ∈ privates, row.IsPlain) →
      ∀ line ∈ "" :: (groupsOf privates).map groupLine, '\n' ∉ line.toList := by
    intro privates apart plain line hline
    rcases List.mem_cons.1 hline with rfl | hline
    · decide
    · obtain ⟨group, hgroup, rfl⟩ := List.mem_map.1 hline
      exact (apart.lists_groupsOf.plainGroup plain hgroup).notMem_groupLine
  rw [top, top, String.append_right_inj] at same
  have lines := intercalate_inj (by decide) (List.cons_ne_nil _ _) (List.cons_ne_nil _ _)
    (oneLine apart plain) (oneLine apart' plain') same
  exact (List.cons.inj lines).2

/-- A row of one source is a row of every list that has the same source. -/
theorem mem_of_indexSource_eq {library : String} (apart : RowsApart privates)
    (apart' : RowsApart other) (plain : ∀ row ∈ privates, row.IsPlain)
    (plain' : ∀ row ∈ other, row.IsPlain)
    (same : indexSource library privates = indexSource library other) (hrow : row ∈ privates) :
    row ∈ other := by
  have lists := apart.lists_groupsOf
  have lists' := apart'.lists_groupsOf
  obtain ⟨group, hgroup, inside⟩ := lists.exists_group hrow
  -- the line of the group is a line of the other source, of a group of the same module
  have line : groupLine group ∈ (groupsOf other).map groupLine := by
    rw [← map_groupLine_eq apart apart' plain plain' same]
    exact List.mem_map_of_mem hgroup
  obtain ⟨group', hgroup', sameLine⟩ := List.mem_map.1 line
  obtain ⟨module, clauses⟩ :=
    (lists'.plainGroup plain' hgroup').eq_of_groupLine_eq (lists.plainGroup plain hgroup) sameLine
  -- the clause of the row is a clause of that group, of a row with the same names
  have clause : exportClause row ∈ group'.2.map exportClause := by
    rw [clauses]
    exact List.mem_map_of_mem inside
  obtain ⟨row', hrow', sameClause⟩ := List.mem_map.1 clause
  obtain ⟨known, at'⟩ := (lists'.mem_iff hgroup').1 hrow'
  have sameModule : row'.module = row.module := by
    rw [at', module, ((lists.mem_iff hgroup).1 inside).2]
  rwa [← (plain' row' known).eq_of_exportClause_eq (plain row hrow) sameModule sameClause]

theorem RowsApart.nodup (apart : RowsApart privates) : privates.Nodup := List.Nodup.of_map _ apart

/-- **The source determines the rows up to their order.** -/
theorem perm_of_indexSource_eq {library : String} (apart : RowsApart privates)
    (apart' : RowsApart other) (plain : ∀ row ∈ privates, row.IsPlain)
    (plain' : ∀ row ∈ other, row.IsPlain)
    (same : indexSource library privates = indexSource library other) : privates.Perm other := by
  rw [List.perm_ext_iff_of_nodup apart.nodup apart'.nodup]
  intro row
  exact ⟨mem_of_indexSource_eq apart apart' plain plain' same,
    mem_of_indexSource_eq apart' apart plain' plain same.symm⟩

/-- **The order of the rows does not matter.** -/
theorem RowsApart.indexSource_perm (apart : RowsApart privates) (library : String)
    (perm : other.Perm privates) : indexSource library other = indexSource library privates := by
  have groups := (apart.lists_groupsOf.of_perm perm).eq_groupsOf (apart.of_perm perm)
  rw [indexSource_eq, indexSource_eq, groups]

/-! ## §7. The theorem -/

/-- What the source of an index tells of the rows it was made from. -/
structure Renders (library : String) (privates : List PrivateEntry) : Prop where
  /-- The order of the rows does not matter. -/
  perm : ∀ other, other.Perm privates → indexSource library other = indexSource library privates
  /-- Below the header and the export of the library there is one line for each module. -/
  lines : ∃ groups, Lists groups privates ∧ indexSource library privates
    = "\n".intercalate ([indexHeader, "export * from '" ++ library ++ "';", ""]
        ++ groups.map groupLine)
  /-- Nothing but the order is lost. -/
  lossless : ∀ other, RowsApart other → (∀ row ∈ privates, row.IsPlain) →
    (∀ row ∈ other, row.IsPlain) → indexSource library privates = indexSource library other →
    privates.Perm other

/-- The rows of every bundle are for different names of modules. -/
theorem Host.HandleFree.rowsApart {host : Host} (free : host.HandleFree) (root importAs : String) :
    ∃ bundled, bundle root importAs host = .ok bundled ∧ RowsApart bundled.privates := by
  obtain ⟨_, _, _, bundled, bundles, converted, naming, holds⟩ := free.bundlesTo root importAs
  exact ⟨bundled, bundles.bundle, converted.nodup_privates naming holds⟩

/-- **The source of an index is its rows in an order of its own**, for the rows of every
bundle and whatever other rows are for different names of modules. -/
theorem indexSource_renders :
    (∀ host : Host, host.HandleFree → ∀ root importAs,
        ∃ bundled, bundle root importAs host = .ok bundled ∧ RowsApart bundled.privates)
      ∧ ∀ library privates, RowsApart privates → Renders library privates := by
  refine ⟨fun host free => free.rowsApart, fun library privates apart => ?_⟩
  refine ⟨fun other perm => apart.indexSource_perm library perm, ?_, ?_⟩
  · exact ⟨groupsOf privates, apart.lists_groupsOf, indexSource_eq library privates⟩
  · intro other apart' plain plain' same
    exact perm_of_indexSource_eq apart apart' plain plain' same

/-- Rows of two modules by turns, with one name in both of them. -/
def scatteredRows : List PrivateEntry :=
  [⟨"ɵb", "Zed", "./b"⟩, ⟨"ɵc", "Beta", "./a"⟩, ⟨"ɵd", "Beta", "./b"⟩, ⟨"ɵa", "Alpha", "./a"⟩]

theorem indexSource_renders_scatteredRows :
    (∃ bundled, bundle "./index" "shapes" shapeLibrary = .ok bundled
        ∧ RowsApart bundled.privates)
      ∧ Renders "./index" scatteredRows
      ∧ RowsApart scatteredRows.reverse
      ∧ (∀ row ∈ scatteredRows ++ scatteredRows.reverse, row.IsPlain)
      ∧ indexSource "./index" scatteredRows.reverse = indexSource "./index" scatteredRows
      ∧ scatteredRows.Perm scatteredRows.reverse := by
  have renders := indexSource_renders.2 "./index" scatteredRows (by decide)
  have apart : RowsApart scatteredRows.reverse := by decide
  have plain : ∀ row ∈ scatteredRows, row.IsPlain := by decide
  have plain' : ∀ row ∈ scatteredRows.reverse, row.IsPlain :=
    fun row hrow => plain row (List.mem_reverse.1 hrow)
  have same := renders.perm scatteredRows.reverse (List.reverse_perm _)
  exact ⟨indexSource_renders.1 shapeLibrary handleFree_shapeLibrary "./index" "shapes", renders,
    apart, List.forall_mem_append.2 ⟨plain, plain'⟩, same,
    renders.lossless scatteredRows.reverse apart plain plain' same.symm⟩

example : indexSource "./index" [⟨"ɵb", "Zed", "./b"⟩, ⟨"ɵc", "Beta", "./a"⟩]
    = indexHeader ++ "\nexport * from './index';\n\n"
      ++ "export \x7bBeta as ɵc\x7d from './a';\nexport \x7bZed as ɵb\x7d from './b';" := by
  cbv

end FlatBundle
