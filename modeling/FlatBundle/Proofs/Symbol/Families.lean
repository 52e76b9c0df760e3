/-
  FlatBundle.Proofs.Symbol.Families
  ─────────────────────────────────
  **FAMILIES OF ALIASES.**

  The symbols that links connect, in whichever direction, are a family.  A symbol has one
  link at most, so the links of a family run together: each member leads to the
  declaration of each other (`sameFamily_iff_leadsTo`), also from a chain that runs into a
  cycle, where the walk stops at a symbol that depends on where it began.

    • Whether a symbol is private is decided by its family, and so it does not depend on
      the order in which the links were recorded (`isPrivate_of_family`),
    • which symbol stands for a member is the same for the whole family, and stands for
      itself, exactly if the root exports a member or the family has no cycle
      (`SymbolTable.oneIdentity`).
-/
import FlatBundle.Proofs.Symbol.Identity
import FlatBundle.Proofs.Symbol.Recording

namespace FlatBundle.SymbolTable

variable {table : SymbolTable} {exported : List SymbolId}

/-! ## §1. Families -/

/-- Links connect the two symbols, in whichever direction each of them goes. -/
def SameFamily (table : SymbolTable) : SymbolId → SymbolId → Prop :=
  Relation.EqvGen fun id source => table.exports id = some source

theorem SameFamily.refl (table : SymbolTable) (id : SymbolId) : table.SameFamily id id :=
  Relation.EqvGen.refl id

theorem SameFamily.symm {id other : SymbolId} (h : table.SameFamily id other) :
    table.SameFamily other id :=
  Relation.EqvGen.symm id other h

theorem SameFamily.trans {first second third : SymbolId} (h : table.SameFamily first second)
    (h' : table.SameFamily second third) : table.SameFamily first third :=
  Relation.EqvGen.trans first second third h h'

theorem LeadsTo.sameFamily {id other : SymbolId} (h : table.LeadsTo id other) :
    table.SameFamily id other :=
  Relation.EqvGen.reflTransGen_le_eqvGen _ _ _ h

/-- What two symbols lead to together is met by both: links never part. -/
theorem sameFamily_iff_join {id other : SymbolId} :
    table.SameFamily id other
      ↔ ∃ common, table.LeadsTo id common ∧ table.LeadsTo other common := by
  constructor
  · have diamond : ∀ a b c, table.exports a = some b → table.exports a = some c →
        ∃ d, Relation.ReflGen (fun id source => table.exports id = some source) b d
          ∧ table.LeadsTo c d := by
      intro a b c hb hc
      obtain rfl := Option.some.inj (hb.symm.trans hc)
      exact ⟨b, Relation.ReflGen.refl, Relation.ReflTransGen.refl⟩
    have joins := Relation.equivalence_join_reflTransGen diamond
    intro h
    induction h with
    | rel a b step =>
        exact ⟨b, Relation.ReflTransGen.single step, Relation.ReflTransGen.refl⟩
    | refl a => exact joins.refl a
    | symm a b _ ih => exact joins.symm ih
    | trans a b c _ _ ih ih' => exact joins.trans ih ih'
  · intro h
    obtain ⟨common, here, there⟩ := h
    exact here.sameFamily.trans there.sameFamily.symm

/-- Whatever an end leads to leads back to it. -/
theorem IsEnd.back {id other : SymbolId} (h : table.IsEnd id) (leads : table.LeadsTo id other) :
    table.LeadsTo other id := by
  rcases h with stop | ⟨next, step, cycle⟩
  · rcases Relation.ReflTransGen.cases_head leads with rfl | ⟨source, step, -⟩
    · exact Relation.ReflTransGen.refl
    · cases stop.symm.trans step
  · exact LeadsTo.back step cycle leads

/-- **A family is what leads to the declaration of one of its members.** -/
theorem sameFamily_iff_leadsTo (linked : table.Linked) {id other : SymbolId} :
    table.SameFamily other id ↔ table.LeadsTo other (table.declaration id) := by
  constructor
  · intro h
    obtain ⟨common, here, there⟩ := sameFamily_iff_join.1 h
    -- the two walks from the symbol go along one chain, and the declaration is an end of it
    refine here.trans ?_
    rcases there.total (table.leadsTo_declaration id) with leads | leads
    · exact leads
    · exact (isEnd_declaration linked id).back leads
  · intro leads
    exact leads.sameFamily.trans (table.leadsTo_declaration id).sameFamily.symm

theorem SameFamily.lt_size (linked : table.Linked) {id other : Nat}
    (h : table.SameFamily other id) (hid : id < table.size) : other < table.size := by
  rcases Relation.ReflTransGen.cases_head ((sameFamily_iff_leadsTo linked).1 h) with
    same | ⟨source, step, -⟩
  · rw [same]
    exact (table.leadsTo_declaration id).lt_size linked hid
  · exact lt_size_of_exports step

/-- A cycle of links is in the family of the symbol. -/
def HasCycle (table : SymbolTable) (id : SymbolId) : Prop :=
  ∃ member next, table.SameFamily member id ∧ table.exports member = some next
    ∧ table.LeadsTo next member

/-- Without a cycle the walk from a member ends at a symbol that exports nothing. -/
theorem not_hasCycle_iff (linked : table.Linked) {id : SymbolId} :
    ¬ table.HasCycle id ↔ table.exports (table.declaration id) = none := by
  constructor
  · intro straight
    rcases isEnd_declaration linked id with stop | ⟨next, step, cycle⟩
    · exact stop
    · exact absurd ⟨table.declaration id, next, (table.leadsTo_declaration id).sameFamily.symm,
        step, cycle⟩ straight
  · rintro stop ⟨member, next, family, step, cycle⟩
    -- the declaration would be on the cycle too, and so have a link
    have back := LeadsTo.back step cycle ((sameFamily_iff_leadsTo linked).1 family)
    rcases Relation.ReflTransGen.cases_head back with same | ⟨source, hs, -⟩
    · rw [same, step] at stop
      cases stop
    · cases stop.symm.trans hs

/-- Without a cycle the declaration is the one member that exports nothing. -/
theorem SameFamily.exports_eq_none_iff (linked : table.Linked) {id other : SymbolId}
    (family : table.SameFamily other id) (straight : ¬ table.HasCycle id) :
    table.exports other = none ↔ other = table.declaration id := by
  constructor
  · intro none
    have leads := (sameFamily_iff_leadsTo linked).1 family
    rcases Relation.ReflTransGen.cases_head leads with same | ⟨source, step, -⟩
    · exact same
    · cases none.symm.trans step
  · rintro rfl
    exact (not_hasCycle_iff linked).1 straight

theorem SameFamily.not_hasCycle {id other : SymbolId} (h : table.SameFamily other id)
    (straight : ¬ table.HasCycle id) : ¬ table.HasCycle other := by
  rintro ⟨member, next, family, step, cycle⟩
  exact straight ⟨member, next, family.trans h, step, cycle⟩

/-- Without a cycle all members have one declaration. -/
theorem SameFamily.declaration_eq (linked : table.Linked) {id other : SymbolId}
    (h : table.SameFamily other id) (straight : ¬ table.HasCycle id) :
    table.declaration other = table.declaration id := by
  have family : table.SameFamily (table.declaration other) id :=
    (table.leadsTo_declaration other).sameFamily.symm.trans h
  exact (family.exports_eq_none_iff linked straight).1
    ((not_hasCycle_iff linked).1 (h.not_hasCycle straight))

/-! ## §2. Privacy -/

/-- **A symbol is private exactly if the root exports no member of its family.** -/
theorem isPrivate_iff_family (linked : table.Linked) {id : Nat} (hid : id < table.size) :
    (table.canonicalize exported id).isPrivate = true
      ↔ ∀ member, table.SameFamily member id → member ∉ exported := by
  rw [isPrivate_iff linked hid]
  constructor
  · intro apart member family hmember
    exact apart member hmember ((sameFamily_iff_leadsTo linked).1 family)
  · intro apart root hroot leads
    exact apart root ((sameFamily_iff_leadsTo linked).2 leads) hroot

/-- The members of a family are all private or all public. -/
theorem SameFamily.isPrivate_eq (linked : table.Linked) {id other : Nat}
    (h : table.SameFamily other id) (hid : id < table.size) :
    (table.canonicalize exported other).isPrivate = (table.canonicalize exported id).isPrivate := by
  rw [Bool.eq_iff_iff, isPrivate_iff_family linked (h.lt_size linked hid),
    isPrivate_iff_family linked hid]
  constructor
  · intro apart member family
    exact apart member (family.trans h.symm)
  · intro apart member family
    exact apart member (family.trans h)

/-- What stands for a symbol is a member of its family. -/
theorem sameFamily_symbol (linked : table.Linked) (id : SymbolId) :
    table.SameFamily (table.canonicalize exported id).symbol id := by
  cases h : (table.canonicalize exported id).isPrivate with
  | true =>
      rw [symbol_of_isPrivate h]
      exact (table.leadsTo_declaration id).sameFamily.symm
  | false => exact (sameFamily_iff_leadsTo linked).2 (symbol_of_isPublic linked h).2

/-- The identity of a symbol, as far as its family decides it. -/
structure FamilyDecides (table : SymbolTable) (exported : List SymbolId) (id : SymbolId) :
    Prop where
  /-- The symbol is private exactly if the root exports no member, -/
  isPrivate_iff : (table.canonicalize exported id).isPrivate = true
    ↔ ∀ member, table.SameFamily member id → member ∉ exported
  /-- and so is every other member. -/
  agree : ∀ other, table.SameFamily other id →
    (table.canonicalize exported other).isPrivate = (table.canonicalize exported id).isPrivate
  declaration : table.SameFamily (table.canonicalize exported id).declaration id
  symbol : table.SameFamily (table.canonicalize exported id).symbol id
  /-- A public symbol stands in the bundle under a root export. -/
  mem_of_isPublic : (table.canonicalize exported id).isPrivate = false →
    (table.canonicalize exported id).symbol ∈ exported
  /-- Without a cycle the declaration is the one member that exports nothing. -/
  ends : ¬ table.HasCycle id → ∀ other, table.SameFamily other id →
    (table.exports other = none ↔ other = (table.canonicalize exported id).declaration)

theorem familyDecides (linked : table.Linked) (exported : List SymbolId) {id : Nat}
    (hid : id < table.size) : table.FamilyDecides exported id where
  isPrivate_iff := isPrivate_iff_family linked hid
  agree := fun _ family => family.isPrivate_eq linked hid
  declaration := by
    rw [declaration_canonicalize]
    exact (table.leadsTo_declaration id).sameFamily.symm
  symbol := sameFamily_symbol linked id
  mem_of_isPublic := fun h => (symbol_of_isPublic linked h).1
  ends := by
    intro straight other family
    rw [declaration_canonicalize]
    exact family.exports_eq_none_iff linked straight

/-! ## §3. The order in which links are recorded -/

/-- Families can be read off the names that are linked, whatever their numbers are. -/
theorem sameFamily_iff_edges (linked : table.Linked) {id other : SymbolId}
    {key key' : String × String} (hid : table.key? id = some key)
    (hother : table.key? other = some key') :
    table.SameFamily id other ↔ Relation.EqvGen table.HasEdge key key' := by
  constructor
  · intro h
    induction h generalizing key key' with
    | rel a b step => exact Relation.EqvGen.rel _ _ ⟨a, b, hid, hother, step⟩
    | refl a =>
        obtain rfl := Option.some.inj (hid.symm.trans hother)
        exact Relation.EqvGen.refl _
    | symm a b _ ih => exact Relation.EqvGen.symm _ _ (ih hother hid)
    | trans a b c h _ ih ih' =>
        -- a symbol between two others has a name
        have bound : b < table.size := SameFamily.lt_size linked
          (SameFamily.symm h) (lt_size_of_key? hid)
        obtain ⟨module, name, hb⟩ := exists_key?_of_lt bound
        exact Relation.EqvGen.trans _ _ _ (ih hid hb) (ih' hb hother)
  · intro h
    -- names that are linked are those of symbols
    have found : key = key' ∨ ∃ a b, table.key? a = some key ∧ table.key? b = some key'
        ∧ table.SameFamily a b := by
      clear hid hother
      induction h with
      | rel first second edge =>
          obtain ⟨a, b, ha, hb, step⟩ := edge
          exact Or.inr ⟨a, b, ha, hb, Relation.EqvGen.rel a b step⟩
      | refl first => exact Or.inl rfl
      | symm first second _ ih =>
          rcases ih with rfl | ⟨a, b, ha, hb, family⟩
          · exact Or.inl rfl
          · exact Or.inr ⟨b, a, hb, ha, family.symm⟩
      | trans first second third _ _ ih ih' =>
          rcases ih with rfl | ⟨a, b, ha, hb, family⟩
          · exact ih'
          · rcases ih' with rfl | ⟨b', c, hb', hc, family'⟩
            · exact Or.inr ⟨a, b, ha, hb, family⟩
            · obtain rfl := key?_inj hb hb'
              exact Or.inr ⟨a, c, ha, hc, family.trans family'⟩
    rcases found with rfl | ⟨a, b, ha, hb, family⟩
    · rw [key?_inj hid hother]
      exact SameFamily.refl table other
    · rw [key?_inj hid ha, key?_inj hother hb]
      exact family

/-- A symbol is private if no name of the root is connected with its name. -/
theorem isPrivate_iff_edges (linked : table.Linked) {id : SymbolId} {key : String × String}
    (hid : table.key? id = some key) :
    (table.canonicalize exported id).isPrivate = true
      ↔ ∀ root, (∃ member ∈ exported, table.key? member = some root) →
        ¬ Relation.EqvGen table.HasEdge root key := by
  have bound := lt_size_of_key? hid
  rw [isPrivate_iff_family linked bound]
  constructor
  · rintro apart root ⟨member, hmember, hkey⟩ connected
    exact apart member ((sameFamily_iff_edges linked hkey hid).2 connected) hmember
  · intro apart member family hmember
    obtain ⟨module, name, hkey⟩ := exists_key?_of_lt (family.lt_size linked bound)
    exact apart (module, name) ⟨member, hmember, hkey⟩
      ((sameFamily_iff_edges linked hkey hid).1 family)

/-- Tables with the same edges agree on what is private. -/
theorem SameEdges.isPrivate_eq {other : SymbolTable} (same : table.SameEdges other)
    (linked : table.Linked) (linked' : other.Linked) {exported' : List SymbolId}
    (names : table.SameNames other exported exported') {id id' : SymbolId}
    {key : String × String} (hid : table.key? id = some key) (hid' : other.key? id' = some key) :
    (other.canonicalize exported' id').isPrivate = (table.canonicalize exported id).isPrivate := by
  have edges : table.HasEdge = other.HasEdge := by
    funext newName source
    exact propext (same newName source)
  rw [Bool.eq_iff_iff, isPrivate_iff_edges linked' hid', isPrivate_iff_edges linked hid, edges]
  constructor
  · intro apart root hroot
    exact apart root ((names root).1 hroot)
  · intro apart root hroot
    exact apart root ((names root).2 hroot)

/-- **Privacy is a property of the family.**  Whether a symbol is private is decided by the
names that are linked, whatever numbers the symbols have and in whatever order the links
were recorded. -/
theorem isPrivate_of_family {table : SymbolTable} (built : empty.Calls table)
    (exported : List SymbolId) {id : Nat} (hid : id < table.size) :
    table.FamilyDecides exported id
      ∧ ∀ other exported' id', empty.Calls other → table.SameEdges other →
        table.SameNames other exported exported' → other.key? id' = table.key? id →
        (other.canonicalize exported' id').isPrivate
          = (table.canonicalize exported id).isPrivate := by
  have linked := built.linked linked_empty
  refine ⟨familyDecides linked exported hid, ?_⟩
  intro other exported' id' built' same names key
  obtain ⟨module, name, hkey⟩ := exists_key?_of_lt hid
  exact same.isPrivate_eq linked (built'.linked linked_empty) names hkey (key.trans hkey)

/-- Two names that export each other, and a third that exports one of them. -/
def ringLinks : List NamedLink :=
  [(("./a", "X"), ("./b", "X")), (("./b", "X"), ("./a", "X")), (("./index", "Y"), ("./a", "X"))]

/-- The root exports the name outside of the cycle; recorded from the other end, the links
give the symbols other numbers. -/
theorem isPrivate_of_family_ringLinks :
    1 < (ofLinks ringLinks).size ∧ (ofLinks ringLinks).FamilyDecides [2] 1
      ∧ ((ofLinks ringLinks.reverse).canonicalize [0] 2).isPrivate
        = ((ofLinks ringLinks).canonicalize [2] 1).isPrivate := by
  have bound : 1 < (ofLinks ringLinks).size := by decide
  have decides := isPrivate_of_family (calls_ofLinks ringLinks) [2] bound
  refine ⟨bound, decides.1, decides.2 (ofLinks ringLinks.reverse) [0] 2
    (calls_ofLinks ringLinks.reverse) ?_ ?_ rfl⟩
  · exact sameEdges_ofLinks (List.reverse_perm ringLinks).symm (by decide) (by decide)
  · intro key
    have here : (ofLinks ringLinks).key? 2 = some ("./index", "Y") := rfl
    have there : (ofLinks ringLinks.reverse).key? 0 = some ("./index", "Y") := rfl
    simp [here, there]

/-! ## §4. One identity for a family -/

/-- The walks from all members of the family end at one symbol: there is a root export to
find, or no cycle to go round. -/
def Converges (table : SymbolTable) (exported : List SymbolId) (id : SymbolId) : Prop :=
  (∃ member, table.SameFamily member id ∧ member ∈ exported) ∨ ¬ table.HasCycle id

/-- The root exports one member of the family at most. -/
def HasOneRoot (table : SymbolTable) (exported : List SymbolId) (id : SymbolId) : Prop :=
  ∀ first second, table.SameFamily first id → table.SameFamily second id →
    first ∈ exported → second ∈ exported → first = second

/-- Without a root export, what stands for a member is its declaration. -/
theorem symbol_eq_declaration (linked : table.Linked) {id : Nat} (hid : id < table.size)
    (apart : ¬ ∃ member, table.SameFamily member id ∧ member ∈ exported) :
    (table.canonicalize exported id).symbol = table.declaration id :=
  symbol_of_isPrivate ((isPrivate_iff_family linked hid).2 fun member family hmember =>
    apart ⟨member, family, hmember⟩)

/-- With a root export, what stands for a member is a root export of the family. -/
theorem symbol_mem (linked : table.Linked) {id : Nat} (hid : id < table.size)
    (root : ∃ member, table.SameFamily member id ∧ member ∈ exported) :
    (table.canonicalize exported id).symbol ∈ exported := by
  obtain ⟨member, family, hmember⟩ := root
  cases h : (table.canonicalize exported id).isPrivate with
  | true => exact absurd hmember ((isPrivate_iff_family linked hid).1 h member family)
  | false => exact (symbol_of_isPublic linked h).1

/-- **One symbol stands for all members** of a family whose walks end at one symbol. -/
theorem SameFamily.symbol_eq (linked : table.Linked) {id other : Nat}
    (family : table.SameFamily other id) (hid : id < table.size)
    (converges : table.Converges exported id) (one : table.HasOneRoot exported id) :
    (table.canonicalize exported other).symbol = (table.canonicalize exported id).symbol := by
  have hother := family.lt_size linked hid
  by_cases root : ∃ member, table.SameFamily member id ∧ member ∈ exported
  · obtain ⟨member, hfamily, hmember⟩ := root
    apply one _ _ ((sameFamily_symbol linked other).trans family) (sameFamily_symbol linked id)
    · exact symbol_mem linked hother ⟨member, hfamily.trans family.symm, hmember⟩
    · exact symbol_mem linked hid ⟨member, hfamily, hmember⟩
  · have straight := converges.resolve_left root
    have root' : ¬ ∃ member, table.SameFamily member other ∧ member ∈ exported := by
      rintro ⟨member, hfamily, hmember⟩
      exact root ⟨member, hfamily.trans family, hmember⟩
    rw [symbol_eq_declaration linked hid root, symbol_eq_declaration linked hother root',
      family.declaration_eq linked straight]

/-- The identity of an identity is itself, where the walks end at one symbol. -/
theorem symbol_symbol (linked : table.Linked) {id : Nat} (hid : id < table.size)
    (converges : table.Converges exported id) :
    (table.canonicalize exported (table.canonicalize exported id).symbol).symbol
      = (table.canonicalize exported id).symbol := by
  have family : table.SameFamily (table.canonicalize exported id).symbol id :=
    sameFamily_symbol linked id
  by_cases root : ∃ member, table.SameFamily member id ∧ member ∈ exported
  · rw [canonicalize_root (symbol_mem linked hid root) (family.lt_size linked hid)]
  · have straight := converges.resolve_left root
    have root' : ¬ ∃ member,
        table.SameFamily member (table.canonicalize exported id).symbol ∧ member ∈ exported := by
      rintro ⟨member, hfamily, hmember⟩
      exact root ⟨member, hfamily.trans family, hmember⟩
    rw [symbol_eq_declaration linked (family.lt_size linked hid) root',
      family.declaration_eq linked straight, symbol_eq_declaration linked hid root]

/-- A walk that starts where another one has ended on a cycle ends elsewhere. -/
theorem symbol_declaration_ne (linked : table.Linked) {id : Nat} (hid : id < table.size)
    (diverges : ¬ table.Converges exported id) :
    (table.canonicalize exported (table.declaration id)).symbol ≠ table.declaration id := by
  have cycle : table.HasCycle id :=
    Classical.not_not.1 fun straight => diverges (Or.inr straight)
  have leads := table.leadsTo_declaration id
  have apart : ¬ ∃ member,
      table.SameFamily member (table.declaration id) ∧ member ∈ exported := by
    rintro ⟨member, family, hmember⟩
    exact diverges (Or.inl ⟨member, family.trans leads.sameFamily.symm, hmember⟩)
  rw [symbol_eq_declaration linked (leads.lt_size linked hid) apart]
  intro same
  rcases declaration_of_isEnd linked (isEnd_declaration linked id) with ⟨stop, -⟩ | link
  · exact (not_hasCycle_iff linked).2 stop cycle
  · rw [same] at link
    exact linked.exports_ne_self _ link

/-- Of a family the bundle knows one identity, if the walks through it end at one symbol. -/
structure OneIdentity (table : SymbolTable) (exported : List SymbolId) (id : SymbolId) :
    Prop where
  /-- The identity is its own identity. -/
  settles : (table.canonicalize exported (table.canonicalize exported id).symbol).symbol
    = (table.canonicalize exported id).symbol ↔ table.Converges exported id
  /-- It is that of all members, if the root exports no two of them. -/
  agree : table.HasOneRoot exported id →
    ((∀ other, table.SameFamily other id →
      (table.canonicalize exported other).symbol = (table.canonicalize exported id).symbol)
        ↔ table.Converges exported id)

/-- **A family has one identity exactly if the root exports a member or it has no
cycle.** -/
theorem oneIdentity (linked : table.Linked) (exported : List SymbolId) {id : Nat}
    (hid : id < table.size) : table.OneIdentity exported id := by
  -- without a root export the identity is the declaration, whose own identity is another one
  have diverges : ¬ table.Converges exported id →
      (table.canonicalize exported (table.declaration id)).symbol
        ≠ (table.canonicalize exported id).symbol := by
    intro h
    rw [symbol_eq_declaration linked hid fun root => h (Or.inl root)]
    exact symbol_declaration_ne linked hid h
  refine ⟨⟨?_, symbol_symbol linked hid⟩, fun one => ⟨?_, ?_⟩⟩
  · intro settles
    refine Classical.not_not.1 fun h => diverges h ?_
    rw [← symbol_eq_declaration linked hid fun root => h (Or.inl root)]
    exact settles
  · intro agree
    refine Classical.not_not.1 fun h => diverges h ?_
    exact agree _ (table.leadsTo_declaration id).sameFamily.symm
  · intro converges other family
    exact family.symbol_eq linked hid converges one

end FlatBundle.SymbolTable
