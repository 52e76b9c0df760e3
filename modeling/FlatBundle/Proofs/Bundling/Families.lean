/-
  FlatBundle.Proofs.Bundling.Families
  ───────────────────────────────────
  **THE NAMES OF A FAMILY IN THE BUNDLE.**

  References to a declaration go through chains of aliases, and all the names on the way are
  one family.  In the bundle they become one name, and a private family gets one private
  name at most (`family_hasOneName`), unless modules export a name from each other that none
  of them declares: each name on such a cycle has an identity of its own
  (`names_mutualLibrary`).

  Whether a name becomes a name of the bundle or an import from outside is decided by its
  declaration.  On a cycle this depends on where the walk begins; but all that is on a cycle
  is an alias, and so it is inside of the library (`SymbolTable.origins_of_sameFamily`).
-/
import FlatBundle.Proofs.Bundling.Exploration
import FlatBundle.Proofs.Bundling.History
import FlatBundle.Proofs.Export.Documented
import FlatBundle.Proofs.Symbol.Families
import FlatBundle.Proofs.Value.Equality

namespace FlatBundle

variable {host : Host} {root : String} {exported : List SymbolId} {run : Run}
variable {table named : SymbolTable}

/-! ## §1. References to a family -/

/-- What exports another symbol belongs to a module inside of the library. -/
def SymbolTable.AliasesInside (table : SymbolTable) : Prop :=
  ∀ id source target, table.exports id = some source → table.key? id = some target →
    ModulePath.isRelative target.1 = true

theorem Run.Documented.aliasesInside (h : run.Documented host root) :
    run.symbols.AliasesInside := by
  intro id source target link key
  obtain ⟨module, name, key', documented⟩ := h.aliases id source link
  obtain rfl := Option.some.inj (key.symm.trans key')
  obtain ⟨document, found⟩ := Option.isSome_iff_exists.1 documented
  exact Host.isRelative_of_sources found

namespace SymbolTable

theorem SameBut.aliasesInside (same : table.SameBut named) (inside : table.AliasesInside) :
    named.AliasesInside := by
  intro id source target link key
  rw [same.exports] at link
  rw [same.key?] at key
  exact inside id source target link key

/-- Two members of a family have declarations inside of the library, or one declaration. -/
theorem origins_of_sameFamily (linked : table.Linked) (inside : table.AliasesInside)
    {id other : SymbolId} (family : table.SameFamily other id) {origin origin' : Target}
    (horigin : table.origin? id = some origin) (horigin' : table.origin? other = some origin') :
    (ModulePath.isRelative origin.1 = true ∧ ModulePath.isRelative origin'.1 = true)
      ∨ origin' = origin := by
  by_cases cycle : table.HasCycle id
  · left
    -- a walk that ends on a cycle ends at an alias
    have relative : ∀ member origin, table.HasCycle member → table.origin? member = some origin →
        ModulePath.isRelative origin.1 = true := by
      intro member origin cycle horigin
      cases link : table.exports (table.declaration member) with
      | none => exact absurd cycle ((not_hasCycle_iff linked).2 link)
      | some source => exact inside _ source origin link horigin
    refine ⟨relative id origin cycle horigin, relative other origin' ?_ horigin'⟩
    exact Classical.not_not.1 fun straight => family.symm.not_hasCycle straight cycle
  · right
    rw [origin?, family.declaration_eq linked cycle] at horigin'
    exact Option.some.inj (horigin'.symm.trans horigin)

/-- **References to members of a family become one reference**, if one symbol stands for
all of them. -/
theorem SameFamily.replacement_eq (linked : table.Linked) (inside : table.AliasesInside)
    {id other : SymbolId} (family : table.SameFamily other id)
    (converges : table.Converges exported id) (one : table.HasOneRoot exported id)
    {first second : Target} (hid : table.key? id = some first)
    (hother : table.key? other = some second) (point : SymbolId → Value) :
    table.replacement point exported second = table.replacement point exported first := by
  have bound := lt_size_of_key? hid
  obtain ⟨origin, horigin⟩ := exists_origin?_of_lt linked bound
  obtain ⟨origin', horigin'⟩ := exists_origin?_of_lt linked (lt_size_of_key? hother)
  rw [SymbolTable.replacement_eq point hid horigin, SymbolTable.replacement_eq point hother horigin',
    family.symbol_eq linked bound converges one]
  rcases origins_of_sameFamily linked inside family horigin horigin' with ⟨here, there⟩ | same
  · rw [if_pos here, if_pos there]
  · rw [same]

/-! ## §2. Private names of a family -/

/-- A private name is that of a private end of a walk. -/
theorem NamedFrom.isEnd (naming : run.symbols.NamedFrom exported named)
    (settled : run.Settled host root exported) {id : Nat} {name : String}
    (hname : named.privateName? id = some name) :
    id < named.size ∧ named.IsEnd id ∧ (named.canonicalize exported id).isPrivate = true := by
  obtain ⟨marked, isPrivate⟩ := List.mem_filter.1
    ((naming.isSome_privateName?_iff id).1 (by rw [hname]; rfl))
  have identity := (settled.referenced id (mem_referenced.1 marked)).1
  refine ⟨?_, ?_, ?_⟩
  · rw [naming.same.size]
    exact identity.bound
  · exact (identity.isEnd_of_isPrivate isPrivate).grows naming.same.grows settled.sound.linked
      identity.bound
  · rw [naming.canonicalize settled identity.bound]
    exact isPrivate

/-- **A family gets one private name at most**, if the walks through it end at one
symbol. -/
theorem NamedFrom.eq_of_sameFamily (naming : run.symbols.NamedFrom exported named)
    (settled : run.Settled host root exported) {id other : Nat}
    (family : named.SameFamily other id) (converges : named.Converges exported id)
    {name name' : String} (hname : named.privateName? id = some name)
    (hname' : named.privateName? other = some name') : other = id := by
  have linked : named.Linked := naming.same.sameLinks.linked settled.sound.linked
  obtain ⟨bound, hend, isPrivate⟩ := naming.isEnd settled hname
  obtain ⟨-, hend', -⟩ := naming.isEnd settled hname'
  -- a private family has no root export, so it has no cycle
  have straight : ¬ named.HasCycle id := by
    refine converges.resolve_left ?_
    rintro ⟨member, hfamily, hmember⟩
    exact (isPrivate_iff_family linked bound).1 isPrivate member hfamily hmember
  have stops : ∀ member, named.SameFamily member id → named.IsEnd member →
      member = named.declaration id := by
    intro member hfamily hend
    refine (hfamily.exports_eq_none_iff linked straight).1 ?_
    rcases hend with stop | ⟨next, step, cycle⟩
    · exact stop
    · exact absurd ⟨member, next, hfamily, step, cycle⟩ straight
  rw [stops other family hend', ← stops id (SameFamily.refl _ id) hend]

/-! ## §3. The theorem -/

/-- The names that the family of a symbol has in the bundle. -/
structure OneName (table : SymbolTable) (exported : List SymbolId) (id : SymbolId) : Prop where
  /-- References to members become the same, if the root exports no two of them. -/
  references : table.HasOneRoot exported id → ∀ other first second,
    table.SameFamily other id → table.key? id = some first → table.key? other = some second →
    table.pointer exported second = table.pointer exported first
  /-- No two members have private names. -/
  privateNames : ∀ other name name', table.SameFamily other id →
    table.privateName? id = some name → table.privateName? other = some name' →
    other = id ∧ name' = name

end SymbolTable

/-- **A family of aliases has one identity** exactly if the root exports a member or the
family has no cycle: in every table that is asked and linked, and at the end of every bundling
run, whatever has been resolved before.  A family with one identity has one name in the
bundle. -/
theorem family_hasOneName (table : SymbolTable) (exported : List SymbolId) (id : Nat)
    (host : Host) (modules : List String) (root importAs : String) :
    (SymbolTable.empty.Calls table → id < table.size → table.OneIdentity exported id)
      ∧ (host.HandleFree →
        ∃ exported table bundled, BundlesAfter host modules root importAs exported table bundled
          ∧ bundled.Holds (host.sources root) exported importAs table
          ∧ ∀ id : Nat, id < table.size → table.OneIdentity exported id
            ∧ (table.Converges exported id → table.OneName exported id)) := by
  constructor
  · intro built hid
    exact SymbolTable.oneIdentity (built.linked SymbolTable.linked_empty) exported hid
  · intro free
    obtain ⟨exported, run, table, bundled, hconvert, bundles, converted, naming, holds⟩ :=
      free.bundlesAfter modules root importAs
    refine ⟨exported, table, bundled, bundles, holds, ?_⟩
    have settled := converted.settled
    have linked : table.Linked := naming.same.sameLinks.linked settled.sound.linked
    have documented : run.Documented host root := by
      rw [← after_bundlingHistory_of_convertRoot hconvert]
      exact (bundlesIn_bundlingHistory host root "" modules).turns.documented
        (Run.Documented.start host root)
    have inside := naming.same.aliasesInside documented.aliasesInside
    intro id hid
    refine ⟨SymbolTable.oneIdentity linked exported hid, fun converges => ⟨?_, ?_⟩⟩
    · intro one other first second family hfirst hsecond
      exact family.replacement_eq linked inside converges one hfirst hsecond _
    · intro other name name' family hname hname'
      have same := naming.eq_of_sameFamily settled family converges hname hname'
      rw [same] at hname'
      exact ⟨same, Option.some.inj (hname'.symm.trans hname)⟩

theorem family_hasOneName_ringLinks :
    (SymbolTable.ofLinks SymbolTable.ringLinks).OneIdentity [] 1
      ∧ ∃ exported table bundled,
        BundlesAfter shapeLibrary ["./shapes"] "./index" "shapes" exported table bundled
        ∧ bundled.Holds (shapeLibrary.sources "./index") exported "shapes" table
        ∧ ∀ id : Nat, id < table.size → table.OneIdentity exported id
          ∧ (table.Converges exported id → table.OneName exported id) := by
  have both := family_hasOneName (SymbolTable.ofLinks SymbolTable.ringLinks) [] 1 shapeLibrary
    ["./shapes"] "./index" "shapes"
  exact ⟨both.1 (SymbolTable.calls_ofLinks SymbolTable.ringLinks) (by decide),
    both.2 handleFree_shapeLibrary⟩

/-! ## §4. Names that modules export from each other -/

/-- Two modules that export `X` from each other, where none declares it, and a root that
refers to both names. -/
def mutualLibrary : Host :=
  Entries.ofList
    [("./index", Document.ofEntries (Entries.ofList
        [("Open", .arr [.imported "./a" "X", .imported "./b" "X"])])),
      ("./a", { exports := some [⟨"./b", some [.plain "X"]⟩] }),
      ("./b", { exports := some [⟨"./a", some [.plain "X"]⟩] })]

theorem contents?_mutualLibrary : mutualLibrary.contents? "./index" "lib"
    = some ([("Open", .arr [.global "ɵb", .global "ɵa"])],
      [⟨"ɵa", "X", "./a"⟩, ⟨"ɵb", "X", "./b"⟩]) := by
  decide +kernel

/-- The links of two names that export each other. -/
def mutualLinks : List SymbolTable.NamedLink :=
  [(("./a", "X"), ("./b", "X")), (("./b", "X"), ("./a", "X"))]

theorem symbols_mutualLinks :
    ((SymbolTable.ofLinks mutualLinks).canonicalize [] 0).symbol = 1
      ∧ ((SymbolTable.ofLinks mutualLinks).canonicalize [] 1).symbol = 0 := by
  constructor <;> decide +kernel

/-- **Two names that export each other have two identities**, each of which has the other one
as its identity; the root does not export them, and the references to them become references
to two private names. -/
theorem names_mutualLibrary :
    (∃ table, SymbolTable.empty.Calls table ∧ table.SameFamily 0 1
        ∧ table.HasOneRoot [] 1
        ∧ (table.canonicalize [] 0).symbol ≠ (table.canonicalize [] 1).symbol
        ∧ (table.canonicalize [] (table.canonicalize [] 0).symbol).symbol
          ≠ (table.canonicalize [] 0).symbol)
      ∧ ∃ bundled, bundle "./index" "lib" mutualLibrary = .ok bundled
        ∧ bundled.document.entries.toList = [("Open", .arr [.global "ɵb", .global "ɵa"])]
        ∧ bundled.privates = [⟨"ɵa", "X", "./a"⟩, ⟨"ɵb", "X", "./b"⟩] := by
  constructor
  · obtain ⟨here, there⟩ := symbols_mutualLinks
    refine ⟨SymbolTable.ofLinks mutualLinks, SymbolTable.calls_ofLinks mutualLinks,
      Relation.EqvGen.rel 0 1 rfl, ?_, ?_, ?_⟩
    · intro first second _ _ hfirst
      cases hfirst
    · rw [here, there]
      decide
    · rw [here, there]
      decide
  · exact Host.exists_of_contents? contents?_mutualLibrary

end FlatBundle
