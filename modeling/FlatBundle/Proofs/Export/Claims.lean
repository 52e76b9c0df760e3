/-
  FlatBundle.Proofs.Export.Claims
  ───────────────────────────────
  **WHO CLAIMS WHICH NAME, IN WHICH ORDER.**

  A module's document claims names one after the other, and says of each where it is
  taken from: first its entries claim their names, then each export declaration those
  of its items or, if it exports all, those that the other module exports.  The first
  claim of a name counts:

    • `claimedNames` — the names that a module exports, each at its first claim,
    • `Pairs.find? name claims` — where the first claim takes a name from.

  The claims of a module are a relation, since a declaration that exports all needs
  the claims of another module.  `ExportClaims` is what the documents say; it is a
  partial function (`ExportClaims.unique`), and says of the names and their origins
  what `Sources.Exports` and `Sources.Origin` say (`ExportClaims.mem_claimedNames`,
  `ExportClaims.origin_of_find?`).  `Claims` is wider: a declaration may be passed over
  if it leads back to the module that it stands in.
-/
import FlatBundle.Proofs.Export.Origins

namespace FlatBundle

/-! ## §1. Claims -/

/-- A name that a document claims, and where it is taken from: none if it is a
declaration of its own. -/
abbrev Claim := String × Option Target

/-- The names that are claimed, each at its first claim. -/
def claimedNames (claims : List Claim) : List String := (Pairs.keys claims).eraseDups

theorem mem_claimedNames {claims : List Claim} {name : String} :
    name ∈ claimedNames claims ↔ name ∈ Pairs.keys claims :=
  List.mem_eraseDups

theorem claimedNames_concat (claims : List Claim) (name : String) (origin : Option Target) :
    claimedNames (claims ++ [(name, origin)])
      = if name ∈ claimedNames claims then claimedNames claims
        else claimedNames claims ++ [name] := by
  have keys : Pairs.keys (claims ++ [(name, origin)]) = Pairs.keys claims ++ [name] := by
    simp [Pairs.keys]
  rw [claimedNames, keys, List.eraseDups_append, ← claimedNames]
  simp only [mem_claimedNames]
  by_cases old : name ∈ Pairs.keys claims
  · simp [old, List.removeAll]
  · simp [old, List.removeAll, List.eraseDups_cons]

namespace Pairs

variable {α β : Type}

theorem keys_append (pairs more : List (String × α)) :
    keys (pairs ++ more) = keys pairs ++ keys more :=
  List.map_append

theorem find?_append (name : String) (pairs more : List (String × α)) :
    find? name (pairs ++ more) = (find? name pairs).or (find? name more) := by
  induction pairs with
  | nil => rfl
  | cons pair rest ih =>
      obtain ⟨key, value⟩ := pair
      by_cases here : key = name
      · simp [find?, here]
      · simp [find?, here, ih]

theorem find?_map (name : String) (f : α → β) (pairs : List (String × α)) :
    find? name (pairs.map fun pair => (pair.1, f pair.2)) = (find? name pairs).map f := by
  induction pairs with
  | nil => rfl
  | cons pair rest ih =>
      obtain ⟨key, value⟩ := pair
      by_cases here : key = name
      · simp [find?, here]
      · simp [find?, here, ih]

theorem find?_eq_none_iff {name : String} {pairs : List (String × α)} :
    find? name pairs = none ↔ name ∉ keys pairs := by
  induction pairs with
  | nil => simp [find?, keys]
  | cons pair rest ih =>
      obtain ⟨key, value⟩ := pair
      rw [keys] at ih ⊢
      by_cases here : key = name
      · simp [find?, here]
      · simp [find?, here, ih, Ne.symm here]

end Pairs

/-! ## §2. What a document claims -/

/-- Where the value of an entry is taken from, if it is a reference to the symbol of
another module. -/
def entryOrigin? (module : String) (value : Value) : Option Target :=
  match value.reference? with
  | some (.imported specifier name _) => some (ModulePath.resolve specifier module, name)
  | _ => none

/-- The claims of the items of a declaration. -/
def itemClaims (source : String) (items : List ExportItem) : List Claim :=
  items.map fun item => (item.exportedAs, some (source, item.name))

/-- The claims of a declaration that exports all: each name from the same name. -/
def sameClaims (source : String) (names : List String) : List Claim :=
  names.map fun name => (name, some (source, name))

namespace Sources

/-- The claims of the module's own entries, in order. -/
def entryClaims (sources : Sources) (module : String) : List Claim :=
  match sources module with
  | some document =>
      document.entries.toList.map fun entry => (entry.1, entryOrigin? module entry.2)
  | none => []

/-- The export declarations of the module, in order. -/
def declarations (sources : Sources) (module : String) : List ExportDeclaration :=
  match sources module with
  | some document => document.declarations
  | none => []

theorem document_of_mem_declarations {sources : Sources} {module : String}
    {declaration : ExportDeclaration} (mem : declaration ∈ sources.declarations module) :
    ∃ document, sources module = some document
      ∧ sources.declarations module = document.declarations := by
  cases found : sources module with
  | none =>
      rw [declarations, found] at mem
      cases mem
  | some document => exact ⟨document, rfl, by rw [declarations, found]⟩

/-- A declaration of the module is an edge of the re-export graph. -/
theorem edge_of_mem_declarations {sources : Sources} {module : String}
    {declaration : ExportDeclaration} (mem : declaration ∈ sources.declarations module) :
    sources.Edge module (ModulePath.resolve declaration.source module) := by
  obtain ⟨document, found, same⟩ := document_of_mem_declarations mem
  exact ⟨document, found, Or.inr ⟨declaration, same ▸ mem, rfl⟩⟩

/-- What some declarations of a module claim, one after the other.  `passes` says where
a declaration that exports all may be passed over. -/
inductive DeclarationClaims (sources : Sources) (passes : String → String → Prop) :
    (module : String) → List ExportDeclaration → List Claim → Prop where
  | nil {module : String} : DeclarationClaims sources passes module [] []
  /-- Chosen names. -/
  | chosen {module : String} {declaration : ExportDeclaration} {items : List ExportItem}
      {rest : List ExportDeclaration} {claims : List Claim} (chosen : declaration.items = some items)
      (others : DeclarationClaims sources passes module rest claims) :
      DeclarationClaims sources passes module (declaration :: rest)
        (itemClaims (ModulePath.resolve declaration.source module) items ++ claims)
  /-- All names that the other module exports, in its order. -/
  | all {module : String} {declaration : ExportDeclaration} {rest : List ExportDeclaration}
      {offered claims : List Claim} (all : declaration.items = none)
      (offers : DeclarationClaims sources passes (ModulePath.resolve declaration.source module)
        (sources.declarations (ModulePath.resolve declaration.source module)) offered)
      (others : DeclarationClaims sources passes module rest claims) :
      DeclarationClaims sources passes module (declaration :: rest)
        (sameClaims (ModulePath.resolve declaration.source module) (claimedNames
          (sources.entryClaims (ModulePath.resolve declaration.source module) ++ offered)) ++ claims)
  /-- Nothing, where the declaration is passed over. -/
  | passed {module : String} {declaration : ExportDeclaration} {rest : List ExportDeclaration}
      {claims : List Claim} (all : declaration.items = none)
      (passed : passes module (ModulePath.resolve declaration.source module))
      (others : DeclarationClaims sources passes module rest claims) :
      DeclarationClaims sources passes module (declaration :: rest) claims

/-- What a module claims: the names of its entries, then those of its declarations. -/
def Claims (sources : Sources) (passes : String → String → Prop) (module : String)
    (claims : List Claim) : Prop :=
  ∃ declared, sources.DeclarationClaims passes module (sources.declarations module) declared
    ∧ claims = sources.entryClaims module ++ declared

/-- **What the documents say that a module exports**: no declaration is passed over. -/
def ExportClaims (sources : Sources) (module : String) (claims : List Claim) : Prop :=
  sources.Claims (fun _ _ => False) module claims

variable {sources : Sources} {passes : String → String → Prop} {module : String}

theorem DeclarationClaims.append {walked rest : List ExportDeclaration}
    {claims more : List Claim} (h : sources.DeclarationClaims passes module walked claims)
    (h' : sources.DeclarationClaims passes module rest more) :
    sources.DeclarationClaims passes module (walked ++ rest) (claims ++ more) := by
  induction h with
  | nil => exact h'
  | chosen chosen _ ih =>
      rw [List.append_assoc]
      exact .chosen chosen (ih h')
  | all all offers _ _ ih =>
      rw [List.append_assoc]
      exact .all all offers (ih h')
  | passed all passed _ ih => exact .passed all passed (ih h')

/-- Claims stay claims where declarations may be passed over in more cases. -/
theorem DeclarationClaims.mono {passes' : String → String → Prop}
    (fewer : ∀ module source, sources.Edge module source → passes module source →
      passes' module source)
    {listed : List ExportDeclaration} {claims : List Claim}
    (h : sources.DeclarationClaims passes module listed claims)
    (mem : ∀ declaration ∈ listed, declaration ∈ sources.declarations module) :
    sources.DeclarationClaims passes' module listed claims := by
  induction h with
  | nil => exact .nil
  | chosen chosen _ ih =>
      exact .chosen chosen (ih fun other hother => mem other (List.mem_cons_of_mem _ hother))
  | all all _ _ ih ih' =>
      exact .all all (ih fun _ hother => hother)
        (ih' fun other hother => mem other (List.mem_cons_of_mem _ hother))
  | @passed module declaration _ _ all passed _ ih =>
      refine .passed all (fewer _ _ ?_ passed)
        (ih fun other hother => mem other (List.mem_cons_of_mem _ hother))
      -- the declaration stands in the document of the module, so it is an edge
      exact edge_of_mem_declarations (mem declaration List.mem_cons_self)

/-! ## §3. The documents say one thing -/

theorem DeclarationClaims.unique {listed : List ExportDeclaration} {claims claims' : List Claim}
    (h : sources.DeclarationClaims (fun _ _ => False) module listed claims)
    (h' : sources.DeclarationClaims (fun _ _ => False) module listed claims') :
    claims = claims' := by
  induction h generalizing claims' with
  | nil =>
      cases h'
      rfl
  | chosen chosen _ ih =>
      cases h' with
      | chosen chosen' others' =>
          rw [chosen] at chosen'
          obtain rfl := Option.some.inj chosen'
          rw [ih others']
      | all all' _ _ => cases chosen.symm.trans all'
      | passed all' _ _ => cases chosen.symm.trans all'
  | all all _ _ ih ih' =>
      cases h' with
      | chosen chosen' _ => cases all.symm.trans chosen'
      | all _ offers' others' => rw [ih offers', ih' others']
      | passed _ passed' _ => exact passed'.elim
  | passed _ passed _ _ => exact passed.elim

/-- **A module's claims are determined by the documents.** -/
theorem ExportClaims.unique {claims claims' : List Claim} (h : sources.ExportClaims module claims)
    (h' : sources.ExportClaims module claims') : claims = claims' := by
  obtain ⟨declared, hdeclared, rfl⟩ := h
  obtain ⟨declared', hdeclared', rfl⟩ := h'
  rw [hdeclared.unique hdeclared']

/-! ## §4. Names -/

theorem mem_keys_entryClaims {name : String} :
    name ∈ Pairs.keys (sources.entryClaims module)
      ↔ ∃ document, sources module = some document ∧ document.declares name = true := by
  unfold entryClaims
  cases found : sources module with
  | none => simp [Pairs.keys]
  | some document =>
      simp only [Option.some.injEq, exists_eq_left', Document.declares,
        Entries.contains_iff_mem_keys]
      simp [Pairs.keys, Entries.keys]

theorem mem_keys_itemClaims {source name : String} {items : List ExportItem} :
    name ∈ Pairs.keys (itemClaims source items) ↔ ∃ item ∈ items, item.exportedAs = name := by
  simp [Pairs.keys, itemClaims]

theorem keys_sameClaims (source : String) (names : List String) :
    Pairs.keys (sameClaims source names) = names := by
  simp [Pairs.keys, sameClaims, Function.comp_def]

/-- A module exports the names of its entries and those that its declarations
provide. -/
theorem exports_iff_claims {name : String} :
    sources.Exports module name ↔ name ∈ Pairs.keys (sources.entryClaims module)
      ∨ ∃ declaration ∈ sources.declarations module, sources.Provides module declaration name := by
  rw [mem_keys_entryClaims]
  unfold declarations
  cases found : sources module with
  | none => simpa using not_exports found
  | some document =>
      rw [exports_iff found]
      simp

/-- What declarations claim is what they provide. -/
theorem DeclarationClaims.mem_keys {listed : List ExportDeclaration} {claims : List Claim}
    (h : sources.DeclarationClaims (fun _ _ => False) module listed claims) (name : String) :
    name ∈ Pairs.keys claims
      ↔ ∃ declaration ∈ listed, sources.Provides module declaration name := by
  induction h with
  | nil => simp [Pairs.keys]
  | chosen chosen _ ih =>
      rw [Pairs.keys_append, List.mem_append, ih, mem_keys_itemClaims]
      simp [Provides, chosen]
  | all all _ _ ih ih' =>
      rw [Pairs.keys_append, List.mem_append, ih', keys_sameClaims, mem_claimedNames,
        Pairs.keys_append, List.mem_append, ih, ← exports_iff_claims]
      simp [Provides, all]
  | passed _ passed _ _ => exact passed.elim

/-- **The names that a module claims are those that it exports.** -/
theorem ExportClaims.mem_claimedNames {claims : List Claim} (h : sources.ExportClaims module claims)
    (name : String) : name ∈ claimedNames claims ↔ sources.Exports module name := by
  obtain ⟨declared, hdeclared, rfl⟩ := h
  rw [FlatBundle.mem_claimedNames, Pairs.keys_append, List.mem_append, hdeclared.mem_keys,
    exports_iff_claims]

/-! ## §5. Origins -/

/-- The first item under a name is where the name is taken from. -/
theorem exists_item_of_find? {source name : String} {items : List ExportItem}
    {origin : Option Target} (found : Pairs.find? name (itemClaims source items) = some origin) :
    ∃ before item after, items = before ++ item :: after
      ∧ (∀ other ∈ before, other.exportedAs ≠ name) ∧ item.exportedAs = name
      ∧ origin = some (source, item.name) := by
  induction items with
  | nil => cases found
  | cons item rest ih =>
      rw [itemClaims, List.map_cons, Pairs.find?] at found
      split at found
      · next here => exact ⟨[], item, rest, rfl, by simp, here, (Option.some.inj found).symm⟩
      · next other =>
          obtain ⟨before, found', after, rfl, none, here, rfl⟩ := ih found
          refine ⟨item :: before, found', after, rfl, ?_, here, rfl⟩
          intro earlier hearlier
          rcases List.mem_cons.1 hearlier with rfl | hearlier
          · exact other
          · exact none earlier hearlier

theorem find?_sameClaims {source name : String} {names : List String} {origin : Option Target}
    (found : Pairs.find? name (sameClaims source names) = some origin) :
    name ∈ names ∧ origin = some (source, name) := by
  have mem := Pairs.mem_of_find?_eq_some found
  obtain ⟨same, hsame, eq⟩ := List.mem_map.1 mem
  obtain ⟨rfl, rfl⟩ := Prod.mk.inj eq
  exact ⟨hsame, rfl⟩

/-- The first of the declarations that provides the name takes it from the origin. -/
def FirstTakes (sources : Sources) (module : String) (listed : List ExportDeclaration)
    (name : String) (origin : Target) : Prop :=
  ∃ before declaration after, listed = before ++ declaration :: after
    ∧ (∀ other ∈ before, ¬ sources.Provides module other name)
    ∧ sources.Takes module declaration name origin

/-- A name is claimed by the first declaration, or else by the others. -/
theorem FirstTakes.of_append {declaration : ExportDeclaration} {rest : List ExportDeclaration}
    {first claims : List Claim} {name : String} {origin? : Option Target}
    (absent : Pairs.find? name first = none → ¬ sources.Provides module declaration name)
    (here : Pairs.find? name first = some origin? →
      ∃ origin, origin? = some origin ∧ sources.Takes module declaration name origin)
    (there : Pairs.find? name claims = some origin? →
      ∃ origin, origin? = some origin ∧ sources.FirstTakes module rest name origin)
    (found : Pairs.find? name (first ++ claims) = some origin?) :
    ∃ origin, origin? = some origin
      ∧ sources.FirstTakes module (declaration :: rest) name origin := by
  rw [Pairs.find?_append, Option.or_eq_some_iff] at found
  rcases found with found | ⟨none, found⟩
  · obtain ⟨origin, same, takes⟩ := here found
    exact ⟨origin, same, [], declaration, rest, rfl, by simp, takes⟩
  · obtain ⟨origin, same, before, declaration', after, rfl, earlier, takes⟩ := there found
    refine ⟨origin, same, declaration :: before, declaration', after, rfl, ?_, takes⟩
    intro other hother
    rcases List.mem_cons.1 hother with rfl | hother
    · exact absent none
    · exact earlier other hother

/-- The first claim of a name is that of the first declaration that provides it. -/
theorem DeclarationClaims.firstTakes {listed : List ExportDeclaration} {claims : List Claim}
    (h : sources.DeclarationClaims (fun _ _ => False) module listed claims) {name : String}
    {origin? : Option Target} (found : Pairs.find? name claims = some origin?) :
    ∃ origin, origin? = some origin ∧ sources.FirstTakes module listed name origin := by
  induction h with
  | nil => cases found
  | chosen chosen _ ih =>
      refine FirstTakes.of_append ?_ ?_ ih found
      · intro none
        rw [Pairs.find?_eq_none_iff, mem_keys_itemClaims] at none
        simpa only [Provides, chosen] using none
      · intro found
        obtain ⟨before, item, after, cut, none, here, rfl⟩ := exists_item_of_find? found
        refine ⟨_, rfl, ?_⟩
        rw [Takes, chosen]
        exact ⟨before, item, after, cut, none, here, rfl⟩
  | @all module declaration _ offered _ all offers _ _ ih =>
      -- what the other module offers is what it exports
      have exports : name ∈ claimedNames
          (sources.entryClaims (ModulePath.resolve declaration.source module) ++ offered)
          ↔ sources.Exports (ModulePath.resolve declaration.source module) name :=
        ExportClaims.mem_claimedNames ⟨offered, offers, rfl⟩ name
      refine FirstTakes.of_append ?_ ?_ ih found
      · intro none
        rw [Pairs.find?_eq_none_iff, keys_sameClaims, exports] at none
        simpa only [Provides, all] using none
      · intro found
        obtain ⟨mem, rfl⟩ := find?_sameClaims found
        refine ⟨_, rfl, ?_⟩
        rw [Takes, all]
        exact ⟨exports.1 mem, rfl⟩
  | passed _ passed _ _ => exact passed.elim

theorem entryOrigin?_eq_some_iff {value : Value} {origin : Target} :
    entryOrigin? module value = some origin ↔ Refers module value origin := by
  unfold entryOrigin? Refers
  constructor
  · intro same
    split at same
    · next specifier name arguments refers =>
        exact ⟨specifier, name, arguments, refers, (Option.some.inj same).symm⟩
    · cases same
  · intro refers
    obtain ⟨specifier, name, arguments, refers, rfl⟩ := refers
    rw [refers]

theorem find?_entryClaims_eq {document : Document} (found : sources module = some document)
    (name : String) :
    Pairs.find? name (sources.entryClaims module)
      = (document.get? name).map (entryOrigin? module) := by
  rw [entryClaims, found]
  exact Pairs.find?_map name (entryOrigin? module) document.entries.toList

/-- A name claimed by an entry is taken from where its value says. -/
theorem find?_entryClaims {name : String} {origin? : Option Target}
    (found : Pairs.find? name (sources.entryClaims module) = some origin?) :
    ∃ document, sources module = some document
      ∧ ∃ value, document.get? name = some value ∧ entryOrigin? module value = origin? := by
  cases hsource : sources module with
  | none =>
      rw [entryClaims, hsource] at found
      cases found
  | some document =>
      rw [find?_entryClaims_eq hsource, Option.map_eq_some_iff] at found
      exact ⟨document, rfl, found⟩

/-- **The first claim of a name says where the name comes from.** -/
theorem ExportClaims.origin_of_find? {claims : List Claim} (h : sources.ExportClaims module claims)
    {name : String} {origin? : Option Target} (found : Pairs.find? name claims = some origin?)
    (origin : Target) : sources.Origin (module, name) origin ↔ origin? = some origin := by
  obtain ⟨declared, hdeclared, rfl⟩ := h
  rw [Pairs.find?_append, Option.or_eq_some_iff] at found
  rcases found with found | ⟨none, found⟩
  -- an entry claims the name before any declaration does
  · obtain ⟨document, hsource, value, entry, same⟩ := find?_entryClaims found
    rw [← same, entryOrigin?_eq_some_iff]
    simp only [Origin, hsource, Option.some.injEq, exists_eq_left', entry]
  · obtain ⟨first, rfl, before, declaration, after, cut, earlier, takes⟩ :=
      hdeclared.firstTakes found
    have here : sources.Origin (module, name) first := by
      obtain ⟨document, hsource, same⟩ :=
        document_of_mem_declarations (cut ▸ List.mem_append_right _ List.mem_cons_self)
      rw [find?_entryClaims_eq hsource, Option.map_eq_none_iff] at none
      refine ⟨document, hsource, ?_⟩
      rw [show document.get? (module, name).2 = _ from none]
      exact ⟨before, declaration, after, same.symm.trans cut, earlier, takes⟩
    constructor
    · intro other
      rw [here.unique other]
    · intro same
      exact Option.some.inj same ▸ here

end Sources

end FlatBundle
