/-
  FlatBundle.Proofs.Bundling.Arguments
  ────────────────────────────────────
  **THE ARGUMENTS OF REFERENCES.**

  A reference may carry arguments: types, or what it is called with.  Conversion does one of
  two things to them:

    • a reference that stays keeps its arguments, each of them converted and with final
      names, in the same order; the names in them are in the bundle too,
    • a reference that is met is replaced as a whole by a reference without arguments, to a
      name of the bundle or to a declaration outside of it.

  Both hold of a single reference in any state of a run (`Reference.arguments_of_convert`),
  and of every reference in the values of a bundle, at its place
  (`Run.Converted.handsOn`).  So the arguments of a reference that is redirected are
  lost, and private symbols that stand there alone are not in the bundle
  (`loses_boxLibrary`).
-/
import FlatBundle.Proofs.Bundling.Exploration
import FlatBundle.Proofs.Value.Equality
import FlatBundle.Proofs.Value.Places

namespace FlatBundle

variable {α β : Type} {host : Host} {root : String} {exported : List SymbolId} {run : Run}
variable {table named : SymbolTable}

/-! ## §1. Arguments -/

/-- The arguments of a reference, if it has any. -/
def Reference.arguments? : Reference → Option (List Value)
  | .imported _ _ arguments | .default _ _ arguments | .global _ arguments => arguments
  | .module _ | .bundled _ => none

/-- The reference with other arguments. -/
def Reference.withArguments (arguments : List Value) : Reference → Reference
  | .imported specifier name _ => .imported specifier name (some arguments)
  | .default specifier flag _ => .default specifier flag (some arguments)
  | .global name _ => .global name (some arguments)
  | .module specifier => .module specifier
  | .bundled id => .bundled id

/-- The arguments of a value that is a reference and has any. -/
def Value.arguments? (value : Value) : Option (List Value) :=
  value.reference?.bind Reference.arguments?

theorem Reference.parts_of_arguments? {reference : Reference} {arguments : List Value}
    (h : reference.arguments? = some arguments) : reference.parts = arguments := by
  cases reference with
  | imported | default | global =>
      rw [arguments?] at h
      rw [parts, h]
      rfl
  | module | bundled => cases h

/-! ## §2. One reference in any state of a run -/

/-- What a step after a step has gone through. -/
theorem ConvertM.exists_of_bind {x : ConvertM α} {f : α → ConvertM β} {run later : Run} {b : β}
    (h : (x >>= f) run = (.ok b, later)) :
    ∃ a middle, x run = (.ok a, middle) ∧ f a middle = (.ok b, later) := by
  change ExceptT.bindCont f (x run).1 (x run).2 = _ at h
  rcases first : x run with ⟨_ | a, middle⟩
  · rw [first] at h
    cases congrArg Prod.fst h
  · rw [first] at h
    exact ⟨a, middle, rfl, h⟩

theorem Bundling.exists_of_bind {x : Bundling α} {f : α → Bundling β} {b : β}
    (h : (x >>= f) = .ok b) : ∃ a, x = .ok a ∧ f a = .ok b := by
  cases x with
  | error error => cases h
  | ok a => exact ⟨a, rfl, h⟩

/-- The value is converted at some time of a run, and gets final names. -/
def Value.Becomes (convertSymbol : SymbolId → ConvertM Unit) (module : String)
    (table : SymbolTable) (value final : Value) : Prop :=
  ∃ before converted after, value.convert convertSymbol module before = (.ok converted, after)
    ∧ converted.finalize table = .ok final

variable {convertSymbol : SymbolId → ConvertM Unit} {module : String}

/-- Values are converted, and named, one by one. -/
theorem Convert.list_becomes {values converted finals : List Value} {later : Run}
    (done : Convert.list convertSymbol module values run = (.ok converted, later))
    (named : Finalize.list table converted = .ok finals) :
    List.Forall₂ (Value.Becomes convertSymbol module table) values finals := by
  induction values generalizing run converted finals with
  | nil =>
      cases done
      cases named
      exact .nil
  | cons value rest ih =>
      obtain ⟨here, middle, hvalue, done⟩ := ConvertM.exists_of_bind done
      obtain ⟨there, last, hrest, done⟩ := ConvertM.exists_of_bind done
      cases done
      obtain ⟨final, hfinal, named⟩ := Bundling.exists_of_bind named
      obtain ⟨others, hothers, named⟩ := Bundling.exists_of_bind named
      cases named
      exact .cons ⟨run, here, middle, hvalue, hfinal⟩ (ih hrest hothers)

/-- Conversion of the reference, started in the run, replaces it as a whole. -/
def Reference.isMetIn (run : Run) (module : String) : Reference → Bool
  | .global name _ => (FlatBundle.declares module name run).1
  | .imported specifier _ _ | .default specifier _ _ | .module specifier =>
      ModulePath.isRelative specifier
  | .bundled _ => false

/-- A reference to a symbol has no arguments. -/
theorem arguments?_referenceTo {id : SymbolId} {value final : Value} {later : Run}
    (done : referenceTo convertSymbol id run = (.ok value, later))
    (named : value.finalize table = .ok final) : final.arguments? = none := by
  obtain ⟨canonical, middle, -, done⟩ := ConvertM.exists_of_bind done
  obtain ⟨state, middle', -, done⟩ := ConvertM.exists_of_bind done
  let declaration := (state.symbols.get? canonical.declaration).getD default
  by_cases inside : ModulePath.isRelative declaration.module = true
  · simp only [declaration, inside, if_true] at done
    obtain ⟨_, _, -, done⟩ := ConvertM.exists_of_bind done
    cases done
    obtain ⟨node, hnode, named⟩ := Bundling.exists_of_bind named
    obtain ⟨reference, hreference, hnode⟩ := Bundling.exists_of_bind hnode
    obtain ⟨name, -, hreference⟩ := Bundling.exists_of_bind hreference
    cases hreference
    cases hnode
    cases named
    rfl
  · simp only [declaration, inside] at done
    cases done
    cases named
    rfl

/-- The arguments of what stays are converted, and named, one by one. -/
theorem arguments_of_kept {make : Option (List Value) → Reference} {arguments : List Value}
    {value final : Value} {later : Run}
    (finalizes : ∀ arguments, (make arguments).finalize table
      = Finalize.list? table arguments >>= fun arguments => pure (make arguments))
    (done : (Convert.list? convertSymbol module (some arguments) >>= fun arguments =>
      pure (Value.ofReference (make arguments))) run = (.ok value, later))
    (named : value.finalize table = .ok final) :
    ∃ finals, final = .ofReference (make (some finals))
      ∧ List.Forall₂ (Value.Becomes convertSymbol module table) arguments finals := by
  obtain ⟨list, middle, hlist, done⟩ := ConvertM.exists_of_bind done
  obtain ⟨converted, _, hconverted, hlist⟩ := ConvertM.exists_of_bind hlist
  cases hlist
  cases done
  obtain ⟨node, hnode, named⟩ := Bundling.exists_of_bind named
  obtain ⟨reference, hreference, hnode⟩ := Bundling.exists_of_bind hnode
  rw [finalizes] at hreference
  obtain ⟨list, hlist, hreference⟩ := Bundling.exists_of_bind hreference
  obtain ⟨finals, hfinals, hlist⟩ := Bundling.exists_of_bind hlist
  cases hlist
  cases hreference
  cases hnode
  cases named
  exact ⟨finals, rfl, Convert.list_becomes hconverted hfinals⟩

/-- What becomes of the arguments of a reference that is converted in a run, by the time
that it has final names. -/
structure Reference.HandsOn (reference : Reference) (convertSymbol : SymbolId → ConvertM Unit)
    (module : String) (run : Run) (table : SymbolTable) (final : Value) : Prop where
  /-- A reference that stays keeps them, each converted and named, in order. -/
  kept : reference.isMetIn run module = false → ∀ arguments,
    reference.arguments? = some arguments → ∃ finals,
      final = .ofReference (reference.withArguments finals)
        ∧ List.Forall₂ (Value.Becomes convertSymbol module table) arguments finals
  /-- What replaces a reference that is met has none. -/
  dropped : reference.isMetIn run module = true → final.arguments? = none

/-- **The arguments of a reference that is converted**, in whichever state. -/
theorem Reference.arguments_of_convert {reference : Reference} {value final : Value} {later : Run}
    (done : reference.convert convertSymbol module run = (.ok value, later))
    (named : value.finalize table = .ok final) :
    reference.HandsOn convertSymbol module run table final := by
  cases reference with
  | global name arguments =>
      obtain ⟨declared, middle, asked, done⟩ := ConvertM.exists_of_bind done
      have answer : declared = (FlatBundle.declares module name run).1 :=
        (Except.ok.inj (congrArg Prod.fst asked)).symm
      cases declared with
      | true =>
          obtain ⟨id, last, -, done⟩ := ConvertM.exists_of_bind done
          exact ⟨fun other => absurd (answer.trans other) (by decide),
            fun _ => arguments?_referenceTo done named⟩
      | false =>
          refine ⟨?_, fun other => absurd (answer.trans other) (by decide)⟩
          rintro - arguments rfl
          exact arguments_of_kept (fun _ => rfl) done named
  | imported specifier name arguments =>
      rw [convert] at done
      by_cases relative : ModulePath.isRelative specifier = true
      · rw [if_pos relative] at done
        obtain ⟨id, last, -, done⟩ := ConvertM.exists_of_bind done
        exact ⟨fun other => absurd (relative.symm.trans other) (by decide),
          fun _ => arguments?_referenceTo done named⟩
      · rw [if_neg relative] at done
        refine ⟨?_, fun met => absurd met relative⟩
        rintro - arguments rfl
        exact arguments_of_kept (fun _ => rfl) done named
  | default specifier flag arguments =>
      rw [convert] at done
      by_cases relative : ModulePath.isRelative specifier = true
      · rw [if_pos relative] at done
        cases done
        cases named
        exact ⟨fun other => absurd (relative.symm.trans other) (by decide), fun _ => rfl⟩
      · rw [if_neg relative] at done
        refine ⟨?_, fun met => absurd met relative⟩
        rintro - arguments rfl
        exact arguments_of_kept (fun _ => rfl) done named
  | module specifier =>
      rw [convert] at done
      refine ⟨fun _ _ absent => absurd absent (by simp [arguments?]), fun met => ?_⟩
      replace met : ModulePath.isRelative specifier = true := met
      rw [if_pos met] at done
      cases done
      cases named
      rfl
  | bundled id =>
      exact ⟨fun _ _ absent => absurd absent (by simp [arguments?]),
        fun met => absurd met (by simp [isMetIn])⟩

/-! ## §3. The references in a bundle -/

/-- A reference that is not met is the same reference, its arguments rewritten. -/
theorem Reference.rewrite_kept {sources : Sources} {replace : Target → Value}
    {reference : Reference} {arguments : List Value}
    (kept : reference.isMet sources module = false) (h : reference.arguments? = some arguments) :
    (Value.ofReference reference).rewrite sources replace module
      = .ofReference (reference.withArguments
          (arguments.map (Value.rewrite sources replace module))) := by
  show Reference.rewrite sources replace module reference = _
  rw [← Rewrite.list_eq_map]
  cases reference with
  | global | imported | default =>
      obtain rfl : _ = some arguments := h
      rw [isMet] at kept
      rw [rewrite, if_neg (by simp [kept])]
      rfl
  | module | bundled => cases h

/-- What is met in an argument of a reference that stays is met in the reference. -/
theorem Reference.mem_targets {sources : Sources} {reference : Reference} {arguments : List Value}
    (kept : reference.isMet sources module = false) (h : reference.arguments? = some arguments)
    {argument : Value} (among : argument ∈ arguments) :
    argument.targets sources module ⊆ (Value.ofReference reference).targets sources module := by
  intro target met
  have inside : argument ∈ (Value.ofReference reference).parts := by
    show argument ∈ reference.parts
    rw [parts_of_arguments? h]
    exact among
  have unmet : (Value.ofReference reference).isMet sources module = false := kept
  rw [Value.targets_eq_flatMap unmet]
  exact List.mem_flatMap.2 ⟨argument, inside, met⟩

/-- A reference that is met for a name is replaced by what stands for the name. -/
theorem Reference.rewrite_met {sources : Sources} {replace : Target → Value}
    {reference : Reference} {target : Target} (met : reference.isMet sources module = true)
    (names : target ∈ (Value.ofReference reference).targets sources module) :
    (Value.ofReference reference).rewrite sources replace module = replace target := by
  replace names : target ∈ reference.targets sources module := names
  show Reference.rewrite sources replace module reference = _
  cases reference with
  | global | imported =>
      rw [isMet] at met
      rw [targets, if_pos met, List.mem_singleton] at names
      rw [rewrite, if_pos met, names]
  | default =>
      rw [isMet] at met
      rw [targets, if_pos met] at names
      cases names
  | module | bundled => cases names

theorem SymbolTable.Shows.arguments? {target : Target} {value : Value}
    (h : table.Shows exported target value) : value.arguments? = none := by
  obtain ⟨_, origin, -, -, rfl⟩ := h
  split <;> rfl

/-- What the entry of a value has at the place of a reference with arguments. -/
structure Value.HandsOn (entry : Value) (sources : Sources) (exported : List SymbolId)
    (table : SymbolTable) (module : String) (place : List Nat) (reference : Reference)
    (arguments : List Value) : Prop where
  /-- A reference that stays has them, each rewritten, in order. -/
  kept : reference.isMet sources module = false →
    entry.find? place = some (.ofReference (reference.withArguments
      (arguments.map (Value.rewrite sources (table.pointer exported) module))))
  /-- The names in them are shown, and in the bundle if they are declared inside of it. -/
  present : reference.isMet sources module = false →
    ∀ argument ∈ arguments, ∀ target ∈ argument.targets sources module,
      table.Shows exported target (table.pointer exported target)
        ∧ ∀ other, table.needed? exported target = some other → other ∈ table.referenced
  /-- What replaces a reference that is met has none. -/
  dropped : reference.isMet sources module = true →
    ∀ target ∈ (Value.ofReference reference).targets sources module, ∃ final,
      entry.find? place = some final ∧ table.Shows exported target final
        ∧ final.arguments? = none

/-- A symbol that a name asks for in the value of a symbol of the bundle is in the bundle. -/
theorem Run.Converted.mem_referenced_of_needed? (converted : run.Converted host root exported)
    (naming : run.symbols.NamedFrom exported named) {id other : SymbolId}
    (hid : run.symbols.isReferenced id = true) {value : Value}
    (declared : named.declared? (host.sources root) id = some (module, value)) {target : Target}
    (met : target ∈ value.targets (host.sources root) module)
    (needed : named.needed? exported target = some other) : other ∈ named.referenced := by
  rw [naming.declared? converted.settled _ hid] at declared
  rw [naming.needed? converted.settled] at needed
  rw [SymbolTable.mem_referenced, naming.same.isReferenced]
  exact ((converted.complete id hid).reached module value declared target met).referenced other
    needed

/-- **The arguments of a reference in a value of the bundle.** -/
theorem Run.Converted.handsOn (converted : run.Converted host root exported)
    (naming : run.symbols.NamedFrom exported named) {id : SymbolId}
    (hid : run.symbols.isReferenced id = true) {value : Value}
    (declared : named.declared? (host.sources root) id = some (module, value))
    {place : List Nat} {reference : Reference} {arguments : List Value}
    (here : value.place? (host.sources root) module true place
      = some (true, .ofReference reference))
    (given : reference.arguments? = some arguments) :
    (value.rewrite (host.sources root) (named.pointer exported) module).HandsOn
      (host.sources root) exported named module place reference arguments := by
  have there : (value.rewrite (host.sources root) (named.pointer exported) module).find? place
      = some ((Value.ofReference reference).rewrite (host.sources root) (named.pointer exported)
        module) :=
    Value.find?_rewrite here
  have shows : ∀ target ∈ (Value.ofReference reference).targets (host.sources root) module,
      named.Shows exported target (named.pointer exported target) := fun target met =>
    converted.shows naming hid declared (Value.targets_subset_of_place? here met)
  refine ⟨fun kept => ?_, fun kept argument among target met => ⟨?_, ?_⟩,
    fun met target names => ?_⟩
  · rw [there, Reference.rewrite_kept kept given]
  · exact shows target (Reference.mem_targets kept given among met)
  · intro other needed
    exact converted.mem_referenced_of_needed? naming hid declared
      (Value.targets_subset_of_place? here (Reference.mem_targets kept given among met)) needed
  · have replaced : (Value.ofReference reference).rewrite (host.sources root)
        (named.pointer exported) module = named.pointer exported target :=
      Reference.rewrite_met met names
    rw [replaced] at there
    exact ⟨_, there, shows target names, (shows target names).arguments?⟩

/-! ## §4. The theorem -/

/-- **The arguments of a reference stay with it as long as the reference stays.**  In any
state of a run, a reference that conversion leaves in place has its arguments in the finished
value, each converted and named, in order; and the values of a bundle have them at the places
of such references, whatever was looked at before, along with the symbols that the arguments
refer to.  A reference that is met is replaced by one without arguments. -/
theorem arguments_areKept (convertSymbol : SymbolId → ConvertM Unit) (module : String) (run : Run)
    (table : SymbolTable) (reference : Reference) (host : Host) (modules : List String)
    (root importAs : String) :
    (∀ value final later, reference.convert convertSymbol module run = (.ok value, later) →
        value.finalize table = .ok final →
        reference.HandsOn convertSymbol module run table final)
      ∧ (host.HandleFree →
        ∃ exported table bundled, BundlesAfter host modules root importAs exported table bundled
          ∧ ∀ id ∈ table.referenced, ∀ module value,
            table.declared? (host.sources root) id = some (module, value) →
            ∃ entry, bundled.document.get? (table.bundleName id) = some entry
              ∧ ∀ place reference arguments,
                value.place? (host.sources root) module true place
                  = some (true, .ofReference reference) →
                reference.arguments? = some arguments →
                entry.HandsOn (host.sources root) exported table module place reference
                  arguments) := by
  constructor
  · intro value final later done named
    exact Reference.arguments_of_convert done named
  · intro free
    obtain ⟨exported, run, table, bundled, -, bundles, converted, naming, holds⟩ :=
      free.bundlesAfter modules root importAs
    refine ⟨exported, table, bundled, bundles, ?_⟩
    intro id hid module value declared
    refine ⟨value.rewrite (host.sources root) (table.pointer exported) module, ?_, ?_⟩
    · rw [holds.get?_bundleName converted naming hid, SymbolTable.final?, declared]
      rfl
    · intro place reference arguments here given
      rw [SymbolTable.mem_referenced, naming.same.isReferenced] at hid
      exact converted.handsOn naming hid declared here given

/-! ## §5. Arguments that are lost -/

/-- A module with three references that have arguments: one that stays, one to a name of the
module itself, and one to a name that `./lib` has from outside of the library. -/
def boxLibrary : Host :=
  Entries.ofList
    [("./index", Document.ofEntries (Entries.ofList
        [("Shape", .str "shape"),
          ("Open", .arr
            [.ofReference (.imported "@x" "Box" (some [.global "Shape", .bool true])),
              .ofReference (.global "Shape" (some [.imported "./lib" "Hidden"])),
              .ofReference (.imported "./lib" "Mark" (some [.str "left"]))])])),
      ("./lib", (Document.ofEntries (Entries.ofList [("Hidden", .str "hidden")])).addExport
        ⟨"@x", some [.plain "Mark"]⟩)]

theorem handleFree_boxLibrary : boxLibrary.HandleFree := by decide

/-- A reference with two arguments that stays wherever it stands. -/
def boxReference : Reference := .imported "@x" "Box" (some [.imported "@x" "Left", .bool true])

theorem arguments_areKept_boxLibrary :
    (∃ later, boxReference.convert FlatBundle.convertSymbol "./index"
          (Run.start boxLibrary "./index") = (.ok (.ofReference boxReference), later))
      ∧ boxReference.HandsOn FlatBundle.convertSymbol "./index" (Run.start boxLibrary "./index")
        SymbolTable.empty (.ofReference boxReference)
      ∧ ∃ exported table bundled,
        BundlesAfter boxLibrary ["./lib"] "./index" "lib" exported table bundled
        ∧ ∀ id ∈ table.referenced, ∀ module value,
          table.declared? (boxLibrary.sources "./index") id = some (module, value) →
          ∃ entry, bundled.document.get? (table.bundleName id) = some entry
            ∧ ∀ place reference arguments,
              value.place? (boxLibrary.sources "./index") module true place
                = some (true, .ofReference reference) →
              reference.arguments? = some arguments →
              entry.HandsOn (boxLibrary.sources "./index") exported table module place reference
                arguments := by
  have converts : boxReference.convert FlatBundle.convertSymbol "./index"
      (Run.start boxLibrary "./index")
        = (.ok (.ofReference boxReference), Run.start boxLibrary "./index") := by
    have outside : ¬ ModulePath.isRelative "@x" = true := by decide
    rw [boxReference, Reference.convert, if_neg outside, Convert.list?, Convert.list,
      Value.imported, Value.ofReference, Value.convert, Node.convert, Reference.convert,
      if_neg outside]
    rfl
  have named : (Value.ofReference boxReference).finalize SymbolTable.empty
      = .ok (.ofReference boxReference) := rfl
  have both := arguments_areKept FlatBundle.convertSymbol "./index"
    (Run.start boxLibrary "./index") SymbolTable.empty boxReference boxLibrary ["./lib"] "./index"
    "lib"
  exact ⟨⟨_, converts⟩, both.1 _ _ _ converts named, both.2 handleFree_boxLibrary⟩

theorem contents?_boxLibrary : boxLibrary.contents? "./index" "lib"
    = some ([("Shape", .str "shape"),
        ("Open", .arr
          [.ofReference (.imported "@x" "Box" (some [.global "Shape", .bool true])),
            .global "Shape", .imported "@x" "Mark"])], []) := by
  decide +kernel

/-- **Arguments of redirected references are lost**: of the three references only the first
has its arguments in the bundle, and `Hidden`, which stands in an argument of the second one,
is not in the bundle. -/
theorem loses_boxLibrary :
    (∃ items, (boxLibrary.sources "./index").value? ("./index", "Open") = some (.arr items)
        ∧ items.map Value.arguments?
          = [some [.global "Shape", .bool true], some [.imported "./lib" "Hidden"],
            some [.str "left"]])
      ∧ ∃ bundled items, bundle "./index" "lib" boxLibrary = .ok bundled
        ∧ bundled.document.entries.toList = [("Shape", .str "shape"), ("Open", .arr items)]
        ∧ items.map Value.arguments? = [some [.global "Shape", .bool true], none, none]
        ∧ bundled.privates = [] := by
  refine ⟨⟨_, rfl, rfl⟩, ?_⟩
  obtain ⟨bundled, done, entries, privates⟩ := Host.exists_of_contents? contents?_boxLibrary
  exact ⟨bundled, _, done, entries, rfl, privates⟩

end FlatBundle
