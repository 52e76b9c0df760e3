/-
  FlatBundle.Proofs.Bundling.Parameters
  ─────────────────────────────────────
  **PARAMETERS OF FUNCTIONS.**

  Inside of a function a global name may be that of a parameter.  Conversion does not ask
  for it: what a global name becomes is decided by the declarations of the module alone.

    • a parameter that the module does not declare stays, at its place in the function
      (`Value.ParameterIn.kept`),
    • one that it does declare becomes a reference to the declared symbol, wherever values
      are converted (`Value.ParameterIn.replaced`), so a parameter does not shadow a
      declaration (`shadows_shadowLibrary`).

  The theorem follows a reference by its place in the value, at which the bundle has what
  became of it.
-/
import FlatBundle.Proofs.Bundling.Contents
import FlatBundle.Proofs.Value.Equality
import FlatBundle.Proofs.Value.Places

namespace FlatBundle

variable {host : Host} {root : String} {exported : List SymbolId} {run : Run}
variable {named : SymbolTable}

/-! ## §1. The theorem -/

/-- The place is inside of a reference that is replaced as a whole, with its arguments. -/
def Value.IsDropped (sources : Sources) (module : String) (value : Value) (place : List Nat) :
    Prop :=
  ∃ front back reference, place = front ++ back ∧ back ≠ []
    ∧ value.place? sources module true front = some (true, reference)
    ∧ reference.isMet sources module = true

/-- What stands at the place is copied: a static member that is no function has it inside
of it, or what describes an error. -/
def Value.IsCopied (sources : Sources) (module : String) (value : Value) (place : List Nat) :
    Prop :=
  ∃ part, value.place? sources module true place = some (false, part)

/-- What the entry of a value has where a function at `outer` refers to its parameter `name`
at `inner`. -/
structure Value.ParameterIn (entry : Value) (sources : Sources) (exported : List SymbolId)
    (table : SymbolTable) (module : String) (value : Value) (outer inner : List Nat)
    (parameters : List String) (name : String) : Prop where
  /-- The function is there, with all its parameters. -/
  binder : ∃ defaults body, entry.find? outer = some (.node (.func parameters defaults body))
  /-- The parameter stays if the module does not declare its name. -/
  kept : sources.declares module name = false ∨ value.IsCopied sources module (outer ++ inner) →
    ∃ arguments, entry.find? (outer ++ inner) = some (.ofReference (.global name arguments))
  /-- A name that the module declares stands for the declaration. -/
  replaced : sources.declares module name = true →
    ¬ value.IsCopied sources module (outer ++ inner) →
    ∃ final, entry.find? (outer ++ inner) = some final ∧ table.Shows exported (module, name) final

theorem Reference.rewrite_global {sources : Sources} {replace : Target → Value}
    {module name : String} (undeclared : sources.declares module name = false)
    (arguments : Option (List Value)) :
    (Value.ofReference (.global name arguments)).rewrite sources replace module
      = .ofReference (.global name (Rewrite.list? sources replace module arguments)) := by
  show Reference.rewrite sources replace module (.global name arguments) = _
  rw [Reference.rewrite, if_neg (by simp [undeclared])]

/-- The names that are met in a value become what the table says of them, so a reference
does at its place. -/
theorem SymbolTable.parameterIn {table : SymbolTable} {sources : Sources} {module : String}
    {value : Value}
    (shows : ∀ target ∈ value.targets sources module,
      table.Shows exported target (table.pointer exported target))
    {outer inner : List Nat} {parameters : List String} {defaults : Option (List Value)}
    {body : Option Value} {name : String} {arguments : Option (List Value)} {final : Bool}
    (function : value.find? outer = some (.node (.func parameters defaults body)))
    (refers : value.place? sources module true (outer ++ inner)
      = some (final, .ofReference (.global name arguments))) :
    (value.rewrite sources (table.pointer exported) module).ParameterIn sources exported table
      module value outer inner parameters name := by
  have there : (value.rewrite sources (table.pointer exported) module).find? (outer ++ inner)
      = some ((Value.ofReference (.global name arguments)).image sources (table.pointer exported)
        module final) :=
    Value.find?_rewrite refers
  constructor
  · obtain ⟨middle, whole, here, -⟩ := Value.place?_append refers
    obtain rfl := Option.some.inj (function.symm.trans (Value.find?_of_place? here))
    have binder : (value.rewrite sources (table.pointer exported) module).find? outer
        = some ((Value.node (.func parameters defaults body)).image sources
          (table.pointer exported) module middle) :=
      Value.find?_rewrite here
    cases middle with
    | true => exact ⟨_, _, binder⟩
    | false => exact ⟨_, _, binder⟩
  · intro stays
    cases final with
    | false => exact ⟨arguments, there⟩
    | true =>
        have undeclared : sources.declares module name = false := by
          refine stays.resolve_right ?_
          rintro ⟨_, copied⟩
          cases copied.symm.trans refers
        rw [Value.image, if_pos rfl, Reference.rewrite_global undeclared] at there
        exact ⟨_, there⟩
  · intro declares converted
    cases final with
    | false => exact absurd ⟨_, refers⟩ converted
    | true =>
        have replaced : (Value.ofReference (.global name arguments)).rewrite sources
            (table.pointer exported) module = table.pointer exported (module, name) := by
          show Reference.rewrite sources _ module (.global name arguments) = _
          rw [Reference.rewrite, if_pos declares]
        have met : (module, name) ∈ (Value.ofReference (.global name arguments)).targets sources
            module := by
          show _ ∈ Reference.targets sources module (.global name arguments)
          rw [Reference.targets, if_pos declares]
          exact List.mem_singleton_self _
        rw [Value.image, if_pos rfl, replaced] at there
        exact ⟨_, there, shows _ (Value.targets_subset_of_place? refers met)⟩

/-- **A reference to a parameter** stays what it is if the module does not declare the name
of the parameter, whatever the names of the bundle are; if the module declares it, the
reference stands for the declaration.  Nothing else can happen to it, unless it is an
argument of a reference that is replaced as a whole. -/
theorem parameter_isKept {host : Host} (free : host.HandleFree) (root importAs : String) :
    ∃ exported table bundled, BundlesTo host root importAs exported table bundled
      ∧ ∀ id ∈ table.referenced, ∀ module value,
        table.declared? (host.sources root) id = some (module, value) →
        ∃ entry, bundled.document.get? (table.bundleName id) = some entry
          ∧ ∀ outer inner parameters defaults body name arguments,
            value.find? outer = some (.node (.func parameters defaults body)) →
            (Value.node (.func parameters defaults body)).find? inner
              = some (.ofReference (.global name arguments)) →
            name ∈ parameters →
            value.IsDropped (host.sources root) module (outer ++ inner)
              ∨ entry.ParameterIn (host.sources root) exported table module value outer inner
                parameters name := by
  obtain ⟨exported, run, table, bundled, bundles, converted, naming, holds⟩ :=
    free.bundlesTo root importAs
  refine ⟨exported, table, bundled, bundles, ?_⟩
  intro id hid module value declared
  refine ⟨value.rewrite (host.sources root) (table.pointer exported) module, ?_, ?_⟩
  · rw [holds.get?_bundleName converted naming hid, SymbolTable.final?, declared]
    rfl
  · rw [SymbolTable.mem_referenced, naming.same.isReferenced] at hid
    intro outer inner parameters defaults body name arguments function refers _
    have found : value.find? (outer ++ inner) = some (.ofReference (.global name arguments)) := by
      rw [Value.find?_append, function]
      exact refers
    rcases Value.place?_of_find? found true with ⟨final, place⟩ | dropped
    · exact Or.inr (SymbolTable.parameterIn
        (fun target met => converted.shows naming hid declared met) function place)
    · exact Or.inl dropped

/-! ## §2. A function and a declaration of one name -/

/-- A module that declares `x`, and a function of the parameters `x` and `y` which refers to
`x`, and to `x` with the argument `y`. -/
def shadowLibrary : Host :=
  Entries.ofList
    [("./index", { exports := some [⟨"./lib", some [.plain "twice"]⟩] }),
      ("./lib", Document.ofEntries (Entries.ofList [("x", .str "outer"),
        ("twice", .node (.func ["x", "y"] none (some (.arr
          [.global "x", .ofReference (.global "x" (some [.global "y"]))]))))]))]

theorem handleFree_shadowLibrary : shadowLibrary.HandleFree := by decide

theorem parameter_isKept_shadowLibrary :
    ∃ exported table bundled, BundlesTo shadowLibrary "./index" "lib" exported table bundled
      ∧ ∀ id ∈ table.referenced, ∀ module value,
        table.declared? (shadowLibrary.sources "./index") id = some (module, value) →
        ∃ entry, bundled.document.get? (table.bundleName id) = some entry
          ∧ ∀ outer inner parameters defaults body name arguments,
            value.find? outer = some (.node (.func parameters defaults body)) →
            (Value.node (.func parameters defaults body)).find? inner
              = some (.ofReference (.global name arguments)) →
            name ∈ parameters →
            value.IsDropped (shadowLibrary.sources "./index") module (outer ++ inner)
              ∨ entry.ParameterIn (shadowLibrary.sources "./index") exported table module value
                outer inner parameters name :=
  parameter_isKept handleFree_shadowLibrary "./index" "lib"

/-- The entry that a bundle has under a name. -/
def Host.entry? (host : Host) (root importAs name : String) : Option Value :=
  match bundle root importAs host with
  | .ok bundled => bundled.document.get? name
  | .error _ => none

theorem Host.exists_of_entry? {host : Host} {root importAs name : String} {value : Value}
    (h : host.entry? root importAs name = some value) :
    ∃ bundled, bundle root importAs host = .ok bundled
      ∧ bundled.document.get? name = some value := by
  unfold Host.entry? at h
  split at h
  · next bundled done => exact ⟨bundled, done, h⟩
  · cases h

theorem entry?_shadowLibrary : shadowLibrary.entry? "./index" "lib" "twice"
    = some (.node (.func ["x", "y"] none (some (.arr [.global "ɵa", .global "ɵa"])))) := by
  decide +kernel

/-- **A parameter does not shadow a declaration**: the function of `./lib` refers to its
parameter `x`, and the bundle has a reference to the private symbol `ɵa` at that place; and
the reference to the parameter `y` is gone. -/
theorem shadows_shadowLibrary :
    (∃ body, (shadowLibrary.sources "./index").value? ("./lib", "twice")
          = some (.node (.func ["x", "y"] none (some body)))
        ∧ body.find? [0] = some (.global "x") ∧ body.find? [1, 0] = some (.global "y"))
      ∧ ∃ bundled body, bundle "./index" "lib" shadowLibrary = .ok bundled
        ∧ bundled.document.get? "twice" = some (.node (.func ["x", "y"] none (some body)))
        ∧ body.find? [0] = some (.global "ɵa") ∧ body.find? [1, 0] = none := by
  refine ⟨⟨_, rfl, rfl, rfl⟩, ?_⟩
  obtain ⟨bundled, done, found⟩ := Host.exists_of_entry? entry?_shadowLibrary
  exact ⟨bundled, _, done, found, rfl, rfl⟩

end FlatBundle
