/-
  FlatBundle.Proofs.Bundling.Totality
  ───────────────────────────────────
  **BUNDLING NEVER FAILS ON DATA.**

  A library of documents without handles, such as documents that were read from texts,
  has a bundle, whatever its documents leave out or get wrong, and whatever exports
  have been resolved before.  No handle is left in the bundle, so it has a text.
-/
import FlatBundle.Proofs.Bundling.Layout
import FlatBundle.Proofs.Value.Parsed

namespace FlatBundle

/-- A library of documents that were read from texts has no handles. -/
theorem Host.handleFree_of_parsed {host : Host}
    (parsed : ∀ entry ∈ host.toList, ∃ text, Document.parse? text = some entry.2) :
    host.HandleFree := by
  intro entry hentry
  obtain ⟨text, h⟩ := parsed entry hentry
  exact Document.handleFree_of_parse? h

/-- The exports of some modules are asked for, one after the other. -/
def exportModules (modules : List String) : RunM Unit :=
  modules.forM fun module => do let _ ← askExports module

/-- A bundle without handles has a text. -/
theorem Bundle.render_of_handleFree {bundle : Bundle} (h : bundle.document.HandleFree)
    (indented : Bool) : ∃ text, bundle.render indented = .ok text := by
  obtain ⟨json, hjson⟩ := Option.isSome_iff_exists.1 (Document.encode?_isSome h)
  refine ⟨Json.render indented json, ?_⟩
  rw [Bundle.render, Document.render?, hjson]
  rfl

/-- **Bundling succeeds on every library without handles**, after any exports have
been resolved; the bundle has no handles, and both texts of it. -/
theorem bundleFrom_succeeds {host : Host} (free : host.HandleFree) (root importAs : String)
    (modules : List String) :
    ∃ bundle, (bundleFrom root importAs (exportModules modules (Run.start host root)).2).1
        = .ok bundle
      ∧ bundle.document.HandleFree
      ∧ ∀ indented, ∃ text, bundle.render indented = .ok text := by
  have exporting := (Run.exporting_start host root).forM modules
  obtain ⟨_, _, _, bundle, -, -, -, -, hbundle, holds⟩ := exporting.bundleFrom free importAs
  exact ⟨bundle, hbundle, holds.handleFree, Bundle.render_of_handleFree holds.handleFree⟩

theorem bundleFrom_succeeds_shapeLibrary :
    ∃ bundle, (bundleFrom "./index" "shapes" (exportModules ["./shapes", "./absent"]
        (Run.start shapeLibrary "./index")).2).1 = .ok bundle
      ∧ bundle.document.HandleFree
      ∧ ∀ indented, ∃ text, bundle.render indented = .ok text :=
  bundleFrom_succeeds handleFree_shapeLibrary "./index" "shapes" ["./shapes", "./absent"]

end FlatBundle
