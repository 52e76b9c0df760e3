/-
  FlatBundle.Proofs.Export.Nesting
  ────────────────────────────────
  **NO RESOLUTION OF EXPORTS IS CUT SHORT.**

  Resolving a module calls for resolving others, and `exportAll` allows for a depth that is
  reckoned from the host.  The depth is never used up: whatever is put below the last level
  (`bottom`), the result and the run are the same (`iterate_exportModule`).
-/
import FlatBundle.Proofs.Export.Resolution
import FlatBundle.Proofs.Export.Walk
import Mathlib.Logic.Function.Iterate

namespace FlatBundle

variable {α : Type} {host : Host} {root : String} {stack : List String}

/-! ## §1. Computations that do the same -/

/-- The two computations do the same, from any run with the given modules in progress, and
end in such a run. -/
def RunM.Agree (host : Host) (root : String) (stack : List String) (x y : RunM α) : Prop :=
  ∀ run : Run, run.Reads host root → run.inProgress = stack →
    x run = y run ∧ (x run).2.Reads host root ∧ (x run).2.inProgress = stack

namespace RunM

theorem congruence_agree (host : Host) (root : String) (stack : List String) :
    Congruence fun _ x y => x.Agree host root stack y where
  pure := fun _ _ reads here => ⟨rfl, reads, here⟩
  bindGet := fun agree run reads here => agree run run rfl run reads here
  bind := by
    intro α β x y f g hx hf run reads here
    obtain ⟨same, reads', here'⟩ := hx run reads here
    obtain ⟨same', there⟩ := hf (x run).1 (x run).2 reads' here'
    refine ⟨?_, there⟩
    show f (x run).1 (x run).2 = g (y run).1 (y run).2
    rw [← same]
    exact same'

theorem agree_symbolOf (module name : String) :
    (symbolOf module name).Agree host root stack (symbolOf module name) :=
  fun _ reads here => ⟨rfl, ⟨reads.host_eq, reads.root_eq, reads.faithful⟩, here⟩

theorem agree_link (exported newName : SymbolId) :
    (link exported newName).Agree host root stack (link exported newName) :=
  fun _ reads here => ⟨rfl, ⟨reads.host_eq, reads.root_eq, reads.faithful⟩, here⟩

theorem agree_entry (module name : String) :
    (perform (.entry module name)).Agree host root stack (perform (.entry module name)) :=
  fun _ reads here => ⟨rfl, ⟨reads.host_eq, reads.root_eq, reads.faithful⟩, here⟩

end RunM

/-! ## §2. Modules -/

/-- A module is resolved in the same way by computations that agree on the modules that its
document names. -/
theorem agree_exportModule {f g : String → RunM (List SymbolId)} {module : String}
    (resolve : module ∉ stack → (host.sources root module).isSome → ∀ specifier,
      (f (ModulePath.resolve specifier module)).Agree host root (module :: stack)
        (g (ModulePath.resolve specifier module))) :
    (exportModule f module).Agree host root stack (exportModule g module) := by
  rintro run reads rfl
  rw [exportModule, exportModule, RunM.bindGet_apply, RunM.bindGet_apply]
  cases known : run.resolved.get? module with
  | some result => exact ⟨rfl, reads, rfl⟩
  | none =>
      simp only [RunM.bindGet_apply]
      by_cases entered : module ∈ run.inProgress
      · rw [if_pos entered, if_pos entered]
        exact ⟨rfl, reads, rfl⟩
      rw [if_neg entered, if_neg entered]
      obtain ⟨answer, faithful, host_eq, root_eq⟩ := Store.get_of_faithful reads.faithful module
      rw [reads.host_eq, reads.root_eq] at answer
      have walks : (exportDocument f module (run.store.get module).1).Agree host root
          (module :: run.inProgress) (exportDocument g module (run.store.get module).1) := by
        have congruence := RunM.congruence_agree host root (module :: run.inProgress)
        cases found : (run.store.get module).1 with
        | none => exact congruence.pure []
        | some document =>
            refine congruence.exportDocument (RunM.agree_symbolOf module)
              (fun _ => RunM.agree_symbolOf _)
              (congruence.exportAs (RunM.agree_symbolOf module) RunM.agree_link) ?_
              (RunM.agree_entry module) (some document)
            refine resolve entered ?_
            rw [← answer, found]
            rfl
      obtain ⟨same, reads', stack⟩ := walks (run.inside module)
        ⟨host_eq.trans reads.host_eq, root_eq.trans reads.root_eq, faithful⟩ rfl
      let leave : List SymbolId × Run → List SymbolId × Run := fun state =>
        (state.1, (Step.leave module state.1).apply state.2)
      refine ⟨congrArg leave same, ⟨reads'.host_eq, reads'.root_eq, reads'.faithful⟩, ?_⟩
      show (exportDocument f module (run.store.get module).1
        (run.inside module)).2.inProgress.erase module = _
      rw [stack, List.erase_cons_head]

/-- What is below the last level is not reached, where there are more levels than documents
left. -/
theorem agree_exportNested (bottom : String → RunM (List SymbolId)) (depth : Nat)
    (enough : (openDocuments host root stack).length < depth) {source : String}
    (normal : ModulePath.IsNormal source) :
    (exportModule^[depth] bottom source).Agree host root stack (exportNested depth source) := by
  induction depth generalizing stack source with
  | zero => exact absurd enough (Nat.not_lt_zero _)
  | succ depth ih =>
      rw [Function.iterate_succ_apply']
      refine agree_exportModule fun outside document specifier => ?_
      have taken := length_openDocuments_cons_lt normal document outside
      exact ih (by omega) (ModulePath.isNormal_resolve specifier source)

/-- **Resolution is not cut short**: whatever is below the last level, the exports of any
module are the same. -/
theorem iterate_exportModule {run : Run} (faithful : run.store.Faithful) (module : String)
    (bottom : String → RunM (List SymbolId)) :
    exportModule^[exportDepth run.store.host] bottom module run = exportAll module run := by
  have agree : (exportModule^[exportDepth run.store.host] bottom module).Agree run.store.host
      run.store.root run.inProgress (exportNested (exportDepth run.store.host) module) := by
    rw [exportDepth, Function.iterate_succ_apply']
    refine agree_exportModule fun _ _ specifier => ?_
    have bound := length_openDocuments_le run.store.host run.store.root (module :: run.inProgress)
    exact agree_exportNested bottom _ (by omega) (ModulePath.isNormal_resolve specifier module)
  rw [exportAll, RunM.bindGet_apply]
  exact (agree run ⟨rfl, rfl, faithful⟩ rfl).1

end FlatBundle
