/-
  FlatBundle.Proofs.Export.Visits
  ───────────────────────────────
  **RESOLVING EXPORTS, STEP BY STEP.**

  The history of resolving a module is to enter it, to walk its document, in which other
  modules are resolved, and to leave it; or to do nothing, where the module is known.
  Such a history is orderly in any run (`visits_exportNested`), so no module is entered
  twice, however modules refer to each other.

  Seen from outside, `exportAll` is one turn: from the moment when it enters its module to
  the moment when it leaves it some module is in progress (`exists_visit_exportAll`).
-/
import FlatBundle.Proofs.Export.Resolution
import FlatBundle.Proofs.Export.Walk
import FlatBundle.Proofs.Run.Order

namespace FlatBundle

variable {α : Type}

/-! ## §1. Orderly visits -/

/-- From any run, the history of the computation is orderly and leaves the exports of the
root alone. -/
def RunM.Visits (x : RunM α) : Prop :=
  ∀ run : Run, ∃ steps, x.Performs run steps ∧ run.Orderly steps
    ∧ (run.after steps).rootExports = run.rootExports

namespace RunM

theorem Visits.single {x : RunM α} {step : Step} (performs : ∀ run, x.Performs run [step])
    (stack : ∀ run, (step.apply run).inProgress = run.inProgress)
    (roots : ∀ run, (step.apply run).rootExports = run.rootExports)
    (entered : step.entered? = none) (left : step.left? = none) (marked : step.marked? = none)
    (answered : step.answered? = none) : x.Visits := fun run =>
  ⟨[step], performs run,
    Run.Orderly.single step (stack run) entered left marked (Or.inl answered), roots run⟩

theorem congruence_visits : Congruence fun _ x _ => x.Visits where
  pure := fun a run => ⟨[], performs_pure a run, Run.Orderly.nil run, rfl⟩
  bindGet := by
    intro β f g visits run
    obtain ⟨steps, performs, rest⟩ := visits run run rfl run
    exact ⟨steps, .bindGet performs, rest⟩
  bind := by
    intro α β x y f g hx hf run
    obtain ⟨first, performs, orderly, roots⟩ := hx run
    obtain ⟨second, performs', orderly', roots'⟩ := hf (x run).1 (x run).2
    rw [performs.after] at orderly' roots'
    refine ⟨first ++ second, performs.bind performs', orderly.append orderly', ?_⟩
    rw [Run.after_append, roots', roots]

theorem visits_symbolOf (module name : String) : (symbolOf module name).Visits :=
  Visits.single (performs_symbolOf module name) (fun _ => rfl) (fun _ => rfl) rfl rfl rfl rfl

theorem visits_link (exported newName : SymbolId) : (link exported newName).Visits :=
  Visits.single (performs_perform (.link exported newName)) (fun _ => rfl) (fun _ => rfl)
    rfl rfl rfl rfl

theorem visits_document (module : String) : (document module).Visits :=
  Visits.single (performs_document module) (fun _ => rfl) (fun _ => rfl) rfl rfl rfl rfl

theorem visits_entry (module name : String) : (perform (.entry module name)).Visits :=
  Visits.single (performs_perform (.entry module name)) (fun _ => rfl) (fun _ => rfl)
    rfl rfl rfl rfl

end RunM

/-! ## §2. Modules -/

/-- The history of resolving a module: nothing happens, or it is entered, walked and
left. -/
structure Run.Visit (run : Run) (module : String) (steps : List Step) : Prop where
  shape : steps = [] ∧ run.Knows module
    ∨ ∃ inner exported, steps = [.enter module] ++ inner ++ [.leave module exported]
      ∧ ¬ run.Knows module ∧ ((Step.enter module).apply run).Orderly inner
  roots : (run.after steps).rootExports = run.rootExports

theorem Run.Visit.orderly {run : Run} {module : String} {steps : List Step}
    (h : run.Visit module steps) : run.Orderly steps := by
  rcases h.shape with ⟨rfl, -⟩ | ⟨inner, exported, rfl, unknown, orderly⟩
  · exact Run.Orderly.nil run
  · exact Run.Orderly.visit unknown orderly

/-- After a visit the module is known. -/
theorem Run.Visit.knows {run : Run} {module : String} {steps : List Step}
    (h : run.Visit module steps) : (run.after steps).Knows module := by
  rcases h.shape with ⟨rfl, known⟩ | ⟨inner, exported, rfl, -, -⟩
  · exact known
  · left
    rw [Run.after_append]
    show ((Entries.insert _ module exported).get? module).isSome = true
    rw [Entries.get?_insert, if_pos rfl]
    rfl

/-- During a visit some module is in progress. -/
theorem Run.Visit.busy {run : Run} {module : String} {steps : List Step}
    (h : run.Visit module steps) {first : List Step} (part : first <+: steps)
    (begun : first ≠ []) (unfinished : first ≠ steps) : (run.after first).inProgress ≠ [] := by
  rcases h.shape with ⟨rfl, -⟩ | ⟨inner, exported, rfl, -, orderly⟩
  · exact absurd (List.prefix_nil.1 part) begun
  · rcases List.prefix_concat_iff.1 part with whole | inside
    · exact absurd whole unfinished
    · rcases List.prefix_cons_iff.1 inside with nothing | ⟨rest, rfl, there⟩
      · exact absurd nothing begun
      -- the module is in progress all the time while its document is walked
      · intro idle
        have within : module :: run.inProgress <:+ (run.after (.enter module :: rest)).inProgress :=
          orderly.within rest there
        rw [idle] at within
        cases List.suffix_nil.1 within

/-- **Resolving a module is a visit**, where resolving the modules that it names is. -/
theorem exists_visit_exportModule {resolveModule : String → RunM (List SymbolId)}
    (resolve : ∀ module, (resolveModule module).Visits) (module : String) (run : Run) :
    ∃ steps, (exportModule resolveModule module).Performs run steps ∧ run.Visit module steps := by
  cases known : run.resolved.get? module with
  | some result =>
      refine ⟨[], .bindGet ?_, ⟨Or.inl ⟨rfl, Or.inl (by rw [known]; rfl)⟩, rfl⟩⟩
      rw [known]
      exact RunM.performs_pure result run
  | none =>
      by_cases entered : module ∈ run.inProgress
      · refine ⟨[], .bindGet ?_, ⟨Or.inl ⟨rfl, Or.inr entered⟩, rfl⟩⟩
        rw [known]
        refine .bindGet ?_
        rw [if_pos entered]
        exact RunM.performs_pure [] run
      · have unknown : ¬ run.Knows module := by
          rintro (resolved | here)
          · rw [known] at resolved
            cases resolved
          · exact entered here
        let walk : RunM (List SymbolId) :=
          RunM.document module >>= exportDocument resolveModule module
        have visits : walk.Visits :=
          RunM.congruence_visits.bind (RunM.visits_document module) (y := RunM.document module)
            (g := exportDocument resolveModule module) fun document =>
              RunM.congruence_visits.exportDocument (RunM.visits_symbolOf module)
                (fun _ => RunM.visits_symbolOf _)
                (RunM.congruence_visits.exportAs (RunM.visits_symbolOf module) RunM.visits_link)
                (g := resolveModule) (fun _ => resolve _) (RunM.visits_entry module) document
        obtain ⟨inner, performs, orderly, roots⟩ := visits ((Step.enter module).apply run)
        let exported := (walk ((Step.enter module).apply run)).1
        have left := RunM.performs_perform (.leave module exported)
          (walk ((Step.enter module).apply run)).2
        refine ⟨[.enter module] ++ inner ++ [.leave module exported], .bindGet ?_,
          ⟨Or.inr ⟨inner, exported, rfl, unknown, orderly⟩, ?_⟩⟩
        · rw [known]
          refine .bindGet ?_
          rw [if_neg entered, List.append_assoc]
          refine RunM.Performs.bind (RunM.performs_perform (.enter module) run) ?_
          rw [← bind_assoc (RunM.document module) (exportDocument resolveModule module)]
          exact RunM.Performs.bind performs (left.bind (RunM.performs_pure exported _))
        · rw [Run.after_append, Run.after_append]
          exact roots

/-- **Resolution is orderly, however deep it may nest.** -/
theorem visits_exportNested (depth : Nat) (module : String) : (exportNested depth module).Visits := by
  induction depth generalizing module with
  | zero => exact RunM.congruence_visits.pure []
  | succ depth ih =>
      intro run
      obtain ⟨steps, performs, visit⟩ := exists_visit_exportModule ih module run
      exact ⟨steps, performs, visit.orderly, visit.roots⟩

/-- **The exports of any module are resolved in one visit.** -/
theorem exists_visit_exportAll (module : String) (run : Run) :
    ∃ steps, (exportAll module).Performs run steps ∧ run.Visit module steps := by
  obtain ⟨steps, performs, visit⟩ :=
    exists_visit_exportModule (visits_exportNested (run.store.host.size + 1)) module run
  exact ⟨steps, .bindGet performs, visit⟩

end FlatBundle
