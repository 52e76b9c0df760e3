/-
  FlatBundle.Proofs.Bundling.Ledger
  ─────────────────────────────────
  **WHAT IS DONE IS DONE FOR A REASON.**

  A run looks at an entry of a document because it has entered the module, and it converts
  a value, and stores it, because it has asked for the value.  So each of these deeds has
  one kind of step that gives rise to it, and it is not done more often than that: the names
  of a document are distinct, and a value is converted right behind the mark of its symbol.

  `RunM.Does deed spare x` says this of a computation `x`, where `spare` steps that give rise
  to the deed may stand in front of it.  Sequencing adds (`RunM.Does.bind`), so it holds of
  the walk over a document, of the walk over a value and of bundling as a whole
  (`does_bundleAfter`).  As no module is entered twice and no value is asked for twice, no
  deed is done twice.
-/
import FlatBundle.Proofs.Bundling.History

namespace FlatBundle

variable {α β : Type}

/-! ## §1. Deeds -/

/-- What a run does for a reason. -/
inductive Deed where
  /-- An entry of a document is looked at. -/
  | walk (module name : String)
  /-- A value begins to be converted. -/
  | convert (id : SymbolId)
  /-- A value is stored. -/
  | store (id : SymbolId)

/-- The step does the deed. -/
def Step.does (step : Step) : Deed → Bool
  | .walk module name => step.walked? == some (module, name)
  | .convert id => step.converted? == some id
  | .store id => step.stored? == some id

theorem Step.does_eq_false {step : Step} (walked : step.walked? = none)
    (converted : step.converted? = none) (stored : step.stored? = none) (deed : Deed) :
    step.does deed = false := by
  cases deed with
  | walk module name => rw [does, walked]; rfl
  | convert id => rw [does, converted]; rfl
  | store id => rw [does, stored]; rfl

/-- The step gives rise to the deed: the module is entered, or the value is asked for. -/
def Step.causes (step : Step) : Deed → Bool
  | .walk module _ => step.entered? == some module
  | .convert id | .store id => step.marked? == some id

/-- The entries of documents that a history looks at, in order. -/
def walkedEntries (steps : List Step) : List (String × String) := steps.filterMap Step.walked?

/-- The symbols whose values a history converts, in order. -/
def convertedSymbols (steps : List Step) : List SymbolId := steps.filterMap Step.converted?

/-- The symbols whose values a history stores, in order. -/
def storedSymbols (steps : List Step) : List SymbolId := steps.filterMap Step.stored?

/-- The deed is done no more often than steps give rise to it, where there have been `spare`
such steps before. -/
def Deed.Covered (deed : Deed) (spare : Nat) (steps : List Step) : Prop :=
  steps.countP (·.does deed) ≤ spare + steps.countP (·.causes deed)

theorem Deed.Covered.append {deed : Deed} {spare more : Nat} {first second : List Step}
    (h : deed.Covered spare first) (h' : deed.Covered more second) :
    deed.Covered (spare + more) (first ++ second) := by
  unfold Deed.Covered at *
  rw [List.countP_append, List.countP_append]
  omega

/-- **What each thing gives rise to is done once**, if each such thing is done once. -/
theorem Run.Orderly.countP_does {run : Run} {steps : List Step} (h : run.Orderly steps)
    {deed : Deed} (covered : deed.Covered 0 steps) : steps.countP (·.does deed) ≤ 1 := by
  have entered := List.nodup_iff_count_le_one.1 h.entered.nodup
  have marked := List.nodup_iff_count_le_one.1 h.marked.nodup
  simp only [enteredModules, markedSymbols, List.count_filterMap] at entered marked
  have caused : steps.countP (·.causes deed) ≤ 1 := by
    cases deed with
    | walk module name => exact entered module
    | convert id | store id => exact marked id
  exact covered.trans ((Nat.zero_add _).trans_le caused)

/-! ## §2. Computations -/

/-- The computation does the deed no more often than it has reasons to, and `spare` times. -/
def RunM.Does (deed : Deed) (spare : Nat) (x : RunM α) : Prop :=
  ∀ run, ∃ steps, x.Performs run steps ∧ deed.Covered spare steps

namespace RunM

variable {deed : Deed} {spare more : Nat} {x : RunM α}

theorem Does.mono (h : x.Does deed spare) (le : spare ≤ more) : x.Does deed more := by
  intro run
  obtain ⟨steps, performs, covered⟩ := h run
  exact ⟨steps, performs, covered.trans (Nat.add_le_add_right le _)⟩

theorem Does.bind {f : α → RunM β} (h : x.Does deed spare) (h' : ∀ a, (f a).Does deed more) :
    (x >>= f).Does deed (spare + more) := by
  intro run
  obtain ⟨first, performs, covered⟩ := h run
  obtain ⟨second, performs', covered'⟩ := h' (x run).1 (x run).2
  exact ⟨first ++ second, performs.bind performs', covered.append covered'⟩

/-- What comes behind does the deed only for a reason of its own. -/
theorem Does.bindIdle {f : α → RunM β} (h : x.Does deed spare) (h' : ∀ a, (f a).Does deed 0) :
    (x >>= f).Does deed spare :=
  h.bind h'

theorem Does.bindGet {f : Run → RunM β} (h : ∀ run, (f run).Does deed spare) :
    (MonadState.get >>= f).Does deed spare := by
  intro run
  obtain ⟨steps, performs, covered⟩ := h run run
  exact ⟨steps, .bindGet performs, covered⟩

theorem does_read (f : Run → α) : Does deed 0 fun run => (f run, run) :=
  fun run => ⟨[], performs_read f run, Nat.le_refl 0⟩

/-- One step. -/
theorem does_perform (step : Step) : (perform step).Does deed (step.does deed).toNat := by
  intro run
  refine ⟨[step], performs_perform step run, ?_⟩
  refine Nat.le_trans (Nat.le_of_eq ?_) (Nat.le_add_right _ _)
  rw [List.countP_singleton]
  cases step.does deed <;> rfl

/-- A step in which no deed is done. -/
theorem does_idle {step : Step} (idle : step.does deed = false)
    (performs : ∀ run, x.Performs run [step]) : x.Does deed 0 := by
  intro run
  refine ⟨[step], performs run, ?_⟩
  rw [Deed.Covered, List.countP_singleton, idle]
  exact Nat.zero_le _

/-- **A step gives rise to what comes behind it.** -/
theorem Does.behind {step : Step} (idle : step.does deed = false)
    (h : x.Does deed (step.causes deed).toNat) : (perform step >>= fun _ => x).Does deed 0 := by
  intro run
  obtain ⟨steps, performs, covered⟩ := h (step.apply run)
  refine ⟨step :: steps, (performs_perform step run).bind performs, ?_⟩
  have reason : [step].countP (·.causes deed) = (step.causes deed).toNat := by
    rw [List.countP_singleton]
    cases step.causes deed <;> rfl
  rw [Deed.Covered, List.countP_cons_of_neg (by rw [idle]; exact Bool.false_ne_true),
    ← List.singleton_append, List.countP_append, reason, Nat.zero_add]
  exact covered

theorem congruence_does (deed : Deed) : Congruence fun _ x _ => x.Does deed 0 where
  pure := fun a => does_read fun _ => a
  bindGet := fun does => Does.bindGet fun run => does run run rfl
  bind := fun hx hf => hx.bindIdle hf

/-- Items are walked, and the deed is done for some of them. -/
theorem Does.foldlM {f : β → α → RunM β} {p : α → Bool} (items : List α)
    (h : ∀ acc, ∀ item ∈ items, (f acc item).Does deed (p item).toNat) (init : β) :
    (items.foldlM f init).Does deed (items.countP p) := by
  induction items generalizing init with
  | nil => exact does_read fun _ => init
  | cons item rest ih =>
      have both := (h init item List.mem_cons_self).bind fun acc =>
        ih (fun acc other hother => h acc other (List.mem_cons_of_mem _ hother)) acc
      rw [List.foldlM_cons]
      refine both.mono (Nat.le_of_eq ?_)
      rw [List.countP_cons, Nat.add_comm]
      cases p item <;> rfl

end RunM

/-! ## §3. Modules -/

variable {deed : Deed}

/-- **The entries of a document are looked at because the module is entered**: their names
are distinct. -/
theorem countP_does_entry (module : String) (document : Document) :
    document.entries.toList.countP (fun entry => (Step.entry module entry.1).does deed)
      ≤ ((Step.enter module).causes deed).toNat := by
  cases deed with
  | walk other name =>
      by_cases here : other = module
      · subst here
        have distinct := List.nodup_iff_count_le_one.1 document.entries.nodup name
        have same : document.entries.toList.countP (fun entry =>
            (Step.entry other entry.1).does (.walk other name))
            = (Pairs.keys document.entries.toList).count name := by
          rw [Pairs.keys, List.count, List.countP_map]
          exact List.countP_congr fun entry _ => by simp [Step.does, Step.walked?]
        have entered : (Step.enter other).causes (.walk other name) = true := by
          simp [Step.causes, Step.entered?]
        rw [same, entered]
        exact distinct
      · refine (List.countP_eq_zero.2 fun entry _ => ?_).trans_le (Nat.zero_le _)
        simpa [Step.does, Step.walked?] using fun same => absurd same.symm here
  | convert | store => simp [Step.does, Step.converted?, Step.stored?]

theorem RunM.does_document (module : String) : (document module).Does deed 0 :=
  does_idle (Step.does_eq_false rfl rfl rfl deed) (performs_document module)

theorem RunM.does_symbolOf (module name : String) : (symbolOf module name).Does deed 0 :=
  does_idle (Step.does_eq_false rfl rfl rfl deed) (performs_symbolOf module name)

theorem RunM.does_canonical (id : SymbolId) : (canonical id).Does deed 0 := by
  intro run
  obtain ⟨steps, performs, rfl | rfl⟩ := exists_performs_canonical id run
  · exact ⟨[], performs, Nat.le_refl 0⟩
  · exact ⟨_, performs, by
      rw [Deed.Covered, List.countP_singleton, Step.does_eq_false rfl rfl rfl]
      exact Nat.zero_le _⟩

/-- A step in which no deed is done, by itself. -/
theorem RunM.does_note (step : Step) (walked : step.walked? = none)
    (converted : step.converted? = none) (stored : step.stored? = none) :
    (perform step).Does deed 0 :=
  does_idle (Step.does_eq_false walked converted stored deed) (performs_perform step)

/-- The walk over a document looks at each of its entries once. -/
theorem does_exportDocument {resolveModule : String → RunM (List SymbolId)}
    (resolve : ∀ module, (resolveModule module).Does deed 0) (module : String)
    (document : Option Document) :
    (exportDocument resolveModule module document).Does deed
      ((Step.enter module).causes deed).toNat := by
  have h := RunM.congruence_does deed
  have own : ∀ name, (RunM.symbolOf module name).Does deed 0 := RunM.does_symbolOf module
  have aliased := h.exportAs own fun exported newName =>
    RunM.does_note (.link exported newName) rfl rfl rfl
  cases document with
  | none => exact (RunM.does_read fun _ => []).mono (Nat.zero_le _)
  | some document =>
      have walk : ∀ acc, ∀ entry ∈ document.entries.toList,
          (walkEntry resolveModule module acc entry).Does deed
            ((Step.entry module entry.1).does deed).toNat := fun acc entry _ =>
        (RunM.does_perform (.entry module entry.1)).bindIdle fun _ =>
          h.exportEntry own (fun _ => RunM.does_symbolOf _) aliased (g := resolveModule)
            (fun _ => resolve _) acc entry
      have entries := (RunM.Does.foldlM document.entries.toList walk []).mono
        (countP_does_entry module document)
      exact entries.bindIdle fun result =>
        h.foldlM (g := exportDeclaration resolveModule module) document.declarations
          (fun acc declaration _ => h.exportDeclaration (fun _ => RunM.does_symbolOf _) aliased
            (g := resolveModule) (fun _ => resolve _) acc declaration) result

theorem does_exportModule {resolveModule : String → RunM (List SymbolId)}
    (resolve : ∀ module, (resolveModule module).Does deed 0) (module : String) :
    (exportModule resolveModule module).Does deed 0 := by
  refine RunM.Does.bindGet fun run => ?_
  cases run.resolved.get? module with
  | some result => exact RunM.does_read fun _ => result
  | none =>
      refine RunM.Does.bindGet fun run => ?_
      by_cases entered : module ∈ run.inProgress
      · rw [if_pos entered]
        exact RunM.does_read fun _ => []
      · rw [if_neg entered]
        refine RunM.Does.behind (Step.does_eq_false rfl rfl rfl deed) ?_
        refine ((RunM.does_document module).bind fun document => ?_).mono (Nat.zero_add _).le
        refine (does_exportDocument resolve module document).bindIdle fun result => ?_
        exact (RunM.does_note (.leave module result) rfl rfl rfl).bindIdle fun _ =>
          RunM.does_read fun _ => result

theorem does_exportNested (depth : Nat) (module : String) :
    (exportNested depth module).Does deed 0 := by
  induction depth generalizing module with
  | zero => exact RunM.does_read fun _ => []
  | succ depth ih => exact does_exportModule ih module

theorem does_askExports (module : String) : (askExports module).Does deed 0 := by
  have resolved : (exportAll module).Does deed 0 :=
    RunM.Does.bindGet fun run => does_exportNested (exportDepth run.store.host) module
  exact (RunM.congruence_does deed).askExports resolved
    (RunM.does_note (.answer module) rfl rfl rfl)

/-! ## §4. Values -/

theorem ConvertM.Does.bind {x : ConvertM α} {f : α → ConvertM β} {spare more : Nat}
    (h : x.run.Does deed spare) (h' : ∀ a, (f a).run.Does deed more) :
    (x >>= f).run.Does deed (spare + more) := by
  refine RunM.Does.bind (f := ExceptT.bindCont f) h fun result => ?_
  cases result with
  | ok a => exact h' a
  | error error => exact (RunM.does_read fun _ => Except.error error).mono (Nat.zero_le _)

theorem ConvertM.Does.bindIdle {x : ConvertM α} {f : α → ConvertM β} {spare : Nat}
    (h : x.run.Does deed spare) (h' : ∀ a, (f a).run.Does deed 0) :
    (x >>= f).run.Does deed spare :=
  ConvertM.Does.bind h h'

theorem ConvertM.Does.bindGet {f : Run → ConvertM β} {spare : Nat}
    (h : ∀ run, (f run).run.Does deed spare) : (MonadState.get >>= f).run.Does deed spare :=
  RunM.Does.bindGet (f := fun run => (f run).run) h

theorem ConvertM.Does.behind {x : ConvertM α} {step : Step} (idle : step.does deed = false)
    (h : x.run.Does deed (step.causes deed).toNat) :
    (liftM (RunM.perform step) >>= fun _ => x : ConvertM α).run.Does deed 0 :=
  RunM.Does.behind (x := x.run) idle h

/-- A computation that cannot fail. -/
theorem ConvertM.does_lift {x : RunM α} {spare : Nat} (h : x.Does deed spare) :
    (liftM x : ConvertM α).run.Does deed spare :=
  h.bindIdle fun a => RunM.does_read fun _ => Except.ok a

theorem walks_does {f : SymbolId → ConvertM Unit} (symbols : ∀ id, (f id).run.Does deed 0)
    (module : String) : ConvertM.Walks (fun _ x _ => x.run.Does deed 0) module f f :=
  (RunM.congruence_does deed).walks (P := fun _ => True) (fun _ => trivial)
    (fun other _ => RunM.does_document other) (fun other _ => does_askExports other)
    (fun other name _ => RunM.does_symbolOf other name) RunM.does_canonical
    (fun id => RunM.does_read fun run => run.symbols.canonical id) symbols trivial

/-- **A value is converted and stored because it is asked for.** -/
theorem does_storeConverted {target : SymbolId} {conversion : ConvertM Value}
    (h : conversion.run.Does deed 0) :
    (storeConverted target conversion).run.Does deed ((Step.mark target).causes deed).toNat := by
  have begins : (liftM (RunM.perform (.convert target)) : ConvertM Unit).run.Does deed _ :=
    ConvertM.does_lift (RunM.does_perform (.convert target))
  have stores : ∀ value, (liftM (RunM.perform (.store target value)) : ConvertM Unit).run.Does deed
      ((Step.store target .null).does deed).toNat := fun value => by
    refine (ConvertM.does_lift (RunM.does_perform (.store target value))).mono (Nat.le_of_eq ?_)
    cases deed <;> rfl
  have all := ConvertM.Does.bind begins fun _ => ConvertM.Does.bind h stores
  refine all.mono ?_
  cases deed with
  | walk module name => exact Nat.le_refl 0
  | convert id | store id =>
      simp [Step.does, Step.causes, Step.converted?, Step.stored?, Step.marked?]

/-- Putting in the value of a declaration, because it is asked for. -/
theorem does_convertDeclaration {f : SymbolId → ConvertM Unit}
    (symbols : ∀ id, (f id).run.Does deed 0) (target : SymbolId) :
    (convertDeclaration f target).run.Does deed ((Step.mark target).causes deed).toNat :=
  ConvertM.Walks.convertDeclaration (P := fun _ => True) (fun module _ => walks_does symbols module)
    (S := fun x _ => x.run.Does deed ((Step.mark target).causes deed).toNat)
    (fun related => ConvertM.Does.bindGet fun run => related run run rfl fun _ => trivial)
    ((RunM.does_read fun _ => Except.ok ()).mono (Nat.zero_le _))
    (fun hx hf => (ConvertM.Does.bind hx hf).mono (Nat.zero_add _).le)
    (fun id => ConvertM.does_lift (RunM.does_canonical id))
    (fun module _ => ConvertM.does_lift (RunM.does_document module))
    does_storeConverted

theorem does_convertNested (depth : Nat) (id : SymbolId) :
    (convertNested depth id).run.Does deed 0 := by
  induction depth generalizing id with
  | zero => exact RunM.does_read fun _ => Except.ok ()
  | succ depth ih =>
      refine ConvertM.Does.bindIdle (ConvertM.does_lift (RunM.does_canonical id))
        fun canonical => ConvertM.Does.bindGet fun run => ?_
      cases found : run.symbols.get? canonical.symbol with
      | none => exact RunM.does_read fun _ => Except.ok ()
      | some symbol =>
          cases asked : symbol.referenced with
          | true =>
              simp only [asked, if_true]
              exact RunM.does_read fun _ => Except.ok ()
          | false =>
              simp only [asked]
              exact ConvertM.Does.behind (Step.does_eq_false rfl rfl rfl deed)
                (does_convertDeclaration ih canonical.symbol)

/-! ## §5. Bundling -/

theorem does_settleSymbols (exported : List SymbolId) : (settleSymbols exported).Does deed 0 := by
  refine (RunM.does_note (.roots exported) rfl rfl rfl).bindIdle fun _ =>
    RunM.Does.bindGet fun run => ?_
  exact (RunM.congruence_does deed).forM run.symbols.ids (g := fun _ => Pure.pure ())
    fun id _ => RunM.does_note (.settle id) rfl rfl rfl

theorem does_convertExports (exported : List SymbolId) :
    (convertExports exported).run.Does deed 0 := by
  refine (RunM.congruence_does deed).convertM.forM exported (g := fun _ => Pure.pure ())
    fun id _ => ?_
  exact ConvertM.Does.bindGet fun run => does_convertNested (conversionDepth run) id

theorem does_convertRoot (root : String) : (convertRoot root).run.Does deed 0 := by
  refine ConvertM.Does.bindIdle (ConvertM.does_lift (does_askExports (rootModule root)))
    fun exported => ?_
  refine ConvertM.Does.bindIdle (ConvertM.does_lift (does_settleSymbols exported)) fun _ => ?_
  exact ConvertM.Does.bindIdle (does_convertExports exported) fun _ =>
    RunM.does_read fun _ => Except.ok exported

theorem does_bundleAfter (modules : List String) (root importAs : String) :
    (bundleAfter modules root importAs).Does deed 0 := by
  have asked : (exportModules modules).Does deed 0 :=
    (RunM.congruence_does deed).forM modules (g := fun _ => Pure.pure ()) fun module _ =>
      (does_askExports module).bindIdle fun _ => RunM.does_read fun _ => ()
  refine asked.bindIdle fun _ => ?_
  rw [bundleFrom_eq]
  refine (does_convertRoot root).bindIdle fun result => ?_
  cases result with
  | ok exported => exact RunM.does_read fun run => run.symbols.toBundle exported importAs
  | error error => exact RunM.does_read fun _ => Except.error error

variable (host : Host) (root importAs : String) (modules : List String)

/-- **No deed is done twice while a root is bundled.** -/
theorem countP_does_bundlingHistory (deed : Deed) :
    (bundlingHistory host root importAs modules).countP (·.does deed) ≤ 1 := by
  have does : (bundleAfter modules root importAs).Does deed 0 :=
    does_bundleAfter modules root importAs
  obtain ⟨steps, performs, covered⟩ := does (Run.start host root)
  rw [← (performs_bundlingHistory host root importAs modules).unique performs] at covered
  exact (bundlesIn_bundlingHistory host root importAs modules).orderly.countP_does covered

theorem nodup_walkedEntries :
    (walkedEntries (bundlingHistory host root importAs modules)).Nodup := by
  refine List.nodup_iff_count_le_one.2 fun entry => ?_
  rw [walkedEntries, List.count_filterMap]
  exact countP_does_bundlingHistory host root importAs modules (.walk entry.1 entry.2)

theorem nodup_convertedSymbols :
    (convertedSymbols (bundlingHistory host root importAs modules)).Nodup := by
  refine List.nodup_iff_count_le_one.2 fun id => ?_
  rw [convertedSymbols, List.count_filterMap]
  exact countP_does_bundlingHistory host root importAs modules (.convert id)

theorem nodup_storedSymbols :
    (storedSymbols (bundlingHistory host root importAs modules)).Nodup := by
  refine List.nodup_iff_count_le_one.2 fun id => ?_
  rw [storedSymbols, List.count_filterMap]
  exact countP_does_bundlingHistory host root importAs modules (.store id)

end FlatBundle
