/-
  FlatBundle.Proofs.Run.Steps
  ───────────────────────────
  **RULES FOR THE STEPS OF A RUN.**

  `RunM.Ensures x run post`: the step `x`, started in `run`, ends with a result
  and a run for which `post` holds.  `ConvertM.Yields` says the same of a step
  that may fail, and that it does not fail.  The rules follow the way in which
  steps are put together; a list of steps is walked with an invariant that may
  speak of what has been walked already.

  Last comes what a step can learn of the library: the store answers with the
  document that its host has for the module, whatever was asked before.
-/
import FlatBundle.Conversion

namespace FlatBundle

variable {α β : Type}

/-! ## §1. Steps -/

/-- The step ends in a result and a run with a property. -/
def RunM.Ensures (x : RunM α) (run : Run) (post : α → Run → Prop) : Prop :=
  post (x run).1 (x run).2

namespace RunM

theorem Ensures.pure {a : α} {run : Run} {post : α → Run → Prop} (h : post a run) :
    Ensures (Pure.pure a) run post := h

theorem Ensures.bind {x : RunM α} {f : α → RunM β} {run : Run} {mid : α → Run → Prop}
    {post : β → Run → Prop} (h : Ensures x run mid)
    (h' : ∀ a run', mid a run' → Ensures (f a) run' post) : Ensures (x >>= f) run post :=
  h' _ _ h

theorem Ensures.mono {x : RunM α} {run : Run} {mid post : α → Run → Prop} (h : Ensures x run mid)
    (h' : ∀ a run', mid a run' → post a run') : Ensures x run post :=
  h' _ _ h

theorem Ensures.and {x : RunM α} {run : Run} {post post' : α → Run → Prop}
    (h : Ensures x run post) (h' : Ensures x run post') :
    Ensures x run fun a run' => post a run' ∧ post' a run' :=
  ⟨h, h'⟩

theorem Ensures.bindGet {f : Run → RunM β} {run : Run} {post : β → Run → Prop}
    (h : Ensures (f run) run post) : Ensures (MonadState.get >>= f) run post := h

theorem bindGet_apply (f : Run → RunM β) (run : Run) : (MonadState.get >>= f) run = f run run :=
  rfl

theorem Ensures.bindPerform {step : Step} {f : PUnit → RunM β} {run : Run}
    {post : β → Run → Prop} (h : Ensures (f ⟨⟩) (step.apply run) post) :
    Ensures (perform step >>= f) run post := h

/-- When the exports of a module are given to the outside, the run has noted it. -/
theorem Ensures.askExports {module : String} {run : Run} {post : List SymbolId → Run → Prop}
    (h : Ensures (exportAll module) run fun exported later =>
      post exported ((Step.answer module).apply later)) :
    Ensures (FlatBundle.askExports module) run post := h

/-- What holds of the empty list of steps and is kept by each step holds after all
of them. -/
theorem Ensures.foldlM {f : β → α → RunM β} (inv : List α → β → Run → Prop) {post : β → Run → Prop}
    (items : List α) {init : β} {run : Run} (start : inv [] init run)
    (step : ∀ walked item rest acc run, items = walked ++ item :: rest → inv walked acc run →
      Ensures (f acc item) run (inv (walked ++ [item])))
    (finish : ∀ acc run, inv items acc run → post acc run) :
    Ensures (items.foldlM f init) run post := by
  have walk : ∀ rest walked acc run, items = walked ++ rest → inv walked acc run →
      Ensures (rest.foldlM f acc) run (inv items) := by
    intro rest
    induction rest with
    | nil =>
        intro walked acc run split h
        rw [List.append_nil] at split
        exact split ▸ h
    | cons item rest ih =>
        intro walked acc run split h
        rw [List.foldlM_cons]
        refine Ensures.bind (step walked item rest acc run split h) fun acc' run' h' => ?_
        exact ih (walked ++ [item]) acc' run' (by simp [split]) h'
  exact (walk items [] init run rfl start).mono finish

/-- What holds before a list of steps and is kept by each of them holds after. -/
theorem Ensures.forM {f : α → RunM PUnit} (inv : Run → Prop) (items : List α) {run : Run}
    (start : inv run)
    (step : ∀ item ∈ items, ∀ run, inv run → Ensures (f item) run fun _ run' => inv run') :
    Ensures (items.forM f) run fun _ run' => inv run' := by
  induction items generalizing run with
  | nil => exact Ensures.pure start
  | cons item rest ih =>
      refine Ensures.bind (step item List.mem_cons_self run start) fun _ run' h' => ?_
      exact ih h' fun other hother => step other (List.mem_cons_of_mem _ hother)

end RunM

/-! ## §2. Steps that may fail -/

/-- The step does not fail, and ends in a result and a run with a property. -/
def ConvertM.Yields (x : ConvertM α) (run : Run) (post : α → Run → Prop) : Prop :=
  ∃ a run', x run = (.ok a, run') ∧ post a run'

namespace ConvertM

theorem Yields.pure {a : α} {run : Run} {post : α → Run → Prop} (h : post a run) :
    Yields (Pure.pure a) run post :=
  ⟨a, run, rfl, h⟩

theorem Yields.bind {x : ConvertM α} {f : α → ConvertM β} {run : Run} {mid : α → Run → Prop}
    {post : β → Run → Prop} (h : Yields x run mid)
    (h' : ∀ a run', mid a run' → Yields (f a) run' post) : Yields (x >>= f) run post := by
  obtain ⟨a, run', hx, hmid⟩ := h
  obtain ⟨b, run'', hf, hpost⟩ := h' a run' hmid
  refine ⟨b, run'', ?_, hpost⟩
  show (ExceptT.bindCont f (x run).1) (x run).2 = _
  rw [hx]
  exact hf

theorem Yields.mono {x : ConvertM α} {run : Run} {mid post : α → Run → Prop}
    (h : Yields x run mid) (h' : ∀ a run', mid a run' → post a run') : Yields x run post := by
  obtain ⟨a, run', hx, hmid⟩ := h
  exact ⟨a, run', hx, h' a run' hmid⟩

/-- A step that cannot fail. -/
theorem Yields.lift {x : RunM α} {run : Run} {post : α → Run → Prop}
    (h : RunM.Ensures x run post) : Yields (liftM x) run post :=
  ⟨(x run).1, (x run).2, rfl, h⟩

theorem Yields.bindGet {f : Run → ConvertM β} {run : Run} {post : β → Run → Prop}
    (h : Yields (f run) run post) : Yields (MonadState.get >>= f) run post := by
  obtain ⟨b, run', hf, hpost⟩ := h
  exact ⟨b, run', hf, hpost⟩

theorem Yields.bindPerform {step : Step} {f : PUnit → ConvertM β} {run : Run}
    {post : β → Run → Prop} (h : Yields (f ⟨⟩) (step.apply run) post) :
    Yields (liftM (RunM.perform step) >>= f) run post := by
  obtain ⟨b, later, hf, hpost⟩ := h
  exact ⟨b, later, hf, hpost⟩

/-- A list of steps, each of which keeps what held before it. -/
theorem Yields.forM {f : α → ConvertM PUnit} (inv : List α → Run → Prop) {post : Run → Prop}
    (items : List α) {run : Run} (start : inv [] run)
    (step : ∀ walked item rest run, items = walked ++ item :: rest → inv walked run →
      Yields (f item) run fun _ run' => inv (walked ++ [item]) run')
    (finish : ∀ run, inv items run → post run) :
    Yields (items.forM f) run fun _ run' => post run' := by
  have walk : ∀ rest walked run, items = walked ++ rest → inv walked run →
      Yields (rest.forM f) run fun _ run' => inv items run' := by
    intro rest
    induction rest with
    | nil =>
        intro walked run split h
        rw [List.append_nil] at split
        exact Yields.pure (split ▸ h)
    | cons item rest ih =>
        intro walked run split h
        refine Yields.bind (step walked item rest run split h) fun _ run' h' => ?_
        exact ih (walked ++ [item]) run' (by simp [split]) h'
  exact (walk items [] run rfl start).mono fun _ run' => finish run'

end ConvertM

/-! ## §3. The documents of a library -/

/-- The document of each module of a library. -/
abbrev Sources := String → Option Document

/-- The documents that a host has for the modules inside the bundle of a root. -/
def Host.sources (host : Host) (root : String) : Sources := fun module =>
  if ModulePath.isRelative module then host.get? (ModulePath.resolve module root) else none

theorem Host.isRelative_of_sources {host : Host} {root module : String} {document : Document}
    (h : host.sources root module = some document) : ModulePath.isRelative module = true := by
  unfold Host.sources at h
  split at h
  · assumption
  · cases h

/-- What the store remembers is what its host would answer. -/
def Store.Faithful (store : Store) : Prop :=
  ∀ module answer, store.cache.get? module = some answer →
    answer = store.host.sources store.root module

theorem Store.faithful_new (host : Host) (root : String) : (Store.new host root).Faithful := by
  intro module answer h
  cases h

theorem Store.Faithful.insert {store : Store} (faithful : store.Faithful) (module : String)
    (asked : List String) :
    Store.Faithful { store with
      cache := store.cache.insert module (store.host.sources store.root module)
      asked := asked } := by
  intro other answer h
  rw [Entries.get?_insert] at h
  split at h
  · next same =>
      subst same
      exact (Option.some.inj h).symm
  · exact faithful other answer h

/-- **The store answers with the document of the library**, and stays faithful. -/
theorem Store.get_of_faithful {store : Store} (faithful : store.Faithful) (module : String) :
    (store.get module).1 = store.host.sources store.root module
      ∧ (store.get module).2.Faithful
      ∧ (store.get module).2.host = store.host ∧ (store.get module).2.root = store.root := by
  unfold Store.get
  cases known : store.cache.get? module with
  | some answer => exact ⟨faithful module answer known, faithful, rfl, rfl⟩
  | none =>
      by_cases hrel : ModulePath.isRelative module = true
      · have answer : store.host.sources store.root module
            = store.host.get? (ModulePath.resolve module store.root) := by
          rw [Host.sources, if_pos hrel]
        have kept := faithful.insert module (store.asked ++ [ModulePath.resolve module store.root])
        rw [answer] at kept ⊢
        rw [if_pos hrel]
        exact ⟨rfl, kept, rfl, rfl⟩
      · have answer : store.host.sources store.root module = none := by
          rw [Host.sources, if_neg hrel]
        have kept := faithful.insert module store.asked
        rw [answer] at kept ⊢
        rw [if_neg hrel]
        exact ⟨rfl, kept, rfl, rfl⟩

/-- The store of the run answers with the documents of the host. -/
structure Run.Reads (host : Host) (root : String) (run : Run) : Prop where
  host_eq : run.store.host = host
  root_eq : run.store.root = root
  faithful : run.store.Faithful

/-- A look-up is answered with the document of the library. -/
theorem Run.Reads.document {host : Host} {root : String} {run : Run} (h : run.Reads host root)
    (module : String) : (run.store.get module).1 = host.sources root module
      ∧ ((Step.document module).apply run).Reads host root := by
  obtain ⟨answer, faithful, host_eq, root_eq⟩ := Store.get_of_faithful h.faithful module
  rw [h.host_eq, h.root_eq] at answer
  exact ⟨answer, host_eq.trans h.host_eq, root_eq.trans h.root_eq, faithful⟩

/-- A run reads its host after any step. -/
theorem Run.Reads.apply {host : Host} {root : String} {run : Run} (h : run.Reads host root)
    (step : Step) : (step.apply run).Reads host root := by
  cases step with
  | document module => exact (h.document module).2
  | _ => exact ⟨h.host_eq, h.root_eq, h.faithful⟩

end FlatBundle
