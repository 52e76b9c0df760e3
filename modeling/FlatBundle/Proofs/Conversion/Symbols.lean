/-
  FlatBundle.Proofs.Conversion.Symbols
  ────────────────────────────────────
  **CONVERTING THE VALUES OF SYMBOLS.**

  The value of an identity is asked for, its declaration is looked up, and the walk
  over the declared value asks for the values of other identities
  (`convertsSymbols_iterate`).  The depth is enough, since each symbol on the way
  down takes a place of its own.
-/
import FlatBundle.Proofs.Conversion.Depth
import FlatBundle.Proofs.Conversion.Rewriting

namespace FlatBundle

variable {host : Host} {root : String} {exported : List SymbolId}

/-! ## §1. Marks and values -/

/-- The value of an identity is asked for. -/
theorem Run.Settled.mark {run : Run} (h : run.Settled host root exported) {target : SymbolId}
    (identity : run.symbols.IsIdentity exported target)
    (placed : run.symbols.IsPlaced root (run.symbols.declaration target))
    (new : run.symbols.isReferenced target = false) :
    RunM.Ensures (RunM.perform (.mark target)) run
      fun _ later => later.Settled host root exported ∧ run.Precedes later
        ∧ later.symbols.isReferenced target = true
        ∧ (∀ id, id ≠ target → later.symbols.isReferenced id = run.symbols.isReferenced id)
        ∧ ∀ id, later.symbols.value? id = run.symbols.value? id := by
  let ask : Symbol → Symbol := fun symbol => { symbol with referenced := true }
  -- a mark is no part of a link, so links, identities and names stay
  have same : run.symbols.SameLinks (run.symbols.modify target ask) :=
    SymbolTable.SameLinks.modify _ target (fun _ => rfl) fun _ => rfl
  have canonical : ∀ id,
      (run.symbols.modify target ask).canonical? id = run.symbols.canonical? id :=
    fun id => run.symbols.canonical?_modify target id fun _ => rfl
  have values : ∀ id, (run.symbols.modify target ask).value? id = run.symbols.value? id :=
    fun id => run.symbols.value?_modify target id fun _ => rfl
  have names : ∀ id,
      (run.symbols.modify target ask).privateName? id = run.symbols.privateName? id :=
    fun id => run.symbols.privateName?_modify target id fun _ => rfl
  have there : ∀ id, id ≠ target →
      (run.symbols.modify target ask).isReferenced id = run.symbols.isReferenced id := by
    intro id ne
    rw [SymbolTable.isReferenced, run.symbols.get?_modify_of_ne ne, SymbolTable.isReferenced]
  have here : (run.symbols.modify target ask).isReferenced target = true := by
    obtain ⟨symbol, hs⟩ := SymbolTable.exists_get?_of_lt identity.bound
    rw [SymbolTable.isReferenced, SymbolTable.get?_modify, if_pos rfl, hs]
    rfl
  refine ⟨h.of_same_links same ?_ ?_ ?_ ?_, ⟨same.grows, ?_, ?_⟩, here, there, values⟩
  · intro id c hc
    exact h.settled id c ((canonical id).symm.trans hc)
  -- the mark is new, so what was marked before is another symbol
  · intro id hid
    by_cases asked : id = target
    · rw [asked]
      exact ⟨identity, placed⟩
    · exact h.referenced id ((there id asked).symm.trans hid)
  · intro id hid
    by_cases asked : id = target
    · rw [asked, here] at hid
      cases hid
    · exact (values id).trans (h.unasked id ((there id asked).symm.trans hid))
  · intro id
    exact (names id).trans (h.unnamed id)
  · intro id hid
    have ne : id ≠ target := by
      rintro rfl
      rw [new] at hid
      cases hid
    exact (there id ne).trans hid
  · intro id known
    show ((run.symbols.modify target ask).canonical? id).isSome = true
    rw [canonical]
    exact known

/-- The converted value of an identity is stored. -/
theorem Run.Settled.store {run : Run} (h : run.Settled host root exported) {target : SymbolId}
    (marked : run.symbols.isReferenced target = true) (value : Value) :
    RunM.Ensures (RunM.perform (.store target value)) run
      fun _ later => later.Settled host root exported ∧ run.Precedes later
        ∧ (∀ id, later.symbols.isReferenced id = run.symbols.isReferenced id)
        ∧ later.symbols.value? target = some value
        ∧ ∀ id, id ≠ target → later.symbols.value? id = run.symbols.value? id := by
  let write : Symbol → Symbol := fun symbol => { symbol with value := some value }
  -- a value is no part of a link either
  have same : run.symbols.SameLinks (run.symbols.modify target write) :=
    SymbolTable.SameLinks.modify _ target (fun _ => rfl) fun _ => rfl
  have canonical : ∀ id,
      (run.symbols.modify target write).canonical? id = run.symbols.canonical? id :=
    fun id => run.symbols.canonical?_modify target id fun _ => rfl
  have marks : ∀ id,
      (run.symbols.modify target write).isReferenced id = run.symbols.isReferenced id :=
    fun id => run.symbols.isReferenced_modify target id fun _ => rfl
  have names : ∀ id,
      (run.symbols.modify target write).privateName? id = run.symbols.privateName? id :=
    fun id => run.symbols.privateName?_modify target id fun _ => rfl
  have there : ∀ id, id ≠ target →
      (run.symbols.modify target write).value? id = run.symbols.value? id := by
    intro id ne
    rw [SymbolTable.value?, run.symbols.get?_modify_of_ne ne, SymbolTable.value?]
  have here : (run.symbols.modify target write).value? target = some value := by
    obtain ⟨symbol, -, hs⟩ := run.symbols.bind_modify_self Symbol.value
      (h.referenced target marked).1.bound write
    exact hs
  refine ⟨h.of_same_links same ?_ ?_ ?_ ?_, ⟨same.grows, ?_, ?_⟩, marks, here, there⟩
  · intro id c hc
    exact h.settled id c ((canonical id).symm.trans hc)
  · intro id hid
    exact h.referenced id ((marks id).symm.trans hid)
  · intro id hid
    replace hid := (marks id).symm.trans hid
    -- a symbol without a mark is not the one that the value goes to
    have ne : id ≠ target := by
      rintro rfl
      rw [marked] at hid
      cases hid
    exact (there id ne).trans (h.unasked id hid)
  · intro id
    exact (names id).trans (h.unnamed id)
  · intro id hid
    exact (marks id).trans hid
  · intro id known
    show ((run.symbols.modify target write).canonical? id).isSome = true
    rw [canonical]
    exact known

/-! ## §2. The value of a declaration -/

/-- A piece of a run that puts in the value of `target`, which has been asked for,
and asks for the values that it needs. -/
structure Run.Fills (host : Host) (root : String) (exported : List SymbolId) (target : SymbolId)
    (run later : Run) : Prop where
  settled : later.Settled host root exported
  precedes : run.Precedes later
  kept : ∀ id, id ≠ target → run.symbols.isReferenced id = true →
    later.symbols.value? id = run.symbols.value? id
  filled : later.Always host root exported fun table =>
    table.Complete (host.sources root) exported target (later.symbols.value? target)
  complete : ∀ id, later.symbols.isReferenced id = true → run.symbols.isReferenced id = true
    ∨ later.Always host root exported fun table =>
        table.Complete (host.sources root) exported id (later.symbols.value? id)
          ∧ Relation.ReflTransGen (table.Needs (host.sources root) exported) target id

/-- A piece that only gets ready comes first. -/
theorem Run.Fills.prepare {first second third : Run} {target : SymbolId}
    (prepares : first.Prepares second) (h : second.Fills host root exported target third) :
    first.Fills host root exported target third where
  settled := h.settled
  precedes := prepares.precedes.trans h.precedes
  kept := by
    intro id ne hid
    rw [h.kept id ne ((prepares.referenced id).trans hid), prepares.value]
  filled := h.filled
  complete := by
    intro id hid
    rw [← prepares.referenced id]
    exact h.complete id hid

/-- A symbol without a declared value is filled as soon as its identity is stored. -/
theorem Run.Fills.of_prepares {run later : Run} {target : SymbolId}
    (settled : later.Settled host root exported) (prepares : run.Prepares later)
    (marked : run.symbols.isReferenced target = true)
    (stored : (later.symbols.canonical? target).isSome)
    (empty : run.symbols.value? target = none)
    (nothing : later.symbols.declared? (host.sources root) target = none) :
    run.Fills host root exported target later where
  settled := settled
  precedes := prepares.precedes
  kept := fun id _ _ => prepares.value id
  filled := by
    intro final _ precedes
    have bound := (settled.referenced target ((prepares.referenced target).trans marked)).1.bound
    -- what is not declared here is not declared in a later table
    have nothing' := (SymbolTable.declared?_grows precedes.grows settled.sound.linked
      (host.sources root) bound).trans nothing
    refine ⟨precedes.stored target stored, ?_, ?_⟩
    · rw [prepares.value, empty, nothing']
      rfl
    · intro module value hvalue
      rw [nothing'] at hvalue
      cases hvalue
  complete := fun id hid => Or.inl ((prepares.referenced id).symm.trans hid)

/-- The walk over the declared value, and the result put in. -/
theorem Run.Fills.of_walk {run later final : Run} {target : SymbolId} {module : String}
    {value converted : Value} (settled : run.Settled host root exported)
    (marked : run.symbols.isReferenced target = true)
    (stored : (run.symbols.canonical? target).isSome)
    (declared : run.symbols.declared? (host.sources root) target = some (module, value))
    (walk : run.Converts host root exported
      (asks exported (value.targets (host.sources root) module)) later)
    (result : later.Always host root exported fun table =>
      converted = value.rewrite (host.sources root) (table.handle exported) module
        ∧ ∀ t ∈ value.targets (host.sources root) module, table.Reached exported t)
    (settled' : final.Settled host root exported) (precedes : later.Precedes final)
    (marks : ∀ id, final.symbols.isReferenced id = later.symbols.isReferenced id)
    (here : final.symbols.value? target = some converted)
    (there : ∀ id, id ≠ target → final.symbols.value? id = later.symbols.value? id) :
    run.Fills host root exported target final := by
  have bound := (settled.referenced target marked).1.bound
  -- the declared value is the same in every table to come
  have stays : ∀ last : Run, final.Precedes last →
      last.symbols.declared? (host.sources root) target = some (module, value) := by
    intro last hlast
    have grows := ((walk.precedes.trans precedes).trans hlast).grows
    rw [SymbolTable.declared?_grows grows settled.sound.linked _ bound, declared]
  refine ⟨settled', walk.precedes.trans precedes, ?_, ?_, ?_⟩
  · intro id ne hid
    exact (there id ne).trans (walk.kept id hid)
  · intro last hlast hprecedes
    -- the walk is right for the last table, in which the value is looked at
    obtain ⟨converts, reached⟩ := result last hlast (precedes.trans hprecedes)
    refine ⟨((walk.precedes.trans precedes).trans hprecedes).stored target stored, ?_, ?_⟩
    · rw [here, stays last hprecedes, converts]
      rfl
    · intro module' value' hvalue
      rw [stays last hprecedes] at hvalue
      obtain ⟨rfl, rfl⟩ := Prod.mk.inj (Option.some.inj hvalue)
      exact reached
  · intro id hid
    rcases walk.complete id ((marks id).symm.trans hid) with old | new
    · exact Or.inl old
    -- what the walk has asked for is needed by the target, through its value
    · by_cases same : id = target
      · rw [same]
        exact Or.inl marked
      refine Or.inr fun last hlast hprecedes => ?_
      obtain ⟨complete, first, ⟨t, ht, needed⟩, chain⟩ := new last hlast (precedes.trans hprecedes)
      refine ⟨(there id same).symm ▸ complete, Relation.ReflTransGen.head ?_ chain⟩
      exact ⟨module, value, stays last hprecedes, t, ht, needed⟩

/-- **The value of a declaration is put in.** -/
theorem Run.Settled.convertDeclaration {run : Run} (h : run.Settled host root exported)
    {convertSymbol : SymbolId → ConvertM Unit} {target : SymbolId}
    (marked : run.symbols.isReferenced target = true)
    (empty : run.symbols.value? target = none)
    (symbols : ∀ module value, run.symbols.declared? (host.sources root) target
        = some (module, value) → ConvertsSymbols host root exported run convertSymbol) :
    ConvertM.Yields (convertDeclaration convertSymbol target) run fun _ later =>
      run.Fills host root exported target later := by
  obtain ⟨identity, placed⟩ := h.referenced target marked
  refine ConvertM.Yields.bind (ConvertM.Yields.lift (h.canonical identity.bound)) ?_
  intro canonical ready hstep
  obtain ⟨rfl, settled, prepares, stored⟩ := hstep
  refine ConvertM.Yields.bindGet ?_
  obtain ⟨module, ⟨name, key⟩, hmodule⟩ := placed
  -- the declaration of the identity is found under the same name as before
  have origin : ready.symbols.origin? target = some (module, name) :=
    (SymbolTable.origin?_grows prepares.grows h.sound.linked identity.bound).trans key
  have declaration : ((ready.symbols.get?
      (run.symbols.canonicalize exported target).declaration).getD default).module = module
      ∧ ((ready.symbols.get?
        (run.symbols.canonicalize exported target).declaration).getD default).name = name := by
    rw [SymbolTable.declaration_canonicalize]
    obtain ⟨symbol, hs, hsame⟩ := Option.map_eq_some_iff.1 (prepares.grows.key?_eq_some key)
    obtain ⟨rfl, rfl⟩ := Prod.mk.inj hsame
    rw [hs]
    exact ⟨rfl, rfl⟩
  have known : (ready.symbols.canonical? target).isSome := by
    rw [stored]
    rfl
  have declared : ready.symbols.declared? (host.sources root) target
      = ((host.sources root).value? (module, name)).map fun value => (module, value) := by
    rw [SymbolTable.declared?, origin]
    rfl
  have before : run.symbols.declared? (host.sources root) target
      = ready.symbols.declared? (host.sources root) target :=
    (SymbolTable.declared?_grows prepares.grows h.sound.linked _ identity.bound).symm
  simp only [declaration]
  -- four ways to have no value, or the walk: the name, the document, the entry
  by_cases reserved : isReservedName name = true
  · rw [if_pos reserved]
    refine ConvertM.Yields.pure (Run.Fills.of_prepares settled prepares marked known empty ?_)
    rw [declared, Sources.value?, if_pos reserved]
    rfl
  · rw [if_neg reserved]
    refine ConvertM.Yields.bind (ConvertM.Yields.lift (settled.document module)) ?_
    intro _ looked hstep
    obtain ⟨rfl, settled₁, same⟩ := hstep
    have prepares₁ := prepares.trans (Run.Prepares.of_symbols_eq same)
    have known₁ : (looked.symbols.canonical? target).isSome := same ▸ known
    have marked₁ := (prepares₁.referenced target).trans marked
    have declared₁ : looked.symbols.declared? (host.sources root) target
        = ((host.sources root module).bind (·.get? name)).map fun value => (module, value) := by
      rw [same, declared, Sources.value?, if_neg reserved]
    cases hdocument : host.sources root module with
    | none =>
        refine ConvertM.Yields.pure
          (Run.Fills.of_prepares settled₁ prepares₁ marked known₁ empty ?_)
        rw [declared₁, hdocument]
        rfl
    | some document =>
        rw [hdocument, Option.bind_some] at declared₁
        cases hvalue : document.get? name with
        | none =>
            simp only [hvalue]
            refine ConvertM.Yields.pure
              (Run.Fills.of_prepares settled₁ prepares₁ marked known₁ empty ?_)
            rw [declared₁, hvalue]
            rfl
        | some value =>
            rw [hvalue, Option.map_some] at declared₁
            have before₁ := before.trans (same ▸ declared₁)
            simp only [hvalue]
            -- only now is a value met, and the nested conversion called
            let begun := (Step.convert target).apply looked
            have settled₂ : begun.Settled host root exported := settled₁.noted _
            have prepares₂ : run.Prepares begun := prepares₁.trans (Run.Prepares.of_symbols_eq rfl)
            have walk := Value.convertsTo (symbols module value before₁) hmodule value begun
              settled₂ prepares₂.precedes
            refine ConvertM.Yields.bindPerform (ConvertM.Yields.bind walk ?_)
            intro converted later hstep
            obtain ⟨converts, result⟩ := hstep
            have asked := converts.precedes.referenced target marked₁
            refine (ConvertM.Yields.lift (converts.settled.store asked converted)).mono ?_
            intro _ final hstep
            obtain ⟨settled₃, precedes₃, marks, here, there⟩ := hstep
            exact Run.Fills.prepare prepares₂ (Run.Fills.of_walk settled₂ marked₁ known₁ declared₁
              converts result settled₃ precedes₃ marks here there)

/-! ## §3. Symbols -/

/-- The identity of a symbol belongs to a module that conversion knows. -/
theorem Run.Settled.isPlaced_symbol {run : Run} (h : run.Settled host root exported)
    {id : SymbolId} (placed : run.symbols.IsPlaced root id) :
    run.symbols.IsPlaced root (run.symbols.canonicalize exported id).symbol := by
  cases hp : (run.symbols.canonicalize exported id).isPrivate with
  | true =>
      rw [SymbolTable.symbol_of_isPrivate hp]
      exact h.sound.isPlaced placed (run.symbols.leadsTo_declaration id)
  | false =>
      obtain ⟨hroot, -⟩ := SymbolTable.symbol_of_isPublic h.sound.linked hp
      exact ⟨rootModule root, h.owned _ hroot, Or.inr rfl⟩

/-- An identity is marked and then filled. -/
theorem Run.Fills.converts {run marked later : Run} {id : Nat}
    (settled : run.Settled host root exported) (bound : id < run.symbols.size)
    (precedes : run.Precedes marked)
    (new : run.symbols.isReferenced (run.symbols.canonicalize exported id).symbol = false)
    (marks : ∀ other, other ≠ (run.symbols.canonicalize exported id).symbol →
      marked.symbols.isReferenced other = run.symbols.isReferenced other)
    (values : ∀ other, marked.symbols.value? other = run.symbols.value? other)
    (fills : marked.Fills host root exported (run.symbols.canonicalize exported id).symbol later) :
    run.Converts host root exported
      (fun table first => first = (table.canonicalize exported id).symbol) later where
  settled := fills.settled
  precedes := precedes.trans fills.precedes
  kept := by
    intro other hother
    -- the identity is new, and all that was asked for before is kept
    have ne : other ≠ (run.symbols.canonicalize exported id).symbol := by
      rintro rfl
      rw [new] at hother
      cases hother
    rw [fills.kept other ne (precedes.referenced other hother), values]
  complete := by
    intro other hother
    -- the identity is the same in every table to come
    have first : ∀ final : Run, final.Settled host root exported → later.Precedes final →
        (run.symbols.canonicalize exported id).symbol
          = (final.symbols.canonicalize exported id).symbol := by
      intro final hfinal hprecedes
      have all := (precedes.trans fills.precedes).trans hprecedes
      rw [(settled.grows hfinal all bound).2.2]
    by_cases same : other = (run.symbols.canonicalize exported id).symbol
    · refine Or.inr fun final hfinal hprecedes => ?_
      rw [same]
      exact ⟨fills.filled final hfinal hprecedes, _, first final hfinal hprecedes,
        Relation.ReflTransGen.refl⟩
    · rcases fills.complete other hother with old | fresh
      · exact Or.inl ((marks other same).symm.trans old)
      · refine Or.inr fun final hfinal hprecedes => ?_
        obtain ⟨complete, chain⟩ := fresh final hfinal hprecedes
        exact ⟨complete, _, first final hfinal hprecedes, chain⟩

/-! ## §4. Levels -/

/-- Convert the value of a symbol's identity, where `convertSymbol` converts the values of
the symbols that it refers to. -/
def convertOnce (convertSymbol : SymbolId → ConvertM Unit) (id : SymbolId) : ConvertM Unit := do
  let target := (← RunM.canonical id).symbol
  match (← get).symbols.get? target with
  | none => return ()
  | some symbol =>
      if symbol.referenced then return ()
      RunM.perform (.mark target)
      convertDeclaration convertSymbol target

/-- Nested conversion is that, level by level. -/
theorem convertNested_eq_iterate (depth : Nat) :
    convertNested depth = convertOnce^[depth] fun _ => return () := by
  induction depth with
  | zero => rfl
  | succ depth ih =>
      rw [Function.iterate_succ_apply', ← ih]
      rfl

/-- **The value of a symbol's identity is converted, once**, where conversion may
nest deep enough for the places that are left, whatever is below the last level. -/
theorem convertsSymbols_iterate (bottom : SymbolId → ConvertM Unit) (depth : Nat) (start : Run)
    (settled : start.Settled host root exported)
    (enough : host.placeCount exported
      < depth + (start.symbols.occupied (host.sources root)).card) :
    ConvertsSymbols host root exported start (convertOnce^[depth] bottom) := by
  induction depth generalizing start with
  | zero =>
      -- with no level left all places would be taken, and there is one more
      have full := settled.card_occupied_le
      omega
  | succ depth ih =>
      rw [Function.iterate_succ_apply']
      intro run id hrun hstart bound placed
      have taken := Finset.card_le_card (settled.occupied_subset hstart)
      refine ConvertM.Yields.bind (ConvertM.Yields.lift (hrun.canonical bound)) ?_
      intro _ ready hstep
      obtain ⟨rfl, hready, prepares, -⟩ := hstep
      refine ConvertM.Yields.bindGet ?_
      -- storing an identity moves no other identity
      have identity : ready.symbols.IsIdentity exported
          (run.symbols.canonicalize exported id).symbol :=
        (SymbolTable.isIdentity_canonicalize hrun.sound.linked hrun.lt_size bound).grows
          prepares.grows hrun.sound.linked hready.sound.linked hrun.lt_size
      obtain ⟨symbol, hs⟩ := SymbolTable.exists_get?_of_lt identity.bound
      have mark_eq : ready.symbols.isReferenced (run.symbols.canonicalize exported id).symbol
          = symbol.referenced := by
        rw [SymbolTable.isReferenced, hs]
        rfl
      simp only [hs]
      cases marked : symbol.referenced with
      | true =>
          -- its value has been asked for before
          exact ConvertM.Yields.pure
            ⟨Run.Converts.of_prepares hready prepares, mark_eq.trans marked⟩
      | false =>
          have new := mark_eq.trans marked
          have new' := (prepares.referenced _).symm.trans new
          have owner := (hrun.isPlaced_symbol placed).grows prepares.grows
          refine ConvertM.Yields.bind (ConvertM.Yields.lift (hready.mark identity
            (hready.sound.isPlaced owner (ready.symbols.leadsTo_declaration _)) new)) ?_
          intro _ asked hstep
          obtain ⟨hasked, precedes, here, there, values⟩ := hstep
          have both := prepares.precedes.trans precedes
          have empty := (values _).trans (hready.unasked _ new)
          refine (hasked.convertDeclaration here empty ?_).mono ?_
          · -- the identity takes a place, so one level less is enough
            intro module value declared
            apply ih asked hasked
            have one := hrun.card_occupied_lt both new' here (by rw [declared]; rfl)
            omega
          · intro _ later fills
            refine ⟨fills.converts hrun bound both new' ?_ ?_, fills.precedes.referenced _ here⟩
            · intro other ne
              rw [there other ne, prepares.referenced]
            · intro other
              rw [values, prepares.value]

end FlatBundle
