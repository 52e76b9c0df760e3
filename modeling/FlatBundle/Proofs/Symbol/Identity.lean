/-
  FlatBundle.Proofs.Symbol.Identity
  ─────────────────────────────────
  **WHAT THE IDENTITY OF A SYMBOL IS.**

  A symbol is private exactly if no root export leads to its declaration
  (`isPrivate_iff`).  The identity is then the declaration, an end of the walk
  along `exports`; otherwise it is a root export that leads to the declaration.

  Identities are settled while the table still grows.  `canonicalize_grows` says
  that this is sound: growth never changes the identity of a symbol that was
  there before.
-/
import FlatBundle.Proofs.Symbol.Walks

namespace FlatBundle.SymbolTable

variable {table : SymbolTable} {exported : List SymbolId}

/-! ## §1. Private and public symbols -/

@[simp] theorem declaration_canonicalize (table : SymbolTable) (exported : List SymbolId)
    (id : SymbolId) : (table.canonicalize exported id).declaration = table.declaration id := by
  unfold canonicalize
  simp only []
  split <;> rfl

theorem symbol_of_isPrivate {id : SymbolId}
    (h : (table.canonicalize exported id).isPrivate = true) :
    (table.canonicalize exported id).symbol = table.declaration id := by
  unfold canonicalize at h ⊢
  simp only [] at h ⊢
  split at h
  · cases h
  · rfl

/-- The identity of a public symbol is what one of the two searches finds. -/
theorem rootExport_of_isPublic {id : SymbolId}
    (h : (table.canonicalize exported id).isPrivate = false) :
    table.rootExport exported id = some (table.canonicalize exported id).symbol
      ∨ table.rootExport exported (table.declaration id)
          = some (table.canonicalize exported id).symbol := by
  unfold canonicalize at h ⊢
  simp only [] at h ⊢
  split at h
  · next root found =>
      rcases Option.or_eq_some_iff.1 found with here | ⟨-, there⟩
      · exact Or.inl here
      · exact Or.inr there
  · cases h

/-- The identity of a public symbol is a root export of the same declaration. -/
theorem symbol_of_isPublic (linked : table.Linked) {id : SymbolId}
    (h : (table.canonicalize exported id).isPrivate = false) :
    (table.canonicalize exported id).symbol ∈ exported
      ∧ table.LeadsTo (table.canonicalize exported id).symbol (table.declaration id) := by
  rcases rootExport_of_isPublic h with found | found
  · obtain ⟨hroot, leads⟩ := rootExport_eq_some linked found
    exact ⟨hroot, leads.trans (table.leadsTo_declaration id)⟩
  · exact rootExport_eq_some linked found

/-- **A symbol is private exactly if no root export leads to its declaration.** -/
theorem isPrivate_iff (linked : table.Linked) {id : Nat} (hid : id < table.size) :
    (table.canonicalize exported id).isPrivate = true
      ↔ ∀ root ∈ exported, ¬ table.LeadsTo root (table.declaration id) := by
  constructor
  · intro h root hroot leads
    have bound : table.declaration id < table.size :=
      (table.leadsTo_declaration id).lt_size linked hid
    have nothing : table.rootExport exported (table.declaration id) = none := by
      unfold canonicalize at h
      simp only [] at h
      split at h
      · cases h
      · next none => exact (Option.or_eq_none_iff.1 none).2
    exact (rootExport_eq_none_iff linked bound).1 nothing root hroot leads
  · intro h
    cases hp : (table.canonicalize exported id).isPrivate with
    | true => rfl
    | false =>
        obtain ⟨hroot, leads⟩ := symbol_of_isPublic linked hp
        exact absurd leads (h _ hroot)

theorem canonicalize_root {root : Nat} (hroot : root ∈ exported) (bound : root < table.size) :
    table.canonicalize exported root
      = { isPrivate := false, declaration := table.declaration root, symbol := root } := by
  unfold canonicalize
  simp only [rootExport_self hroot bound, Option.some_or]

/-! ## §2. The identity of an identity -/

/-- A symbol that other symbols may have as their identity: a root export, or a
private end of the walk along `exports`. -/
structure IsIdentity (table : SymbolTable) (exported : List SymbolId) (id : SymbolId) : Prop where
  bound : id < table.size
  shape : id ∈ exported
    ∨ table.IsEnd id ∧ (table.canonicalize exported id).isPrivate = true

/-- The identity of a private symbol is private. -/
theorem isPrivate_declaration (linked : table.Linked) {id : Nat} (hid : id < table.size)
    (h : (table.canonicalize exported id).isPrivate = true) :
    (table.canonicalize exported (table.declaration id)).isPrivate = true := by
  have bound : table.declaration id < table.size :=
    (table.leadsTo_declaration id).lt_size linked hid
  rw [isPrivate_iff linked bound]
  intro root hroot leads
  refine (isPrivate_iff linked hid).1 h root hroot ?_
  exact leads.trans (leadsTo_of_isEnd linked (isEnd_declaration linked id))

/-- The identity of a symbol is an identity. -/
theorem isIdentity_canonicalize (linked : table.Linked)
    (known : ∀ root ∈ exported, root < table.size)
    {id : Nat} (hid : id < table.size) :
    table.IsIdentity exported (table.canonicalize exported id).symbol := by
  cases h : (table.canonicalize exported id).isPrivate with
  | true =>
      rw [symbol_of_isPrivate h]
      exact ⟨(table.leadsTo_declaration id).lt_size linked hid,
        Or.inr ⟨isEnd_declaration linked id, isPrivate_declaration linked hid h⟩⟩
  | false =>
      obtain ⟨hroot, -⟩ := symbol_of_isPublic linked h
      exact ⟨known _ hroot, Or.inl hroot⟩

/-- A symbol and its identity are both private or both public. -/
theorem isPrivate_symbol (linked : table.Linked) (known : ∀ root ∈ exported, root < table.size)
    {id : Nat} (hid : id < table.size) :
    (table.canonicalize exported (table.canonicalize exported id).symbol).isPrivate
      = (table.canonicalize exported id).isPrivate := by
  cases h : (table.canonicalize exported id).isPrivate with
  | true =>
      rw [symbol_of_isPrivate h]
      exact isPrivate_declaration linked hid h
  | false =>
      obtain ⟨hroot, -⟩ := symbol_of_isPublic linked h
      rw [canonicalize_root hroot (known _ hroot)]

/-- An identity that is public is a root export. -/
theorem IsIdentity.mem_of_isPublic {id : SymbolId} (h : table.IsIdentity exported id)
    (hp : (table.canonicalize exported id).isPrivate = false) : id ∈ exported := by
  rcases h.shape with hroot | ⟨-, hpriv⟩
  · exact hroot
  · rw [hp] at hpriv
    cases hpriv

/-- An identity that is private is not a root export. -/
theorem IsIdentity.isEnd_of_isPrivate {id : SymbolId} (h : table.IsIdentity exported id)
    (hp : (table.canonicalize exported id).isPrivate = true) : table.IsEnd id := by
  rcases h.shape with hroot | ⟨hend, -⟩
  · rw [canonicalize_root hroot h.bound] at hp
    cases hp
  · exact hend

/-! ## §3. Identities in a table that has grown -/

variable {before after : SymbolTable}

/-- **Identities never go stale**: the identity of a symbol is the same in any
later table. -/
theorem canonicalize_grows (h : before.Grows after) (linked : before.Linked)
    (linked' : after.Linked) (known : ∀ root ∈ exported, root < before.size) {id : Nat}
    (hid : id < before.size) :
    after.canonicalize exported id = before.canonicalize exported id := by
  have bound : before.declaration id < before.size :=
    (before.leadsTo_declaration id).lt_size linked hid
  unfold canonicalize
  simp only []
  rw [declaration_grows h linked hid, rootExport_grows h linked linked' known hid,
    rootExport_grows h linked linked' known bound]

theorem LeadsTo.grows (h : before.Grows after) (linked : before.Linked) {id other : Nat}
    (hid : id < before.size) (leads : before.LeadsTo id other) : after.LeadsTo id other := by
  induction leads with
  | refl => exact Relation.ReflTransGen.refl
  | @tail middle other leads step ih =>
      refine Relation.ReflTransGen.tail ih ?_
      rw [h.exports middle (LeadsTo.lt_size linked leads hid)]
      exact step

theorem IsEnd.grows (h : before.Grows after) (linked : before.Linked) {id : Nat}
    (hid : id < before.size) (hend : before.IsEnd id) : after.IsEnd id := by
  rcases hend with stop | ⟨next, step, cycle⟩
  · exact Or.inl ((h.exports id hid).trans stop)
  · exact Or.inr ⟨next, (h.exports id hid).trans step,
      cycle.grows h linked (linked.lt_size_of_exports step)⟩

theorem IsIdentity.grows (h : before.Grows after) (linked : before.Linked)
    (linked' : after.Linked) (known : ∀ root ∈ exported, root < before.size) {id : SymbolId}
    (hid : before.IsIdentity exported id) : after.IsIdentity exported id where
  bound := Nat.lt_of_lt_of_le hid.bound h.size_le
  shape := by
    rcases hid.shape with hroot | ⟨hend, hpriv⟩
    · exact Or.inl hroot
    · refine Or.inr ⟨hend.grows h linked hid.bound, ?_⟩
      rw [canonicalize_grows h linked linked' known hid.bound]
      exact hpriv

end FlatBundle.SymbolTable
