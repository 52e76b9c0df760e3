/-
  FlatBundle.Symbol.Canonical
  ───────────────────────────
  **ONE IDENTITY PER SYMBOL.**

  Following the pointers `exports` from a symbol leads to its declaration;
  following `aliases` leads to all names under which it is exported.  A symbol is
  public if the root module exports it or one of the names reached from it or
  from its declaration; the bundle then refers to it by the export found first.
  Otherwise it is private, and the bundle refers to its declaration.

  Both walks visit a symbol once at most, so they end on cyclic tables too.
-/
import FlatBundle.BundleError
import FlatBundle.Symbol.Table

namespace FlatBundle.SymbolTable

/-! ## §1. Walks -/

/-- Whether a symbol is one of some symbols. -/
def isOneOf (ids : List SymbolId) (id : SymbolId) : Bool := ids.any (· == id)

@[simp] theorem isOneOf_eq_true_iff (ids : List SymbolId) (id : SymbolId) :
    isOneOf ids id = true ↔ id ∈ ids := by
  simp [isOneOf]

/-- How much is left of a walk that goes on from a symbol to the symbols in `added`: the
symbols that it has not visited, each with those that it adds. -/
def unvisited (table : SymbolTable) (added : SymbolId → List SymbolId)
    (visited : List SymbolId) : Nat :=
  ((table.ids.filter (· ∉ visited)).flatMap fun id => id :: added id).length

/-- What is taken out of a list takes its share along. -/
theorem length_flatMap_filter_add_le (share : SymbolId → List SymbolId) (id : SymbolId)
    (ids : List SymbolId) :
    ((ids.filter (· ≠ id)).flatMap share).length + (if id ∈ ids then (share id).length else 0)
      ≤ (ids.flatMap share).length := by
  induction ids with
  | nil => simp
  | cons first rest ih =>
      by_cases here : first = id
      · rw [here, List.filter_cons_of_neg (by simp), if_pos List.mem_cons_self,
          List.flatMap_cons, List.length_append]
        omega
      · have same : id ∈ first :: rest ↔ id ∈ rest := by simp [Ne.symm here]
        rw [List.filter_cons_of_pos (by simpa using here), List.flatMap_cons, List.flatMap_cons,
          List.length_append, List.length_append]
        simp only [same]
        omega

/-- A walk that visits one more symbol has less left, by the symbol and what it adds. -/
theorem unvisited_cons_add_le (table : SymbolTable) (added : SymbolId → List SymbolId)
    {visited : List SymbolId} {id : SymbolId} (hid : id < table.size) (hnew : id ∉ visited) :
    table.unvisited added (id :: visited) + (added id).length + 1
      ≤ table.unvisited added visited := by
  have split : table.ids.filter (· ∉ id :: visited)
      = (table.ids.filter (· ∉ visited)).filter (· ≠ id) := by
    rw [List.filter_filter]
    congr 1
    funext x
    simp [not_or]
  have mem : id ∈ table.ids.filter (· ∉ visited) := by simp [ids, hid, hnew]
  have all := length_flatMap_filter_add_le (fun id => id :: added id) id
    (table.ids.filter (· ∉ visited))
  rw [if_pos mem, List.length_cons, ← split] at all
  exact all

/-- Follow `exports` from `current` as long as it leads to a symbol that has not
been visited. -/
def follow (table : SymbolTable) (visited : List SymbolId) (current : SymbolId) : SymbolId :=
  match table.exports current with
  | none => current
  | some next =>
      if next < table.size ∧ ¬ isOneOf visited next then table.follow (next :: visited) next
      else current
termination_by table.unvisited (fun _ => []) visited
decreasing_by
  rename_i h
  exact table.unvisited_cons_add_le (fun _ => []) h.1 (by simpa using h.2)

/-- The symbol that has the declaration of `id`: the last one of the chain of
`exports`, which stops before it would come back to a symbol. -/
def declaration (table : SymbolTable) (id : SymbolId) : SymbolId :=
  table.follow [id] id

/-- The first symbol of the queue that is in `exported`, searching breadth
first along `aliases`. -/
def search (table : SymbolTable) (exported : List SymbolId) (visited : List SymbolId) :
    (queue : List SymbolId) → Option SymbolId
  | [] => none
  | current :: queue =>
      -- a symbol is looked at once, in the order of the queue
      if current < table.size ∧ ¬ isOneOf visited current then
        if isOneOf exported current then some current
        else table.search exported (current :: visited) (queue ++ table.aliases current)
      else table.search exported visited queue
-- a symbol that is looked at leaves the queue for good, and its aliases join it
termination_by queue => table.unvisited table.aliases visited + queue.length
decreasing_by
  · rename_i h _
    have unseen : current ∉ visited := by simpa using h.2
    have less := table.unvisited_cons_add_le table.aliases h.1 unseen
    simp only [List.length_append, List.length_cons]
    omega
  · simp only [List.length_cons]
    omega

/-- The root export that is nearest to `id` along `aliases`, the one linked
first among the nearest. -/
def rootExport (table : SymbolTable) (exported : List SymbolId) (id : SymbolId) :
    Option SymbolId :=
  table.search exported [] [id]

/-! ## §2. The identity -/

/-- The identity of a symbol in a bundle whose root module exports
`exported`. -/
def canonicalize (table : SymbolTable) (exported : List SymbolId) (id : SymbolId) : Canonical :=
  let declaration := table.declaration id
  -- an export of the symbol itself comes before one of its declaration
  match (table.rootExport exported id).or (table.rootExport exported declaration) with
  | some root => { isPrivate := false, declaration := declaration, symbol := root }
  | none => { isPrivate := true, declaration := declaration, symbol := declaration }

/-- The identity of a symbol, and the table that has it settled. -/
def settle (table : SymbolTable) (exported : List SymbolId) (id : SymbolId) :
    Canonical × SymbolTable :=
  let canonical := table.canonicalize exported id
  (canonical, table.modify id fun symbol => { symbol with canonical := some canonical })

/-- The settled identity of a symbol. -/
def canonical (table : SymbolTable) (id : SymbolId) : Bundling Canonical :=
  let symbol := (table.get? id).getD default
  match symbol.canonical with
  | some canonical => .ok canonical
  | none => .error (.invalidState symbol.module symbol.name)

end FlatBundle.SymbolTable
