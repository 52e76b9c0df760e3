/-
  FlatBundle.Entries
  ──────────────────
  **FINITE MAPS FROM NAMES THAT REMEMBER THE ORDER OF INSERTION.**

  `Entries α` is a list of name and value pairs in which no name repeats.
  Writing to a name that is already there keeps its place and replaces its
  value; a new name goes to the end.  The view is `toList`:

    • `keys_insert`: a write adds the name at the end, or changes no name,
    • `get?_insert`: a write is read back, and no other name is affected.

  The operations on bare lists (`put`, `find?`) come first, because values
  nest maps inside themselves as bare lists.
-/
namespace FlatBundle

/-! ## §1. Pair lists -/

namespace Pairs

variable {α : Type}

/-- The names of a pair list, in order. -/
def keys (pairs : List (String × α)) : List String :=
  pairs.map Prod.fst

/-- The value under the first pair of a name. -/
def find? (name : String) : List (String × α) → Option α
  | [] => none
  | (key, value) :: rest => if key = name then some value else find? name rest

/-- Replace the value of a name in place, or append a new pair. -/
def put (name : String) (value : α) : List (String × α) → List (String × α)
  | [] => [(name, value)]
  | (key, old) :: rest =>
      if key = name then (key, value) :: rest else (key, old) :: put name value rest

/-- The pairs of a list written one after the other: the first place and the
last value of every name. -/
def merge (pairs : List (String × α)) : List (String × α) :=
  pairs.foldl (fun acc pair => put pair.1 pair.2 acc) []

theorem keys_put (name : String) (value : α) (pairs : List (String × α)) :
    keys (put name value pairs)
      = if name ∈ keys pairs then keys pairs else keys pairs ++ [name] := by
  induction pairs with
  | nil => simp [put, keys]
  | cons pair rest ih =>
    obtain ⟨key, old⟩ := pair
    by_cases h : key = name
    · simp [put, keys, h]
    · have h' : ¬ name = key := fun e => h e.symm
      have ih' : keys (put name value rest)
          = if name ∈ keys rest then keys rest else keys rest ++ [name] := ih
      have hc : keys ((key, old) :: rest) = key :: keys rest := rfl
      rw [put, if_neg h, hc, show keys ((key, old) :: put name value rest)
        = key :: keys (put name value rest) from rfl, ih']
      by_cases hm : name ∈ keys rest <;> simp [hm, h']

/-- A new name goes to the end. -/
theorem put_of_not_mem {name : String} (value : α) {pairs : List (String × α)}
    (new : name ∉ keys pairs) : put name value pairs = pairs ++ [(name, value)] := by
  induction pairs with
  | nil => rfl
  | cons pair rest ih =>
    obtain ⟨key, old⟩ := pair
    have other : key ≠ name := fun e => new (e ▸ List.mem_cons_self)
    rw [put, if_neg other, ih fun h => new (List.mem_cons_of_mem _ h)]
    rfl

theorem nodup_keys_put (name : String) (value : α) {pairs : List (String × α)}
    (h : (keys pairs).Nodup) : (keys (put name value pairs)).Nodup := by
  rw [keys_put]
  split
  · exact h
  · next hn => exact List.nodup_append.2 ⟨h, by simp, by
        intro a ha b hb e
        rw [List.mem_singleton.1 hb] at e
        exact hn (e ▸ ha)⟩

theorem nodup_keys_foldl_put (pairs : List (String × α)) :
    ∀ (acc : List (String × α)), (keys acc).Nodup →
      (keys (pairs.foldl (fun acc pair => put pair.1 pair.2 acc) acc)).Nodup := by
  induction pairs with
  | nil => intro acc h; exact h
  | cons pair rest ih => intro acc h; exact ih _ (nodup_keys_put _ _ h)

theorem nodup_keys_merge (pairs : List (String × α)) : (keys (merge pairs)).Nodup :=
  nodup_keys_foldl_put pairs [] List.nodup_nil

/-- Pairs in which no name repeats are written as they are. -/
theorem merge_of_nodup {pairs : List (String × α)} (nodup : (keys pairs).Nodup) :
    merge pairs = pairs := by
  -- the pairs written so far are an argument of the walk
  have walk : ∀ (rest acc : List (String × α)), (keys (acc ++ rest)).Nodup →
      rest.foldl (fun acc pair => put pair.1 pair.2 acc) acc = acc ++ rest := by
    intro rest
    induction rest with
    | nil => exact fun acc _ => (List.append_nil acc).symm
    | cons pair rest ih =>
      intro acc distinct
      have new : pair.1 ∉ keys acc := by
        rw [keys, List.map_append] at distinct
        exact fun old => (List.nodup_append.1 distinct).2.2 _ old _ List.mem_cons_self rfl
      have split : acc ++ pair :: rest = acc ++ [pair] ++ rest := by simp
      rw [List.foldl_cons, put_of_not_mem pair.2 new, ih _ (split ▸ distinct), split]
  exact walk pairs [] nodup

theorem find?_put_self (name : String) (value : α) (pairs : List (String × α)) :
    find? name (put name value pairs) = some value := by
  induction pairs with
  | nil => simp [put, find?]
  | cons pair rest ih =>
    obtain ⟨key, old⟩ := pair
    by_cases h : key = name <;> simp [put, find?, h, ih]

theorem find?_put_of_ne {name other : String} (value : α) (pairs : List (String × α))
    (h : other ≠ name) : find? other (put name value pairs) = find? other pairs := by
  induction pairs with
  | nil => simp [put, find?, Ne.symm h]
  | cons pair rest ih =>
    obtain ⟨key, old⟩ := pair
    by_cases hk : key = name
    · subst hk; simp [put, find?, Ne.symm h]
    · rw [put, if_neg hk, find?, find?, ih]

theorem mem_of_find?_eq_some {name : String} {value : α} {pairs : List (String × α)}
    (h : find? name pairs = some value) : (name, value) ∈ pairs := by
  induction pairs with
  | nil => cases h
  | cons pair rest ih =>
    obtain ⟨key, old⟩ := pair
    by_cases hk : key = name
    · rw [find?, if_pos hk] at h
      rw [hk, Option.some.inj h]
      exact List.mem_cons_self
    · rw [find?, if_neg hk] at h
      exact List.mem_cons_of_mem _ (ih h)

theorem mem_keys_of_find?_eq_some {name : String} {value : α} {pairs : List (String × α)}
    (h : find? name pairs = some value) : name ∈ keys pairs :=
  List.mem_map_of_mem (mem_of_find?_eq_some h)

/-- Where no name repeats, every pair is found. -/
theorem find?_eq_some_of_mem {name : String} {value : α} {pairs : List (String × α)}
    (nodup : (keys pairs).Nodup) (h : (name, value) ∈ pairs) : find? name pairs = some value := by
  induction pairs with
  | nil => cases h
  | cons pair rest ih =>
    obtain ⟨key, old⟩ := pair
    obtain ⟨new, nodup⟩ := List.nodup_cons.1 nodup
    rcases List.mem_cons.1 h with same | h
    · rw [(Prod.mk.inj same).1, (Prod.mk.inj same).2, find?, if_pos rfl]
    · have mem : name ∈ keys rest := List.mem_map.2 ⟨(name, value), h, rfl⟩
      have other : key ≠ name := fun e => new (e ▸ mem)
      rw [find?, if_neg other]
      exact ih nodup h

end Pairs

/-! ## §2. The map -/

/-- A finite map from names that keeps the order in which the names came. -/
structure Entries (α : Type) where
  /-- The pairs, in order of insertion. -/
  toList : List (String × α)
  /-- No name occurs twice. -/
  nodup : (Pairs.keys toList).Nodup

namespace Entries

variable {α : Type}

/-- The map without entries. -/
def empty : Entries α := ⟨[], List.nodup_nil⟩

instance : Inhabited (Entries α) := ⟨empty⟩

/-- Write `value` under `name`. -/
def insert (entries : Entries α) (name : String) (value : α) : Entries α :=
  ⟨Pairs.put name value entries.toList, Pairs.nodup_keys_put name value entries.nodup⟩

/-- The pairs of a list written one after the other. -/
def ofList (pairs : List (String × α)) : Entries α :=
  ⟨Pairs.merge pairs, Pairs.nodup_keys_merge pairs⟩

/-- The value under `name`. -/
def get? (entries : Entries α) (name : String) : Option α :=
  Pairs.find? name entries.toList

/-- Whether there is an entry for `name`. -/
def contains (entries : Entries α) (name : String) : Bool :=
  (entries.get? name).isSome

/-- The names, in order of insertion. -/
def keys (entries : Entries α) : List String :=
  Pairs.keys entries.toList

/-- The number of entries. -/
def size (entries : Entries α) : Nat :=
  entries.toList.length

/-- A map is the list of its pairs. -/
theorem eq_of_toList {entries others : Entries α} (same : entries.toList = others.toList) :
    entries = others := by
  cases entries
  cases others
  cases same
  rfl

theorem keys_insert (entries : Entries α) (name : String) (value : α) :
    (entries.insert name value).keys
      = if name ∈ entries.keys then entries.keys else entries.keys ++ [name] :=
  Pairs.keys_put name value entries.toList

theorem get?_insert (entries : Entries α) (name other : String) (value : α) :
    (entries.insert name value).get? other
      = if other = name then some value else entries.get? other := by
  by_cases h : other = name
  · subst h; simp [insert, get?, Pairs.find?_put_self]
  · simp [insert, get?, h, Pairs.find?_put_of_ne]

theorem contains_iff_mem_keys (entries : Entries α) (name : String) :
    entries.contains name = true ↔ name ∈ entries.keys := by
  rw [contains, Option.isSome_iff_exists]
  constructor
  · intro found
    obtain ⟨value, h⟩ := found
    exact Pairs.mem_keys_of_find?_eq_some h
  · intro mem
    obtain ⟨⟨key, value⟩, h, rfl⟩ := List.mem_map.1 mem
    exact ⟨value, Pairs.find?_eq_some_of_mem entries.nodup h⟩

end Entries

end FlatBundle
