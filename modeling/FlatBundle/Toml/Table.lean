/-
  FlatBundle.Toml.Table
  ─────────────────────
  **TABLES AND HOW THEY MAY GROW.**

  A table comes about in four ways: a header names it, a longer header implies
  it, a dotted key makes it, or it is written inline.  A header may name an
  implied table once; dotted keys may add to tables that dotted keys made; an
  inline table is closed.  No name is given two values.
-/
import FlatBundle.Entries

namespace FlatBundle.Toml

/-! ## §1. Items -/

/-- How a table came about. -/
inductive Origin where
  /-- A header names it. -/
  | header
  /-- It is part of the path of a header. -/
  | implied
  /-- It is part of a dotted key. -/
  | dotted
  /-- It is a value. -/
  | inline
  deriving DecidableEq, Repr

/-- A value of a TOML text.  Of numbers, dates and truth values only their
presence is kept. -/
inductive Item where
  | str (value : String)
  | scalar
  | arr (items : List Item)
  | table (origin : Origin) (entries : List (String × Item))
  /-- Tables that headers append to a list, last one first. -/
  | tables (items : List (List (String × Item)))

/-- The entries of a table under construction. -/
abbrev Table := List (String × Item)

/-! ## §2. Growing -/

/-- Change the table at a path.  Tables on the way that do not exist are implied;
the last table of a list stands for the list. -/
def changeAt (change : Table → Option Table) : (path : List String) → Table → Option Table
  | [], table => change table
  | key :: path, table =>
      match Pairs.find? key table with
      | none => do
          let inner ← changeAt change path []
          return Pairs.put key (.table .implied inner) table
      | some (.table origin inner) =>
          if origin = .inline then none
          else do
            let inner ← changeAt change path inner
            return Pairs.put key (.table origin inner) table
      | some (.tables (last :: others)) => do
          let last ← changeAt change path last
          return Pairs.put key (.tables (last :: others)) table
      | some _ => none

/-- A header names a table. -/
def openTable (key : String) (table : Table) : Option Table :=
  match Pairs.find? key table with
  | none => some (Pairs.put key (.table .header []) table)
  | some (.table .implied inner) => some (Pairs.put key (.table .header inner) table)
  | some _ => none

/-- A header appends a table to a list. -/
def appendTable (key : String) (table : Table) : Option Table :=
  match Pairs.find? key table with
  | none => some (Pairs.put key (.tables [[]]) table)
  | some (.tables items) => some (Pairs.put key (.tables ([] :: items)) table)
  | some _ => none

/-- Write a value under a dotted key.  `isOpen` says whether names may be
written into this very table: it is the one whose lines are being read, or a
dotted key made it. -/
def write (isOpen : Bool) (value : Item) : (key : List String) → Table → Option Table
  | [], _ => none
  | [name], table =>
      if isOpen ∧ (Pairs.find? name table).isNone then some (Pairs.put name value table) else none
  | name :: key, table =>
      match Pairs.find? name table with
      | none => do
          let inner ← write true value key []
          return Pairs.put name (.table .dotted inner) table
      | some (.table origin inner) =>
          if origin = .implied ∨ origin = .dotted then do
            let inner ← write (origin = .dotted) value key inner
            return Pairs.put name (.table origin inner) table
          else none
      | some (.tables (last :: others)) => do
          let last ← write false value key last
          return Pairs.put name (.tables (last :: others)) table
      | some _ => none

end FlatBundle.Toml
