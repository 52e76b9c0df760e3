/-
  FlatBundle.Json.Reader
  ──────────────────────
  **FROM JSON TEXT TO A TREE.**

  A text is read strictly: one value, no comments, no trailing commas.  The
  reader keeps the containers that are still open on a stack and takes one
  token at a time (`Machine.step`).

  What it yields is a `Draft`: the tree of the text in which a value that is
  well written but denotes nothing (a number too large, half of a surrogate
  pair, containers nested too deep) is `unreadable`.  `Draft.tree?` asks that
  nothing be unreadable; `Draft.fit?` asks it only of the parts that a reader
  of records looks at and drops all other fields.
-/
import FlatBundle.Json.Token

namespace FlatBundle.Json

/-! ## §1. Drafts -/

/-- The tree of a text, before its parts are known to denote values. -/
inductive Draft where
  /-- A value that is no container. -/
  | scalar (value : Json)
  | arr (items : List Draft)
  | obj (fields : List (String × Draft))
  /-- A well-written part that denotes nothing. -/
  | unreadable
  deriving Inhabited

/-- How many containers may stand inside one another. -/
def mostDepth : Nat := 127

/-! ## §2. The stack of open containers -/

/-- An open container: the parts that are complete, last first. -/
inductive Frame where
  | arr (items : List Draft)
  /-- An object and the name of the field being read. -/
  | obj (fields : List (Option String × Draft)) (name : Option String)

/-- What may come next. -/
inductive Expect where
  /-- A value. -/
  | value
  /-- A value or the end of an array that has just been opened. -/
  | valueOrClose
  /-- The name of a field. -/
  | name
  /-- A name or the end of an object that has just been opened. -/
  | nameOrClose
  /-- The colon after a name. -/
  | colon
  /-- A comma or the end of the container. -/
  | next
  /-- Nothing: the text is complete. -/
  | nothing (root : Draft)

/-- The state of reading. -/
structure Machine where
  frames : List Frame
  expect : Expect

/-- A complete value goes into the innermost open container. -/
def Machine.accept (frames : List Frame) (value : Draft) : Machine :=
  match frames with
  | [] => ⟨[], .nothing value⟩
  | .arr items :: outer => ⟨.arr (value :: items) :: outer, .next⟩
  | .obj fields name :: outer => ⟨.obj ((name, value) :: fields) none :: outer, .next⟩

/-- The fields of an object, if all their names spell something. -/
def named? (fields : List (Option String × Draft)) : Option (List (String × Draft)) :=
  fields.mapM fun field => field.1.map (·, field.2)

/-- The innermost open container is closed.  One that stands too deep, or that
has a name which spells nothing, cannot be read. -/
def Machine.close (frames : List Frame) : Option Machine :=
  match frames with
  | [] => none
  | frame :: outer =>
      let deep := mostDepth < frames.length
      let draft :=
        match frame with
        | .arr items => if deep then .unreadable else .arr items.reverse
        | .obj fields _ =>
            match named? fields.reverse with
            | some fields => if deep then .unreadable else .obj fields
            | none => .unreadable
      some (accept outer draft)

/-- A token where a value may start. -/
def Machine.start (frames : List Frame) (token : Token) : Option Machine :=
  match token with
  | .openArr => some ⟨.arr [] :: frames, .valueOrClose⟩
  | .openObj => some ⟨.obj [] none :: frames, .nameOrClose⟩
  | .str (some s) => some (accept frames (.scalar (.str s)))
  | .atom (some j) => some (accept frames (.scalar j))
  | .str none | .atom none => some (accept frames .unreadable)
  | _ => none

/-- The name of a field is read. -/
def Machine.setName (frames : List Frame) (name : Option String) : Option Machine :=
  match frames with
  | .obj fields _ :: outer => some ⟨.obj fields name :: outer, .colon⟩
  | _ => none

/-- One token read. -/
def Machine.step (m : Machine) (token : Token) : Option Machine :=
  match m.expect, token with
  | .valueOrClose, .closeArr => close m.frames
  | .nameOrClose, .closeObj => close m.frames
  | .value, _ | .valueOrClose, _ => start m.frames token
  | .name, .str s | .nameOrClose, .str s => setName m.frames s
  | .colon, .colon => some { m with expect := .value }
  | .next, .comma =>
      match m.frames with
      | .arr _ :: _ => some { m with expect := .value }
      | .obj _ _ :: _ => some { m with expect := .name }
      | [] => none
  | .next, .closeArr =>
      match m.frames with
      | .arr _ :: _ => close m.frames
      | _ => none
  | .next, .closeObj =>
      match m.frames with
      | .obj _ _ :: _ => close m.frames
      | _ => none
  | _, _ => none

/-- The draft of a text that holds one value and nothing else. -/
def draft? (text : String) : Option Draft := do
  let tokens ← tokens? text
  let machine ← tokens.foldlM Machine.step ⟨[], .value⟩
  match machine.expect with
  | .nothing root => some root
  | _ => none

/-! ## §3. From drafts to trees -/

mutual

/-- The tree of a draft in which everything denotes a value. -/
def Draft.tree? : Draft → Option Json
  | .scalar value => some value
  | .arr items => (items? items).map .arr
  | .obj fields => (fields? fields).map .obj
  | .unreadable => none

/-- The trees of items. -/
def Draft.items? : List Draft → Option (List Json)
  | [] => some []
  | item :: rest => do
      let item ← item.tree?
      let rest ← items? rest
      return item :: rest

/-- The trees of fields. -/
def Draft.fields? : List (String × Draft) → Option (List (String × Json))
  | [] => some []
  | (name, value) :: rest => do
      let value ← value.tree?
      let rest ← fields? rest
      return (name, value) :: rest

end

/-- The tree of a text that denotes a value in all its parts. -/
def read? (text : String) : Option Json :=
  (draft? text).bind Draft.tree?

/-! ## §4. Records with fields that nobody looks at -/

/-- Which parts of a tree a reader looks at. -/
inductive Outline where
  /-- All of it. -/
  | whole
  /-- A list, each item with the same outline. -/
  | list (item : Outline)
  /-- A record: the fields with these names, in this order where the record is
  written as a list.  Other fields are passed over. -/
  | record (fields : List (String × Outline))

mutual

/-- The tree of the parts of a draft that `outline` names; the fields of records
that it does not name are left out, whatever they hold. -/
def Draft.fit? (outline : Outline) : Draft → Option Json
  | .scalar value => some value
  | .arr items =>
      match outline with
      | .whole => (items? items).map .arr
      | .list item => (fitItems? item items).map .arr
      | .record fields => (fitPositions? (fields.map Prod.snd) items).map .arr
  | .obj fields =>
      match outline with
      | .record known => (fitFields? known fields).map .obj
      | _ => (fields? fields).map .obj
  | .unreadable => none

/-- Items of a list. -/
def Draft.fitItems? (outline : Outline) : List Draft → Option (List Json)
  | [] => some []
  | item :: rest => do
      let item ← item.fit? outline
      let rest ← fitItems? outline rest
      return item :: rest

/-- Fields of a record that is written as a list. -/
def Draft.fitPositions? (outlines : List Outline) : List Draft → Option (List Json)
  | [] => some []
  | item :: rest => do
      let item ← item.fit? (outlines.headD .whole)
      let rest ← fitPositions? outlines.tail rest
      return item :: rest

/-- Fields of a record by name. -/
def Draft.fitFields? (known : List (String × Outline)) :
    List (String × Draft) → Option (List (String × Json))
  | [] => some []
  | (name, value) :: rest =>
      match known.find? (·.1 = name) with
      | none => fitFields? known rest
      | some (_, outline) => do
          let value ← value.fit? outline
          let rest ← fitFields? known rest
          return (name, value) :: rest

end

end FlatBundle.Json
