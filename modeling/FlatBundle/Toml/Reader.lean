/-
  FlatBundle.Toml.Reader
  ──────────────────────
  **FROM TOML TEXT TO A TABLE.**

  A text is a sequence of lines: headers, which say which table the lines after
  them belong to, and keys with values.  The reader takes one token at a time;
  its state says what may come next, and the arrays and inline tables that are
  still open lie on a stack.
-/
import FlatBundle.Toml.Scalar
import FlatBundle.Toml.Table
import FlatBundle.Toml.Token

namespace FlatBundle.Toml

/-! ## §1. State -/

/-- What a key is read for. -/
inductive KeyUse where
  /-- The header of a table. -/
  | header
  /-- The header of a table in a list. -/
  | listHeader
  /-- A value, in a line or in an inline table. -/
  | value

/-- What may come next. -/
inductive Mode where
  /-- The start of a line. -/
  | lineStart
  /-- The rest of a header right after its first bracket; a second bracket makes
  it a list header only here. -/
  | header
  /-- A key: its parts so far, last first, and whether a part must follow. -/
  | key (use : KeyUse) (parts : List String) (needsPart : Bool)
  /-- The second bracket at the end of a list header. -/
  | headerEnd
  /-- A value. -/
  | value
  /-- A value or the end of an array. -/
  | valueOrClose
  /-- A key or the end of an inline table that has just been opened. -/
  | keyOrClose
  /-- A comma or the end of the innermost container. -/
  | next
  /-- The end of the line. -/
  | lineEnd

/-- An open array or inline table. -/
inductive Frame where
  /-- The items so far, last first. -/
  | arr (items : List Item)
  /-- The entries so far, and the key of the value that is being read. -/
  | inline (entries : Table) (key : List String)

/-- The state of reading. -/
structure Reader where
  /-- The table that the whole text is. -/
  root : Table
  /-- The path of the table that lines belong to. -/
  current : List String
  /-- The key of the line that is being read. -/
  key : List String
  frames : List Frame
  mode : Mode

/-- How deep containers may nest and how long a dotted key may be, both
exclusive. -/
def nestingLimit : Nat := 80

/-! ## §2. Keys -/

/-- A part of a key as it stands in a word. -/
inductive KeyPiece where
  | part (name : List Char)
  | dot

/-- A character of a key without quotes. -/
def isKeyChar (c : Char) : Bool :=
  c.isAlphanum || c = '_' || c = '-'

/-- The parts and dots of a word; none if it has characters that need
quotes. -/
def keyPieces? : List Char → Option (List KeyPiece)
  | [] => some []
  | c :: cs => do
      let pieces ← keyPieces? cs
      if c = '.' then return .dot :: pieces
      else if isKeyChar c then
        match pieces with
        | .part name :: rest => return .part (c :: name) :: rest
        | _ => return .part [c] :: pieces
      else none

/-- One more part of a key. -/
def addPart (parts : List String) (needsPart : Bool) (part : String) :
    Option (List String × Bool) :=
  if needsPart then some (part :: parts, false) else none

/-- A part or a dot of a key. -/
def addPiece (state : List String × Bool) (piece : KeyPiece) : Option (List String × Bool) :=
  match piece with
  | .part name => addPart state.1 state.2 (String.ofList name)
  | .dot => if state.2 then none else some (state.1, true)

/-! ## §3. Steps -/

namespace Reader

/-- The reader in another mode. -/
def go (r : Reader) (mode : Mode) : Option Reader := some { r with mode := mode }

/-- A value is complete. -/
def accept (r : Reader) (value : Item) : Option Reader :=
  match r.frames with
  | [] => do
      let root ← changeAt (write true value r.key) r.current r.root
      return { r with root := root, mode := .lineEnd }
  | .arr items :: outer => some { r with frames := .arr (value :: items) :: outer, mode := .next }
  | .inline entries key :: outer => do
      let entries ← write true value key entries
      return { r with frames := .inline entries [] :: outer, mode := .next }

/-- A container is opened. -/
def enter (r : Reader) (frame : Frame) (mode : Mode) : Option Reader :=
  if r.frames.length + 1 < nestingLimit then
    some { r with frames := frame :: r.frames, mode := mode }
  else none

/-- The innermost container is closed. -/
def leave (r : Reader) : Option Reader :=
  match r.frames with
  | [] => none
  | .arr items :: outer => accept { r with frames := outer } (.arr items.reverse)
  | .inline entries _ :: outer => accept { r with frames := outer } (.table .inline entries)

/-- Whether the innermost container is an array. -/
def inArray (r : Reader) : Bool :=
  match r.frames with
  | .arr _ :: _ => true
  | _ => false

/-- Whether the innermost container is an inline table. -/
def inInline (r : Reader) : Bool :=
  match r.frames with
  | .inline _ _ :: _ => true
  | _ => false

/-- A token where a value may start. -/
def startValue (r : Reader) (token : Token) : Option Reader :=
  match token with
  | .str _ value => r.accept (.str value)
  | .word chars => if isScalar chars then r.accept .scalar else none
  | .openBracket => r.enter (.arr []) .valueOrClose
  | .openBrace => r.enter (.inline [] []) .keyOrClose
  | _ => none

/-- The key of a value is complete. -/
def setKey (r : Reader) (key : List String) : Option Reader :=
  match r.frames with
  | [] => some { r with key := key, mode := .value }
  | .inline entries _ :: outer =>
      some { r with frames := .inline entries key :: outer, mode := .value }
  | _ => none

/-- A header is complete. -/
def openHeader (r : Reader) (path : List String)
    (change : String → Table → Option Table) : Option Reader := do
  let name ← path.getLast?
  let root ← changeAt (change name) path.dropLast r.root
  return { r with root := root, current := path, mode := .lineEnd }

/-- A token in a key. -/
def stepKey (r : Reader) (use : KeyUse) (parts : List String) (needsPart : Bool)
    (token : Token) : Option Reader :=
  let complete := !needsPart && parts.length < nestingLimit
  match token with
  | .blank => some r
  | .str false name => do
      let (parts, needsPart) ← addPart parts needsPart name
      r.go (.key use parts needsPart)
  | .word chars => do
      let (parts, needsPart) ← (← keyPieces? chars).foldlM addPiece (parts, needsPart)
      r.go (.key use parts needsPart)
  | .equals =>
      match use with
      | .value => if complete then r.setKey parts.reverse else none
      | _ => none
  | .closeBracket =>
      match use with
      | .header => if complete then r.openHeader parts.reverse openTable else none
      | .listHeader => if complete then r.go (.key .listHeader parts false) >>= fun r =>
          some { r with key := parts.reverse, mode := .headerEnd } else none
      | .value => none
  | _ => none

/-- A token after a value in a container. -/
def stepNext (r : Reader) (token : Token) : Option Reader :=
  match token with
  | .blank => some r
  | .newline => if r.inArray then some r else none
  | .comma => if r.inArray then r.go .valueOrClose else r.go (.key .value [] true)
  | .closeBracket => if r.inArray then r.leave else none
  | .closeBrace => if r.inInline then r.leave else none
  | _ => none

/-- One token read. -/
def step (r : Reader) (token : Token) : Option Reader :=
  match r.mode with
  | .lineStart =>
      match token with
      | .blank | .newline => some r
      | .openBracket => r.go .header
      | _ => r.stepKey .value [] true token
  | .header =>
      match token with
      | .openBracket => r.go (.key .listHeader [] true)
      | .blank => r.go (.key .header [] true)
      | _ => r.stepKey .header [] true token
  | .key use parts needsPart => r.stepKey use parts needsPart token
  | .headerEnd =>
      match token with
      | .closeBracket => r.openHeader r.key appendTable
      | _ => none
  | .value =>
      match token with
      | .blank => some r
      | _ => r.startValue token
  | .valueOrClose =>
      match token with
      | .blank | .newline => some r
      | .closeBracket => r.leave
      | _ => r.startValue token
  | .keyOrClose =>
      match token with
      | .blank => some r
      | .closeBrace => r.leave
      | _ => r.stepKey .value [] true token
  | .next => r.stepNext token
  | .lineEnd =>
      match token with
      | .blank => some r
      | .newline => r.go .lineStart
      | _ => none

end Reader

/-- The table that a text is. -/
def read? (text : String) : Option Table := do
  let tokens ← tokens? text
  let reader ← tokens.foldlM Reader.step ⟨[], [], [], [], .lineStart⟩
  match reader.mode with
  | .lineStart | .lineEnd => some reader.root
  | _ => none

end FlatBundle.Toml
