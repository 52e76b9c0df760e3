/-
  FlatBundle.Command.Arguments
  ────────────────────────────
  **THE ARGUMENTS OF THE COMMAND LINE.**

  There are two commands, `bundle` and `index`, each with options of its own;
  `-v` may stand anywhere and any number of times.  An option takes its value
  from the same argument or from the next one, short options may share an
  argument, and `--` ends the options.  No other option may be repeated.

  What a command accepts is data (`Grammar`).  Arguments are read from left to
  right; reading ends early at the first one that is wrong, or that asks for
  help or for the version (`Halt`).
-/
import FlatBundle.Entries

namespace FlatBundle

/-! ## §1. Commands -/

/-- What the command line asks for. -/
inductive Command where
  /-- Bundle a root module from a directory. -/
  | bundle (root importAs : String) (out : Option String) (base : String) (pretty : Bool)
  /-- Make a flat index as a configuration file says. -/
  | index (config : String) (pretty : Bool)
  deriving DecidableEq, Repr

namespace Command

/-- What help is about. -/
inductive Topic where
  | program
  | bundle
  | index
  | help
  deriving DecidableEq, Repr

/-- Why arguments name no command. -/
inductive Halt where
  /-- They are wrong. -/
  | usage
  | help (topic : Topic)
  | version
  deriving DecidableEq, Repr

/-! ## §2. Grammars -/

/-- What an option does. -/
inductive OptionKind where
  /-- It counts how often it is given. -/
  | counter
  /-- It is given or not. -/
  | flag
  /-- It has a value. -/
  | text
  /-- It has a path as its value, which is not empty. -/
  | path
  /-- It asks for help. -/
  | help
  deriving DecidableEq, Repr

/-- An option. -/
structure Opt where
  long : String
  short : Option Char
  kind : OptionKind

/-- Whether an option takes a value. -/
def Opt.takesValue (option : Opt) : Bool :=
  option.kind = .text || option.kind = .path

/-- What a command accepts. -/
structure Grammar where
  topic : Topic
  options : List Opt
  /-- How many arguments that are no options it takes. -/
  positionals : Nat

/-- The options that every command has. -/
def commonOptions : List Opt :=
  [⟨"verbose", some 'v', .counter⟩, ⟨"help", some 'h', .help⟩]

/-- What `bundle` accepts. -/
def bundleGrammar : Grammar :=
  ⟨.bundle, commonOptions ++ [⟨"import-as", none, .text⟩, ⟨"out", some 'o', .path⟩,
    ⟨"base", some 'b', .path⟩, ⟨"pretty", none, .flag⟩], 1⟩

/-- What `index` accepts. -/
def indexGrammar : Grammar :=
  ⟨.index, commonOptions ++ [⟨"config", some 'c', .path⟩, ⟨"pretty", none, .flag⟩], 0⟩

/-! ## §3. Reading arguments -/

/-- What arguments give. -/
structure Parsed where
  /-- The options given, with their values. -/
  options : List (String × String)
  /-- The other arguments, in order. -/
  positionals : List String

/-- The value of an option. -/
def Parsed.value? (parsed : Parsed) (name : String) : Option String :=
  Pairs.find? name parsed.options

/-- Whether an option is given. -/
def Parsed.has (parsed : Parsed) (name : String) : Bool :=
  (parsed.value? name).isSome

/-- One more option.  Only counters may be repeated, and a path is not empty. -/
def Parsed.add (grammar : Grammar) (parsed : Parsed) (option : Opt) (value : String) :
    Except Halt Parsed :=
  if option.kind = .help then .error (.help grammar.topic)
  else if option.kind ≠ .counter ∧ parsed.has option.long then .error .usage
  else if option.kind = .path ∧ value = "" then .error .usage
  else .ok { parsed with options := parsed.options ++ [(option.long, value)] }

/-- A name and what follows its first `=`, if there is one. -/
def splitEquals (cs : List Char) : String × Option String :=
  match cs.dropWhile (· ≠ '=') with
  | [] => (String.ofList cs, none)
  | _ :: value => (String.ofList (cs.takeWhile (· ≠ '=')), some (String.ofList value))

/-- An option that is known. -/
def known (option : Option Opt) : Except Halt Opt :=
  match option with
  | some option => .ok option
  | none => .error .usage

/-- An argument `--name` or `--name=value`; also the option that waits for its
value in the next argument. -/
def readLong (grammar : Grammar) (parsed : Parsed) (cs : List Char) :
    Except Halt (Parsed × Option Opt) := do
  let (name, value) := splitEquals cs
  let option ← known (grammar.options.find? (·.long = name))
  match option.takesValue, value with
  | true, some value => return (← parsed.add grammar option value, none)
  | true, none => return (parsed, some option)
  | false, none => return (← parsed.add grammar option "", none)
  | false, some _ => throw .usage

/-- The letters of an argument like `-vo`: what follows the letter of an option
with a value is its value, after a `=` that may stand there. -/
def readShort (grammar : Grammar) (parsed : Parsed) :
    List Char → Except Halt (Parsed × Option Opt)
  | [] => .ok (parsed, none)
  | letter :: rest => do
      let option ← known (grammar.options.find? (·.short = some letter))
      if option.takesValue then
        match rest with
        | [] => return (parsed, some option)
        | '=' :: value => return (← parsed.add grammar option (String.ofList value), none)
        | value => return (← parsed.add grammar option (String.ofList value), none)
      else readShort grammar (← parsed.add grammar option "") rest

/-- One more argument that is no option. -/
def Parsed.addPositional (grammar : Grammar) (parsed : Parsed) (value : String) :
    Except Halt Parsed :=
  if parsed.positionals.length < grammar.positionals then
    .ok { parsed with positionals := parsed.positionals ++ [value] }
  else .error .usage

/-- Read arguments.  `waiting` is an option whose value must come next, and which
no argument that looks like an option can be. -/
def readArguments (grammar : Grammar) (waiting : Option Opt) (parsed : Parsed) :
    List String → Except Halt Parsed
  | [] => if waiting.isNone then .ok parsed else .error .usage
  | argument :: rest =>
      match argument.toList, waiting with
      | ['-', '-'], none => rest.foldlM (Parsed.addPositional grammar) parsed
      | '-' :: '-' :: cs, none => do
          let (parsed, waiting) ← readLong grammar parsed cs
          readArguments grammar waiting parsed rest
      | '-' :: c :: cs, none => do
          let (parsed, waiting) ← readShort grammar parsed (c :: cs)
          readArguments grammar waiting parsed rest
      | '-' :: _ :: _, some _ => .error .usage
      | _, some option => do
          readArguments grammar none (← parsed.add grammar option argument) rest
      | _, none => do
          readArguments grammar none (← parsed.addPositional grammar argument) rest

/-! ## §4. Commands from arguments -/

/-- The command `bundle`; the root module and the name must be given. -/
def bundleOf (parsed : Parsed) : Except Halt Command :=
  match parsed.positionals, parsed.value? "import-as" with
  | [root], some importAs =>
      .ok (.bundle root importAs (parsed.value? "out") ((parsed.value? "base").getD ".")
        (parsed.has "pretty"))
  | _, _ => .error .usage

/-- The command `index`. -/
def indexOf (parsed : Parsed) : Command :=
  .index ((parsed.value? "config").getD "bundle.toml") (parsed.has "pretty")

/-- What the arguments after `help` ask for. -/
def helpOf : List String → Halt
  | [] => .help .program
  | ["bundle"] => .help .bundle
  | ["index"] => .help .index
  | ["help"] => .help .help
  | _ => .usage

/-- The command of a name with its arguments. -/
def ofName (name : String) (arguments : List String) : Except Halt Command := do
  if name = "bundle" then bundleOf (← readArguments bundleGrammar none ⟨[], []⟩ arguments)
  else if name = "index" then
    return indexOf (← readArguments indexGrammar none ⟨[], []⟩ arguments)
  else if name = "help" then throw (helpOf arguments)
  else throw .usage

/-- The letters of an argument in front of the command. -/
def readFrontLetters : List Char → Except Halt Unit
  | [] => .ok ()
  | 'v' :: rest => readFrontLetters rest
  | 'V' :: _ => .error .version
  | 'h' :: _ => .error (.help .program)
  | _ => .error .usage

/-- An argument in front of the command that starts with a dash. -/
def readFront (argument : String) : Except Halt Unit :=
  if argument = "--verbose" then .ok ()
  else if argument = "--version" then .error .version
  else if argument = "--help" then .error (.help .program)
  else readFrontLetters argument.toList.tail

/-- The command that arguments give. -/
def ofArguments : List String → Except Halt Command
  | [] => .error .usage
  | argument :: rest => do
      match argument.toList with
      | '-' :: _ :: _ =>
          readFront argument
          ofArguments rest
      | _ => ofName argument rest

end Command

end FlatBundle
