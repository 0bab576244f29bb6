/-!
# `PartitionStore.Inspector.Arguments`: the inspector's command line

Options come first, then the command, then nothing, or the mark `--` and
nothing. An option that takes a value has it in the next argument, or behind an
equals sign, or, in its short form, right behind the letter. No option may be
given twice, and a value in an argument of its own may not look like an option.

The command line is read up to where it first asks for help or for the version;
what would be missing or wrong behind that place is not looked at. Help is asked
for by an option, before or right behind the command, or by a command of its own
that takes the name of another.
-/

set_option autoImplicit false

namespace PartitionStore.Inspector

/-- What the inspector can do. -/
inductive Command where
  /-- List the partition ids found on disk. -/
  | ids
  /-- Print the bytes of all files of the store. -/
  | size
  /-- Open the store as its owner and print a summary. -/
  | summary
  deriving DecidableEq, Repr, Inhabited

/-- The command of a name. -/
def Command.ofName? : String → Option Command
  | "ids" => some .ids
  | "size" => some .size
  | "open" => some .summary
  | _ => none

/-- What the inspector was asked to do. -/
structure Arguments where
  root : String
  store : String
  plainTable : Bool
  command : Command
  deriving DecidableEq, Repr, Inhabited

/-- What a command line asks for. -/
inductive Invocation where
  | run (arguments : Arguments)
  | version
  | help
  /-- The command line follows no rule. -/
  | misuse
  deriving DecidableEq, Repr, Inhabited

/-- The options read so far. -/
structure Options where
  root : Option String
  store : Option String
  plainTable : Bool
  deriving DecidableEq, Repr, Inhabited

/-- The directory that holds the stores unless the command line names another. -/
def defaultRoot : String := "./partkv_data"

/-- One argument before the command. -/
inductive Argument where
  | version
  | help
  /-- The command that prints help, on the command named behind it if there is one. -/
  | helpOn
  | plainTable
  /-- An option for the root, with the value that came with it. -/
  | root (value : Option String)
  /-- An option for the store, with the value that came with it. -/
  | store (value : Option String)
  | command (c : Command)
  | unknown
  deriving DecidableEq, Repr, Inhabited

/-- The value behind an option's name: none if nothing follows, and `none` in
place of a value if something else than an equals sign follows. -/
def valueAfterName : List Char → Option (Option String)
  | [] => some none
  | '=' :: value => some (some (String.ofList value))
  | _ => none

/-- The value behind an option's letter, with or without an equals sign. -/
def valueAfterLetter : List Char → Option String
  | [] => none
  | '=' :: value => some (String.ofList value)
  | value => some (String.ofList value)

/-- What an argument before the command is. -/
def Argument.read (arg : String) : Argument :=
  match arg.toList with
  | '-' :: '-' :: 'r' :: 'o' :: 'o' :: 't' :: rest =>
    match valueAfterName rest with
    | some value => .root value
    | none => .unknown
  | '-' :: '-' :: 's' :: 't' :: 'o' :: 'r' :: 'e' :: rest =>
    match valueAfterName rest with
    | some value => .store value
    | none => .unknown
  | '-' :: '-' :: _ =>
    if arg = "--version" then .version
    else if arg = "--help" then .help
    else if arg = "--plain-table" then .plainTable
    else .unknown
  | '-' :: 'r' :: rest => .root (valueAfterLetter rest)
  | '-' :: 's' :: rest => .store (valueAfterLetter rest)
  | '-' :: 'V' :: _ => .version
  | '-' :: 'h' :: _ => .help
  | _ =>
    match Command.ofName? arg with
    | some c => .command c
    | none => if arg = "help" then .helpOn else .unknown

/-- Whether an argument can be the value of the option before it. -/
def isValue (arg : String) : Bool := arg.toList.head? != some '-' || arg == "-"

/-- Whether arguments say no more: there is none, or only the mark behind which
options end. -/
def isEnd (args : List String) : Bool := args == [] || args == ["--"]

/-- Whether there is help on what arguments name: on all, or on one command. -/
def isTopic : List String → Bool
  | [] => true
  | [name] => name == "help" || (Command.ofName? name).isSome
  | _ => false

/-- Whether the arguments behind a command ask for help on it. -/
def asksForHelp : List String → Bool
  | [] => false
  | arg :: _ => Argument.read arg == .help

/-- Reads the arguments that are left, given the options read so far. -/
def readFrom (o : Options) : List String → Invocation
  | [] => .misuse
  | arg :: rest =>
    match Argument.read arg with
    | .version => .version
    | .help => .help
    | .helpOn => if isTopic rest then .help else .misuse
    | .unknown => .misuse
    | .plainTable =>
      if o.plainTable then .misuse else readFrom { o with plainTable := true } rest
    | .root (some value) =>
      if o.root.isSome then .misuse else readFrom { o with root := some value } rest
    | .store (some value) =>
      if o.store.isSome then .misuse else readFrom { o with store := some value } rest
    | .root none =>
      match rest with
      | [] => .misuse
      | value :: rest' =>
        if !isValue value || o.root.isSome then .misuse
        else readFrom { o with root := some value } rest'
    | .store none =>
      match rest with
      | [] => .misuse
      | value :: rest' =>
        if !isValue value || o.store.isSome then .misuse
        else readFrom { o with store := some value } rest'
    | .command command =>
      if asksForHelp rest then .help
      else match isEnd rest, o.store with
      | true, some store => .run ⟨o.root.getD defaultRoot, store, o.plainTable, command⟩
      | _, _ => .misuse

/-- What a command line asks for. -/
def Invocation.read (args : List String) : Invocation := readFrom ⟨none, none, false⟩ args

end PartitionStore.Inspector
