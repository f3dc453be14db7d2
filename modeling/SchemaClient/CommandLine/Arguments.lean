/-
SchemaClient.CommandLine.Arguments — what the arguments ask for.

`generate` is the command that is meant when none is named; it can be named as the first argument
only. Options may stand anywhere before `--`; behind it every argument is an output. Short options
may share a dash, and the value of an option may be attached to it or follow as the next argument. An
option that takes a value may be given once. Asking for help or for the version ends the reading.

* `CommandLine.parse` — the command that arguments give, or what is wrong with them.
-/

namespace SchemaClient

namespace CommandLine

/-- The options that take a value. -/
inductive ValueOption where
  | workspace
  | remote
  | workspaceId
  | token
  deriving DecidableEq, Repr

def ValueOption.name : ValueOption → String
  | workspace => "workspace"
  | remote => "remote"
  | workspaceId => "workspace-id"
  | token => "token"

/-- The options that take no value. -/
inductive Switch where
  | verbose
  | help
  | version
  deriving DecidableEq, Repr

/-- What help can be about. -/
inductive Topic where
  | program
  | generate
  | help
  deriving DecidableEq, Repr

/-- The arguments of a generation. -/
structure Options where
  output : Option String := none
  workspace : Option String := none
  remote : Option String := none
  workspaceId : Option String := none
  token : Option String := none
  verbosity : Nat := 0
  deriving DecidableEq, Repr

namespace Options

def get? (options : Options) : ValueOption → Option String
  | .workspace => options.workspace
  | .remote => options.remote
  | .workspaceId => options.workspaceId
  | .token => options.token

def set (options : Options) (option : ValueOption) (value : String) : Options :=
  match option with
  | .workspace => { options with workspace := some value }
  | .remote => { options with remote := some value }
  | .workspaceId => { options with workspaceId := some value }
  | .token => { options with token := some value }

end Options

inductive Command where
  | generate (options : Options)
  | help (topic : Topic)
  | version
  deriving DecidableEq, Repr

/-- What is wrong with arguments. -/
inductive UsageFault where
  | unexpected (argument : String)
  | unknownTopic (argument : String)
  | missingValue (option : ValueOption)
  | unwantedValue (option : String)
  | repeated (option : ValueOption)
  deriving DecidableEq, Repr

def UsageFault.message : UsageFault → String
  | unexpected argument => "unexpected argument '" ++ argument ++ "' found"
  | unknownTopic argument => "unrecognized subcommand '" ++ argument ++ "'"
  | missingValue option => "a value is required for '--" ++ option.name ++ "' but none was supplied"
  | unwantedValue option => "unexpected value for '--" ++ option ++ "' found; no more were expected"
  | repeated option => "the argument '--" ++ option.name ++ "' cannot be used multiple times"

/-! ## Single arguments -/

/-- What an argument looks like. -/
inductive Argument where
  /-- A long option, with the value behind its equals sign. -/
  | long (name : String) (value : Option String)
  /-- The letters behind one dash. -/
  | short (letters : List Char)
  | plain (text : String)
  deriving DecidableEq, Repr

def Argument.ofText (text : String) : Argument :=
  match text.toList with
  | '-' :: '-' :: rest =>
    match rest.dropWhile (· != '=') with
    | '=' :: value => long (String.ofList (rest.takeWhile (· != '='))) (some (String.ofList value))
    | _ => long (String.ofList rest) none
  | '-' :: letter :: letters => short (letter :: letters)
  | _ => plain text

/-- How far the reading has got. -/
structure Reading where
  options : Options := {}
  /-- The option that the next argument is the value of. -/
  pending : Option ValueOption := none
  /-- Whether the command has been named. -/
  named : Bool := false
  /-- Whether anything has been read since the command. -/
  begun : Bool := false

/-- What reading an argument leads to. -/
inductive Progress where
  | goOn (reading : Reading)
  | finish (command : Command)

namespace Reading

def longOption? (name : String) : Option ValueOption :=
  [.workspace, .remote, .workspaceId, .token].find? (·.name == name)

def shortOption? (letter : Char) : Option ValueOption :=
  if letter = 'w' then some .workspace else none

/-- The switches; the version can be asked for only where no command has been named. -/
def longSwitch? (reading : Reading) (name : String) : Option Switch :=
  match name with
  | "verbose" => some .verbose
  | "help" => some .help
  | "version" => if reading.named then none else some .version
  | _ => none

def shortSwitch? (reading : Reading) (letter : Char) : Option Switch :=
  match letter with
  | 'v' => some .verbose
  | 'h' => some .help
  | 'V' => if reading.named then none else some .version
  | _ => none

/-- Give an option its value. -/
def assign (reading : Reading) (option : ValueOption) (value : String) :
    Except UsageFault Reading :=
  match reading.options.get? option with
  | some _ => .error (.repeated option)
  | none => .ok { reading with
      options := reading.options.set option value, pending := none, begun := true }

/-- Wait for the value of an option. -/
def await (reading : Reading) (option : ValueOption) : Reading :=
  { reading with pending := some option, begun := true }

/-- Turn a switch on. -/
def turnOn (reading : Reading) : Switch → Progress
  | .verbose => .goOn { reading with
      options.verbosity := reading.options.verbosity + 1, begun := true }
  | .help => .finish (.help (if reading.named then .generate else .program))
  | .version => .finish .version

/-- Read an output. -/
def readOutput (reading : Reading) (text : String) : Except UsageFault Reading :=
  match reading.pending, reading.options.output with
  | some option, _ => .error (.missingValue option)
  | none, some _ => .error (.unexpected text)
  | none, none => .ok { reading with options.output := some text, begun := true }

/-- Read a long option. -/
def readLong (reading : Reading) (name : String) (value : Option String) :
    Except UsageFault Progress :=
  match longOption? name, reading.longSwitch? name, value with
  | some option, _, some value => (reading.assign option value).map .goOn
  | some option, _, none => .ok (.goOn (reading.await option))
  | none, some switch, none => .ok (reading.turnOn switch)
  | none, some _, some _ => .error (.unwantedValue name)
  | none, none, _ => .error (.unexpected ("--" ++ name))

/-- Read the letters behind a dash. What follows the letter of an option is its value. -/
def readShort (reading : Reading) : List Char → Except UsageFault Progress
  | [] => .ok (.goOn reading)
  | letter :: rest =>
    match shortOption? letter, reading.shortSwitch? letter with
    | some option, _ =>
      match rest with
      | [] => .ok (.goOn (reading.await option))
      | '=' :: value => (reading.assign option (String.ofList value)).map .goOn
      | value => (reading.assign option (String.ofList value)).map .goOn
    | none, some switch =>
      match reading.turnOn switch with
      | .goOn reading => reading.readShort rest
      | finished => .ok finished
    | none, none => .error (.unexpected ("-" ++ String.ofList [letter]))

/-- Read an argument. Where a value is awaited nothing that looks like an option will do. -/
def readArgument (reading : Reading) (text : String) : Except UsageFault Progress :=
  match reading.pending, Argument.ofText text with
  | some option, .plain value => (reading.assign option value).map .goOn
  | some option, _ => .error (.missingValue option)
  | none, .plain text => (reading.readOutput text).map .goOn
  | none, .long name value => reading.readLong name value
  | none, .short letters => reading.readShort letters

/-- Whether a command may still be named. -/
def mayName (reading : Reading) : Bool := !reading.named && !reading.begun

/-- The command once all arguments are read. -/
def close (reading : Reading) : Except UsageFault Command :=
  match reading.pending with
  | some option => .error (.missingValue option)
  | none => .ok (.generate reading.options)

/-- Read the arguments behind two dashes. -/
def readOutputs (reading : Reading) : List String → Except UsageFault Command
  | [] => reading.close
  | text :: rest => do (← reading.readOutput text).readOutputs rest

/-- The topic that the arguments behind `help` name. -/
def topic : List String → Except UsageFault Topic
  | [] => .ok .program
  | ["generate"] => .ok .generate
  | ["help"] => .ok .help
  | first :: rest =>
    .error (.unknownTopic (if first ∈ ["generate", "help"] then rest.headD first else first))

/-- Read arguments. -/
def read (reading : Reading) : List String → Except UsageFault Command
  | [] => reading.close
  | text :: rest =>
    if text = "--" then reading.readOutputs rest
    else if reading.mayName ∧ text = "generate" then read { reading with named := true } rest
    else if reading.mayName ∧ text = "help" then (topic rest).map .help
    else do
      match ← reading.readArgument text with
      | .finish command => return command
      | .goOn reading => read reading rest

end Reading

/-- The command that arguments give. -/
def parse (arguments : List String) : Except UsageFault Command := ({} : Reading).read arguments

example : parse ["-", "-w", "x"] = .ok (.generate { output := some "-", workspace := some "x" }) := by
  cbv
example : parse ["-v", "generate", "-"] = .error (.unexpected "-") := by cbv
example : parse ["--", "-V"] = .ok (.generate { output := some "-V" }) := by cbv

end CommandLine

end SchemaClient
