import OrderedStore.Decimal

/-!
# The command line: reading the arguments

Options for the store come before the command, options of the command behind it. An option with a
value takes it from the same argument (`-ds`, `-d=s`, `--data-dir=s`) or from the next one, which
then must not look like an option; everything behind `--` is a plain argument. Arguments are read
from left to right, and the first request for help, request for the version, or mistake decides.
A value in an argument of its own is taken in late: that it comes once too often is noticed with the
next option, or when the command has been read.

Main definitions:

- `items`: the arguments taken apart.
- `Request.read`: what the arguments ask for, or the first mistake in them.
-/

namespace OrderedStore.CommandLine

/-- An option of the command line or of one of its commands. -/
inductive OptionName where
  | dataDir
  | noCreate
  | log
  | start
  | limit
  | help
  | version
deriving DecidableEq

namespace OptionName

def long : OptionName → String
  | .dataDir => "data-dir"
  | .noCreate => "no-create"
  | .log => "log"
  | .start => "from"
  | .limit => "limit"
  | .help => "help"
  | .version => "version"

/-- The letter behind one dash, if there is one. -/
def short? : OptionName → Option Char
  | .dataDir => some 'd'
  | .noCreate => none
  | .log => none
  | .start => some 'f'
  | .limit => some 'l'
  | .help => some 'h'
  | .version => some 'V'

def takesValue : OptionName → Bool
  | .dataDir | .start | .limit => true
  | .noCreate | .log | .help | .version => false

end OptionName

inductive CommandName where
  | get
  | put
  | del
  | scan
  | flush
  | info
deriving DecidableEq

namespace CommandName

/-- All commands in the order in which help lists them. -/
def all : List CommandName :=
  [.get, .put, .del, .scan, .flush, .info]

def word : CommandName → String
  | .get => "get"
  | .put => "put"
  | .del => "del"
  | .scan => "scan"
  | .flush => "flush"
  | .info => "info"

def ofWord? (word : String) : Option CommandName :=
  all.find? (·.word = word)

def arguments : CommandName → List String
  | .get => ["KEY"]
  | .put => ["KEY", "VALUE"]
  | .del => ["KEY"]
  | .scan | .flush | .info => []

def options : CommandName → List OptionName
  | .scan => [.start, .limit, .help]
  | _ => [.help]

end CommandName

/-- The options that stand before the command. -/
def storeOptions : List OptionName :=
  [.dataDir, .noCreate, .log, .help, .version]

/-- A mistake in the arguments. -/
inductive Mistake where
  | unexpectedArgument (text : String)
  | unexpectedValue (option : String)
  | missingValue (option : String)
  | repeatedOption (option : String)
  | invalidLimit (text : String)
  | unknownCommand (word : String)
  | missingCommand
  | missingArgument (name : String)
deriving DecidableEq

inductive Item where
  | flag (option : OptionName)
  /-- An option with a value, which may have an argument of its own. -/
  | valued (option : OptionName) (value : String) (separate : Bool)
  /-- A plain argument, and the arguments behind it. -/
  | plain (text : String) (rest : List String)
  /-- An argument behind `--`. -/
  | trailing (text : String)
  | wrong (mistake : Mistake)

def looksLikeOption (argument : String) : Bool :=
  match argument.toList with
  | '-' :: _ :: _ => true
  | _ => false

/-- The pieces of an argument of the form `--name` or `--name=value`, and the option that takes its
value from the next argument, if any. -/
def longItems (accepted : List OptionName) (text : List Char) : List Item × Option OptionName :=
  let name := String.ofList (text.takeWhile (· ≠ '='))
  let value? := match text.dropWhile (· ≠ '=') with
    | [] => none
    | _ :: value => some (String.ofList value)
  match accepted.find? (·.long = name) with
  | none => ([.wrong (.unexpectedArgument ("--" ++ name))], none)
  | some option =>
    match option.takesValue, value? with
    | true, some value => ([.valued option value false], none)
    | true, none => ([], some option)
    | false, some _ => ([.wrong (.unexpectedValue ("--" ++ name))], none)
    | false, none => ([.flag option], none)

/-- The pieces of letters behind one dash. -/
def shortItems (accepted : List OptionName) : List Char → List Item × Option OptionName
  | [] => ([], none)
  | letter :: rest =>
    match accepted.find? (·.short? = some letter) with
    | none => ([.wrong (.unexpectedArgument (String.ofList ['-', letter]))], none)
    | some option =>
      if option.takesValue then
        match rest with
        | [] => ([], some option)
        | '=' :: value => ([.valued option (String.ofList value) false], none)
        | value => ([.valued option (String.ofList value) false], none)
      else
        let (items, pending) := shortItems accepted rest
        (.flag option :: items, pending)

def argumentItems (accepted : List OptionName) (argument : String) (rest : List String) :
    List Item × Option OptionName :=
  match argument.toList with
  | '-' :: '-' :: text => longItems accepted text
  | '-' :: letter :: letters => shortItems accepted (letter :: letters)
  | _ => ([.plain argument rest], none)

/-- The arguments taken apart. -/
def items (accepted : List OptionName) : List String → List Item
  | [] => []
  | argument :: rest =>
    if argument = "--" then rest.map .trailing
    else
      let (pieces, pending) := argumentItems accepted argument rest
      pieces ++
        match pending, rest with
        | none, rest => items accepted rest
        | some option, [] => [.wrong (.missingValue ("--" ++ option.long))]
        | some option, value :: rest =>
          if looksLikeOption value then [.wrong (.missingValue ("--" ++ option.long))]
          else .valued option value true :: items accepted rest

inductive Command where
  | get (key : String)
  | put (key value : String)
  | del (key : String)
  | scan (start : Option String) (limit : Nat)
  | flush
  | info
deriving DecidableEq

structure StoreOptions where
  dataDir : Option String := none
  noCreate : Bool := false
  log : Bool := false
deriving DecidableEq

/-- What help is asked about. -/
inductive Topic where
  | program
  | command (name : CommandName)
  | help
deriving DecidableEq

/-- What the arguments ask for. -/
inductive Request where
  | help (topic : Topic)
  | version
  | execute (options : StoreOptions) (command : Command)
deriving DecidableEq

structure Collected where
  /-- The plain arguments, last one first. -/
  arguments : List String := []
  start : Option String := none
  limit : Option Nat := none

/-- The number of entries that a scan shows unless told otherwise. -/
def defaultLimit : Nat :=
  100

namespace Collected

/-- Takes in a plain argument, if the command has a place for it. -/
def addArgument (collected : Collected) (name : CommandName) (text : String) :
    Except Mistake Collected :=
  if collected.arguments.length < name.arguments.length then
    .ok { collected with arguments := text :: collected.arguments }
  else .error (.unexpectedArgument text)

def command (collected : Collected) (name : CommandName) : Except Mistake Command :=
  match name, collected.arguments with
  | .get, [key] => .ok (.get key)
  | .put, [value, key] => .ok (.put key value)
  | .del, [key] => .ok (.del key)
  | .scan, [] => .ok (.scan collected.start (collected.limit.getD defaultLimit))
  | .flush, [] => .ok .flush
  | .info, [] => .ok .info
  | name, given =>
    .error (.missingArgument ((name.arguments.drop given.length).head?.getD ""))

end Collected

/-- What the pieces behind a command ask for. -/
def readCommand (options : StoreOptions) (name : CommandName) :
    Collected → List Item → Except Mistake Request
  | collected, [] => (collected.command name).map (.execute options)
  | collected, item :: rest =>
    match item with
    | .wrong mistake => .error mistake
    | .plain text _ | .trailing text =>
      match collected.addArgument name text with
      | .error mistake => .error mistake
      | .ok collected => readCommand options name collected rest
    | .flag .help => .ok (.help (.command name))
    | .flag option => .error (.unexpectedArgument ("--" ++ option.long))
    | .valued .start value _ =>
      if collected.start.isSome then .error (.repeatedOption "--from")
      else readCommand options name { collected with start := some value } rest
    | .valued .limit value _ =>
      if collected.limit.isSome then .error (.repeatedOption "--limit")
      else
        match Decimal.read? value.toList with
        | none => .error (.invalidLimit value)
        | some limit => readCommand options name { collected with limit := some limit } rest
    | .valued option _ _ => .error (.unexpectedArgument ("--" ++ option.long))

/-- What the words behind `help` ask about. -/
def readHelp : List String → Except Mistake Request
  | [] => .ok (.help .program)
  | word :: rest =>
    match CommandName.ofWord? word, rest with
    | some name, [] => .ok (.help (.command name))
    | some _, other :: _ => .error (.unknownCommand other)
    | none, [] => if word = "help" then .ok (.help .help) else .error (.unknownCommand word)
    | none, other :: _ => .error (.unknownCommand (if word = "help" then other else word))

/-- What a word asks for that stands where the command is expected. -/
def readWord (options : StoreOptions) (word : String) (behind : List String) :
    Except Mistake Request :=
  match CommandName.ofWord? word with
  | some name => readCommand options name {} (items name.options behind)
  | none => if word = "help" then readHelp behind else .error (.unknownCommand word)

/-- What is asked for after a mistake that is noticed when the command has been read. -/
def readBeforeMistake (mistake : Mistake) : List Item → Except Mistake Request
  | .plain word behind :: _ =>
    match readWord {} word behind with
    | .ok (.execute _ _) => .error mistake
    | other => other
  | _ => .error mistake

/-- What the pieces before and from the command on ask for. -/
def readStore : StoreOptions → List Item → Except Mistake Request
  | _, [] => .error .missingCommand
  | options, item :: rest =>
    match item with
    | .wrong mistake => .error mistake
    | .flag .help => .ok (.help .program)
    | .flag .version => .ok .version
    | .flag .noCreate =>
      if options.noCreate then .error (.repeatedOption "--no-create")
      else readStore { options with noCreate := true } rest
    | .flag .log =>
      if options.log then .error (.repeatedOption "--log")
      else readStore { options with log := true } rest
    | .flag option => .error (.unexpectedArgument ("--" ++ option.long))
    | .valued .dataDir value separate =>
      if options.dataDir.isNone then readStore { options with dataDir := some value } rest
      else if separate then readBeforeMistake (.repeatedOption "--data-dir") rest
      else .error (.repeatedOption "--data-dir")
    | .valued option _ _ => .error (.unexpectedArgument ("--" ++ option.long))
    | .trailing text => .error (.unexpectedArgument text)
    | .plain word behind => readWord options word behind

/-- What arguments ask for, or the first mistake in them. -/
def Request.read (arguments : List String) : Except Mistake Request :=
  readStore {} (items storeOptions arguments)

end OrderedStore.CommandLine
