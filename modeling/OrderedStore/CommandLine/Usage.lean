import OrderedStore.CommandLine.Options

/-!
# The command line: help and messages

The texts of the program that do not depend on a store.
-/

namespace OrderedStore.CommandLine

def programName : String :=
  "twinkv"

def programVersion : String :=
  "0.1.0"

def versionText : String :=
  programName ++ " " ++ programVersion ++ "\n"

/-- What a command does, in a few words. -/
def CommandName.summary : CommandName → String
  | .get => "Get a value by key"
  | .put => "Set a key-value pair"
  | .del => "Delete a key"
  | .scan => "List entries in key order"
  | .flush => "Close and reopen the store"
  | .info => "Show which engine serves the store"

def CommandName.argumentSummaries : CommandName → List String
  | .get => ["The key to get"]
  | .put => ["The key to set", "The value to set"]
  | .del => ["The key to delete"]
  | .scan | .flush | .info => []

def OptionName.summary : OptionName → String
  | .dataDir => "Store directory [default: ./twinkv_data]"
  | .noCreate => "Fail instead of creating a missing store"
  | .log => "Forward engine diagnostics to the log at info level"
  | .start => "Start at the first key >= this one"
  | .limit => "Stop after this many entries [default: 100]"
  | .help => "Print help"
  | .version => "Print version"

/-- An option as help writes it. -/
def OptionName.usage (option : OptionName) : String :=
  let letter := match option.short? with
    | some letter => String.ofList ['-', letter, ',', ' ']
    | none => "    "
  let value := match option with
    | .dataDir => " <DATA_DIR>"
    | .start => " <FROM>"
    | .limit => " <LIMIT>"
    | _ => ""
  letter ++ "--" ++ option.long ++ value

/-- Terms with their explanations in two columns. -/
def columns (rows : List (String × String)) : String :=
  let width := (rows.map (·.1.length)).foldl max 0
  String.join <| rows.map fun (term, explanation) =>
    "  " ++ term ++ String.ofList (List.replicate (width - term.length) ' ') ++ "  " ++
      explanation ++ "\n"

/-- A titled section of help. -/
def helpSection (title : String) (rows : List (String × String)) : String :=
  if rows.isEmpty then "" else "\n" ++ title ++ ":\n" ++ columns rows

def optionRows (options : List OptionName) : List (String × String) :=
  options.map fun option => (option.usage, option.summary)

def helpSummary : String :=
  "Print this message or the help of the given subcommand(s)"

/-- The help on a topic. -/
def Topic.text : Topic → String
  | .program =>
    "Inspect and edit a twinkv store\n\nUsage: twinkv [OPTIONS] <COMMAND>\n" ++
      helpSection "Commands"
        ((CommandName.all.map fun name => (name.word, name.summary)) ++
          [("help", helpSummary)]) ++
      helpSection "Options" (optionRows storeOptions)
  | .command name =>
    let options := if name = .scan then " [OPTIONS]" else ""
    let arguments := name.arguments.map fun argument => "<" ++ argument ++ ">"
    name.summary ++ "\n\nUsage: twinkv " ++ name.word ++ options ++
      String.join (arguments.map (" " ++ ·)) ++ "\n" ++
      helpSection "Arguments" (arguments.zip name.argumentSummaries) ++
      helpSection "Options" (optionRows name.options)
  | .help =>
    helpSummary ++ "\n\nUsage: twinkv help [COMMAND]...\n" ++
      helpSection "Arguments" [("[COMMAND]...", "Print help for the subcommand(s)")]

/-- What is said about a mistake in the arguments. -/
def Mistake.message (mistake : Mistake) : String :=
  let complaint := match mistake with
    | .unexpectedArgument text => "unexpected argument '" ++ text ++ "' found"
    | .unexpectedValue option => "unexpected value for '" ++ option ++ "' found"
    | .missingValue option => "a value is required for '" ++ option ++ "' but none was supplied"
    | .repeatedOption option => "the argument '" ++ option ++ "' cannot be used multiple times"
    | .invalidLimit text => "invalid value '" ++ text ++ "' for '--limit'"
    | .unknownCommand word => "unrecognized subcommand '" ++ word ++ "'"
    | .missingCommand => "'twinkv' requires a subcommand but one was not provided"
    | .missingArgument name =>
      "the required argument <" ++ name ++ "> was not provided"
  "error: " ++ complaint ++ "\n\nFor more information, try '--help'.\n"

end OrderedStore.CommandLine
