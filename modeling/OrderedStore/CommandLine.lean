import OrderedStore.Bytes.Text
import OrderedStore.CommandLine.Usage
import OrderedStore.Engine.Native
import OrderedStore.Engine.Portable
import OrderedStore.Store.Cursor

/-!
# The command line: running a command

Every command opens the store, does its work and closes the store. What was printed before an error
stays printed.
-/

namespace OrderedStore.CommandLine

/-- What a run of the program leaves behind. -/
structure Outcome where
  code : Nat
  stdout : String := ""
  stderr : String := ""
deriving DecidableEq

/-- The native engine first, then the portable one. -/
def engines : Selector Script Portable :=
  ⟨Engine.native, Engine.portable⟩

def StoreOptions.config (options : StoreOptions) : Config :=
  let given := options.dataDir.map Path.ofText
  { path := given.getD { : Config }.path
    createIfMissing := !options.noCreate
    logSink := options.log }

/-- What the information command shows of an open store. -/
def infoText (store : Store Script Portable) : String :=
  let engine := (store.engineKind?.map (·.name)).getD "closed"
  versionText ++ "path:   " ++ store.config.path.text ++ "\nengine: " ++ engine ++
    "\nnative: false\n"

def entryLine (entry : Bytes × Bytes) : String :=
  entry.1.shown ++ "\t" ++ entry.2.shown ++ "\n"

/-- The lines for the entries before the first error, and the error. -/
def entryLines : List (Except Error (Bytes × Bytes)) → String × Except Error Unit
  | [] => ("", .ok ())
  | .error e :: _ => ("", .error e)
  | .ok entry :: rest =>
    let (lines, result) := entryLines rest
    (entryLine entry ++ lines, result)

def okText : String :=
  "OK\n"

/-- What a command prints, how it ends, and the store afterwards. -/
def Command.execute (command : Command) (store : Store Script Portable) :
    Script ((String × Except Error Unit) × Store Script Portable) := do
  match command with
  | .get key => do
    match ← store.get (.ofText key) with
    | .error e => return (("", .error e), store)
    | .ok none => return (("(not found)\n", .ok ()), store)
    | .ok (some value) => return ((value.shown ++ "\n", .ok ()), store)
  | .put key value => do
    let (result, store) ← store.put (.ofText key) (.ofText value)
    return ((if result.isOk then okText else "", result), store)
  | .del key => do
    let (result, store) ← store.remove (.ofText key)
    return ((if result.isOk then okText else "", result), store)
  | .scan start limit => do
    match store.search ((start.map .ofText).getD []) with
    | .error e => return (("", .error e), store)
    | .ok cursor => do
      let (items, _) ← cursor.take store limit
      return (entryLines items, store)
  | .flush => do
    let (result, store) ← store.flush
    return ((if result.isOk then okText else "", result), store)
  | .info => return ((infoText store, .ok ()), store)

def Outcome.of (printed : String) : Except Error Unit → Outcome
  | .ok () => { code := 0, stdout := printed }
  | .error e => { code := 1, stdout := printed, stderr := "error: " ++ e.message ++ "\n" }

/-- Runs a command on a store that is opened for it. -/
def execute (options : StoreOptions) (command : Command) : Script Outcome := do
  match ← Store.connect options.config engines with
  | .error e => return .of "" (.error e)
  | .ok store => do
    let ((printed, result), store) ← command.execute store
    match result with
    | .error e => do
      -- The first error is the one to report.
      store.dispose
      return .of printed (.error e)
    | .ok () => do
      let (result, _) ← store.close
      return .of printed result

def run (arguments : List String) : Script Outcome :=
  match Request.read arguments with
  | .error mistake => return { code := 2, stderr := mistake.message }
  | .ok (.help topic) => return { code := 0, stdout := topic.text }
  | .ok .version => return { code := 0, stdout := versionText }
  | .ok (.execute options command) => execute options command

end OrderedStore.CommandLine
