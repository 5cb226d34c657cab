import TxRecovery.CipherSuite
import TxRecovery.CommandLine.Command
import TxRecovery.Files.Database
import TxRecovery.Settings

/-!
# The program

What the node's program does with a command line: `execute` runs a command on some files and comes
to a `Report`, which says what to print and how to exit.

`init` makes the data directory and writes a fresh key into it. `run` reads the settings, opens the
database and reads the key; a node that got as far is `ready` to serve.
-/

namespace TxRecovery

open CommandLine (Command InitOptions Refusal RunOptions)

/-- What failed, and why, from the outermost cause in. -/
structure Failure where
  context : String
  causes : List String
deriving DecidableEq

namespace Failure

/-- A cause, its further lines indented like its first. -/
def causeText (label indent cause : String) : String :=
  label ++ ("\n" ++ indent).intercalate (cause.splitOn "\n")

/-- Several causes are numbered. -/
def causeLines : List String → List String
  | [cause] => [causeText "    " "    " cause]
  | causes => causes.mapIdx fun i cause =>
    let number := toString i
    causeText ("".pushn ' ' (5 - number.length) ++ number ++ ": ") "       " cause

def render (f : Failure) : String :=
  let causes := if f.causes.isEmpty then "" else
    "\n\nCaused by:\n" ++ "\n".intercalate (causeLines f.causes)
  "Error: " ++ f.context ++ causes ++ "\n"

end Failure

inductive Report where
  | refused (refusal : Refusal)
  | versions
  | initialised (dataDirectory keyFile : String) (publicKey : PublicKey)
  | ready (settings : Settings) (key : KeyPair)
  | failed (failure : Failure)

namespace Program

def version : String := "0.1.0"

/-- The version of what nodes say to each other. -/
def protocolVersion : String := "0.1.0"

def usage : String :=
  "Private transaction manager node with batch resync\n\n" ++
  "Usage: ptm-node <COMMAND>\n\n" ++
  "Commands:\n" ++
  "  run      Start the node\n" ++
  "  init     Initialize a new node\n" ++
  "  version  Print version information and exit\n" ++
  "  help     Print this message or the help of the given subcommand(s)\n"

end Program

namespace Report

/-- Success is 0, a command that failed 1, and a command line that makes no sense 2. -/
def exitCode : Report → Nat
  | refused .help | refused (.version _) => 0
  | refused _ => 2
  | failed _ => 1
  | _ => 0

def output : Report → String
  | refused .help => Program.usage
  | refused (.version command) =>
    "-".intercalate ("ptm-node" :: command.toList) ++ " " ++ Program.version ++ "\n"
  | versions =>
    "ptm-node " ++ Program.version ++ "\nprotocol " ++ Program.protocolVersion ++
      "\nrustc    unknown\n"
  | initialised directory keyFile publicKey =>
    "Node initialized successfully.\n  Data directory : " ++ directory ++
      "\n  Node key       : " ++ keyFile ++
      "\n  Public key     : " ++ publicKey.toBase64 ++ "\n"
  | _ => ""

def errorOutput : Report → String
  | refused .help | refused (.version _) => ""
  | refused _ => Program.usage
  | failed f => f.render
  | _ => ""

end Report

namespace Program

variable {m : Type → Type} [Monad m]

abbrev Step (m : Type → Type) (α : Type) := ExceptT Failure m α

/-- An operation on files, and what was being done if it fails. -/
def attempt {α : Type} (context : String) (op : m (Except FileFault α)) : Step m α :=
  ExceptT.mk do
    match ← op with
    | .ok a => pure (.ok a)
    | .error f => pure (.error ⟨context, [f.message]⟩)

def keyFile (directory : String) : String := Files.join directory "node.key"

/-- Makes a data directory with the key that belongs to `secret`. -/
def init (suite : CipherSuite) (files : Files m) (secret : Block 32) (o : InitOptions) :
    Step m Report := do
  let directory := o.dataDirectory
  attempt ("failed to create data directory: " ++ directory) (files.makeDirectories directory)
  let path := keyFile directory
  if (← files.contains path) && !o.force then
    throw ⟨"key file " ++ path ++ " already exists (pass --force to overwrite)", []⟩
  let key := KeyPair.ofSecret suite secret
  attempt ("failed to write node key to " ++ path)
    (files.write path true (Utf8.encode key.secretHex))
  pure (.initialised directory path key.publicKey)

def loadSettings (files : Files m) : Option String → Step m Settings
  | none => pure .standard
  | some path => do
    match Settings.ofFile (← files.read path) with
    | .ok s => pure s
    | .error e =>
      throw ⟨"failed to load config from " ++ path, e.message :: e.cause?.toList⟩

def loadKey (suite : CipherSuite) (files : Files m) (directory : String) : Step m KeyPair := do
  let path := keyFile directory
  let unreadable := "failed to read node key at " ++ path ++ " (run `ptm-node init` first)"
  let raw ← attempt unreadable (files.read path)
  match Utf8.decode raw with
  | .error _ => throw ⟨unreadable, [FileFault.notText.message]⟩
  | .ok text =>
    match KeyPair.ofSecretHex suite text with
    | .ok key => pure key
    | .error e => throw ⟨"malformed node key at " ++ path, [e.message]⟩

def openDatabase (files : Files m) (directory : String) : Step m Unit :=
  (Database.openIn files directory).adapt fun f =>
    ⟨"failed to open database at " ++ directory, ["sled error: " ++ f.message, f.message]⟩

/-- Prepares a node to serve. -/
def run (suite : CipherSuite) (files : Files m) (o : RunOptions) : Step m Report := do
  let settings ← loadSettings files o.settingsFile
  let settings := { settings with resendMode := o.resendMode.getD settings.resendMode }
  let database := Files.join o.dataDirectory "db"
  attempt ("failed to create database directory: " ++ database) (files.makeDirectories database)
  openDatabase files database
  let key ← loadKey suite files o.dataDirectory
  pure (.ready settings key)

/-- Runs a command line. `secret` is a fresh key, should one be needed. -/
def execute (suite : CipherSuite) (files : Files m) (environment : String → Option String)
    (secret : Block 32) (words : List String) : m Report := do
  let step : Step m Report :=
    match Command.parse environment words with
    | .error r => pure (.refused r)
    | .ok (.run o) => run suite files o
    | .ok (.init o) => init suite files secret o
    | .ok .version => pure .versions
  match ← step.run with
  | .ok report => pure report
  | .error f => pure (.failed f)

end Program

end TxRecovery
