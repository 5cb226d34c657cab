import TxRecovery.CommandLine.Arguments
import TxRecovery.Text.Case

/-!
# Commands

The commands of a node's program and the arguments they take. What is not given on the command line
is taken from the environment, and what neither gives has a default.
-/

namespace TxRecovery

namespace CommandLine

/-- How log lines are written. -/
inductive LogFormat where
  | pretty
  | json
deriving DecidableEq

namespace LogFormat

/-- Whatever is not JSON is pretty. -/
def ofText (s : String) : LogFormat := if Text.lower s = "json" then json else pretty

/-- What is logged unless told otherwise. -/
def standardFilter : String := "ptm_node=info,ptm_resync=info,tower_http=debug"

end LogFormat

structure RunOptions where
  settingsFile : Option String
  dataDirectory : String
  apiPort : Nat
  metricsPort : Nat
  /-- Takes the place of what the settings file says. -/
  resendMode : Option Bool
  passIntervalSeconds : Nat
  logFormat : String
deriving DecidableEq

def RunOptions.standard : RunOptions := ⟨none, ".ptm", 9081, 9082, none, 30, "pretty"⟩

structure InitOptions where
  dataDirectory : String
  /-- Whether a key file that exists is overwritten. -/
  force : Bool
deriving DecidableEq

def InitOptions.standard : InitOptions := ⟨".ptm", false⟩

inductive Command where
  | run (options : RunOptions)
  | init (options : InitOptions)
  | version
deriving DecidableEq

/-- A path is not empty. -/
def readPath (s : String) : Except Refusal String :=
  if s = "" then .error .invalidValue else .ok s

def readPort (s : String) : Except Refusal Nat :=
  match readInteger? s with
  | some i => if 0 ≤ i ∧ i < UInt16.size then .ok i.toNat else .error .invalidNumber
  | none => .error .invalidNumber

/-- Seconds carry no minus, not even in front of zero. -/
def readSeconds (s : String) : Except Refusal Nat :=
  match readInteger? s with
  | some i =>
    if s.toList.head? ≠ some '-' ∧ i < UInt64.size then .ok i.toNat else .error .invalidNumber
  | none => .error .invalidNumber

def readBool (s : String) : Except Refusal Bool :=
  if s = "true" then .ok true else if s = "false" then .ok false else .error .invalidValue

/-- What every command takes, and the program in front of its command. -/
def commonArguments (α : Type) (command : Option String) : List (Argument α) := [
  ⟨"help", some 'h', none, .help⟩,
  ⟨"version", some 'V', none, .version command⟩]

def runArguments : List (Argument RunOptions) := [
  ⟨"config", some 'c', some "PTM_CONFIG",
    .value fun s => (readPath s).map fun p o => { o with settingsFile := some p }⟩,
  ⟨"data-dir", some 'd', some "PTM_DATA_DIR",
    .value fun s => (readPath s).map fun p o => { o with dataDirectory := p }⟩,
  ⟨"api-port", none, some "PTM_API_PORT",
    .value fun s => (readPort s).map fun n o => { o with apiPort := n }⟩,
  ⟨"metrics-port", none, some "PTM_METRICS_PORT",
    .value fun s => (readPort s).map fun n o => { o with metricsPort := n }⟩,
  ⟨"resend-mode", none, some "PTM_RESEND_MODE",
    .value fun s => (readBool s).map fun b o => { o with resendMode := some b }⟩,
  ⟨"pass-interval-secs", none, some "PTM_PASS_INTERVAL_SECS",
    .value fun s => (readSeconds s).map fun n o => { o with passIntervalSeconds := n }⟩,
  ⟨"log-format", none, some "PTM_LOG_FORMAT",
    .value fun s => .ok fun o => { o with logFormat := s }⟩]

def initArguments : List (Argument InitOptions) := [
  ⟨"data-dir", some 'd', some "PTM_DATA_DIR",
    .value fun s => (readPath s).map fun p o => { o with dataDirectory := p }⟩,
  ⟨"force", none, none, .switch fun o => { o with force := true }⟩]

namespace Command

/-- The command of this name, from the words behind it. -/
def named? (environment : String → Option String) (words : List String) (name : String) :
    Option (Except Refusal Command) :=
  match name with
  | "run" => some do
    let o ← readArguments (runArguments ++ commonArguments _ (some name)) .standard environment words
    .ok (.run o)
  | "init" => some do
    let o ← readArguments (initArguments ++ commonArguments _ (some name)) .standard environment words
    .ok (.init o)
  | "version" => some do
    readArguments (commonArguments Unit (some name)) () environment words
    .ok .version
  | "help" => some <| .error <|
    match words with
    | [] => .help
    | [w] => if ["run", "init", "version", "help"].contains w then .help else .unknownCommand
    | _ => .unknownCommand
  | _ => none

/-- Reads the words of a command line, the program's name aside. -/
def parse (environment : String → Option String) : List String → Except Refusal Command
  | [] => .error .noCommand
  | w :: ws =>
    match Word.ofString w with
    | .plain name => (named? environment ws name).getD (.error .unknownCommand)
    | .terminator =>
      match ws with
      | [] => .error .noCommand
      | name :: _ =>
        if (named? environment [] name).isSome then .error .unknownArgument
        else .error .unknownCommand
    | .long name value => do
      let _ ← (Progress.start ()).takeLong (commonArguments Unit none) name value
      parse environment ws
    | .letters cs => do
      let _ ← (Progress.start ()).takeLetters (commonArguments Unit none) cs
      parse environment ws

end Command

end CommandLine

end TxRecovery
