/-!
# Arguments

Reads the words of a command line against the arguments that a command takes. A word is a long name
with or without a value attached by `=`, a cluster of letters, the last of which may have a value
attached, the terminator `--`, or plain. A plain word is the value of the argument before it if that
waits for one; otherwise no command takes it.

A value counts when the next argument or the end of the words comes, so of two faults the one that
is met first that way is reported.
-/

namespace TxRecovery

namespace CommandLine

/-- Why the words name no command to run. -/
inductive Refusal where
  | help
  /-- The version is asked for, of a command if one is named. -/
  | version (command : Option String)
  | noCommand
  | unknownCommand
  | unknownArgument
  /-- A value is missing, empty, or none of those there are. -/
  | invalidValue
  | invalidNumber
  | repeated
  /-- A value is attached to what takes none. -/
  | unwantedValue
deriving DecidableEq

inductive Action (α : Type) where
  | help
  | version (command : Option String)
  | switch (set : α → α)
  | value (read : String → Except Refusal (α → α))

structure Argument (α : Type) where
  name : String
  letter : Option Char
  /-- The environment variable whose value it takes if it is not given. -/
  fallback : Option String
  action : Action α

inductive Word where
  | terminator
  | long (name : String) (value : Option String)
  | letters (cs : List Char)
  | plain (s : String)

def Word.ofString (s : String) : Word :=
  match s.toList with
  | ['-', '-'] => .terminator
  | '-' :: '-' :: cs =>
    let name := String.ofList (cs.takeWhile (· ≠ '='))
    match cs.dropWhile (· ≠ '=') with
    | _ :: value => .long name (some (String.ofList value))
    | [] => .long name none
  | '-' :: c :: cs => .letters (c :: cs)
  | _ => .plain s

/-- What has been read so far. -/
structure Progress (α : Type) where
  options : α
  /-- The names of the arguments that were given. -/
  given : List String
  /-- An argument that does not count yet, with its value if that has come. -/
  pending : Option (Argument α × Option String)

namespace Progress

variable {α : Type}

def start (options : α) : Progress α := ⟨options, [], none⟩

def assign (p : Progress α) (a : Argument α) (set : Except Refusal (α → α)) :
    Except Refusal (Progress α) := do
  if p.given.contains a.name then .error .repeated
  else
    let set ← set
    .ok { p with options := set p.options, given := a.name :: p.given }

/-- Lets an argument count. -/
def apply (p : Progress α) (a : Argument α) (value : Option String) :
    Except Refusal (Progress α) :=
  match a.action, value with
  | .help, _ => .error .help
  | .version command, _ => .error (.version command)
  | .switch set, _ => p.assign a (.ok set)
  | .value _, none => .error .invalidValue
  | .value read, some v => p.assign a (read v)

/-- Lets the pending argument count. -/
def settle (p : Progress α) : Except Refusal (Progress α) :=
  match p.pending with
  | none => .ok p
  | some (a, value) => { p with pending := none }.apply a value

/-- Lets an argument wait for its value. -/
def await (p : Progress α) (a : Argument α) : Except Refusal (Progress α) := do
  .ok { ← p.settle with pending := some (a, none) }

def takeLong (arguments : List (Argument α)) (p : Progress α) (name : String)
    (value : Option String) : Except Refusal (Progress α) :=
  match arguments.find? fun a => a.name == name with
  | none => .error .unknownArgument
  | some a =>
    match a.action, value with
    | .value _, none => p.await a
    | .value _, some v => do (← p.settle).apply a (some v)
    | _, none => do (← p.settle).apply a none
    | _, some _ => .error .unwantedValue

def takeLetters (arguments : List (Argument α)) : Progress α → List Char →
    Except Refusal (Progress α)
  | p, [] => .ok p
  | p, c :: cs =>
    match arguments.find? fun a => a.letter == some c with
    | none => .error .unknownArgument
    | some a =>
      match a.action, cs with
      | .value _, [] => p.await a
      | .value _, '=' :: v => do (← p.settle).apply a (some (String.ofList v))
      | .value _, v => do (← p.settle).apply a (some (String.ofList v))
      | _, cs => do takeLetters arguments (← (← p.settle).apply a none) cs

def takeWords (arguments : List (Argument α)) : Progress α → List String →
    Except Refusal (Progress α)
  | p, [] => p.settle
  | p, w :: ws =>
    match Word.ofString w with
    | .terminator => if ws.isEmpty then p.settle else .error .unknownArgument
    | .long name value => do takeWords arguments (← takeLong arguments p name value) ws
    | .letters cs => do takeWords arguments (← takeLetters arguments p cs) ws
    | .plain s =>
      match p.pending with
      | some (a, none) => takeWords arguments { p with pending := some (a, some s) } ws
      | _ => .error .unknownArgument

/-- Takes from the environment what was not given. -/
def takeFallbacks (environment : String → Option String) : Progress α → List (Argument α) →
    Except Refusal (Progress α)
  | p, [] => .ok p
  | p, a :: as =>
    match a.fallback.bind environment with
    | some v =>
      if p.given.contains a.name then takeFallbacks environment p as
      else do takeFallbacks environment (← p.apply a (some v)) as
    | none => takeFallbacks environment p as

end Progress

/-- Reads the words behind a command's name. -/
def readArguments {α : Type} (arguments : List (Argument α)) (options : α)
    (environment : String → Option String) (words : List String) : Except Refusal α := do
  let p ← (Progress.start options).takeWords arguments words
  let p ← p.takeFallbacks environment arguments
  .ok p.options

/-- A decimal integer, with or without a sign. -/
def readInteger? (s : String) : Option Int :=
  let digits (cs : List Char) : Option Nat :=
    if !cs.isEmpty && cs.all Char.isDigit then
      some (cs.foldl (fun n c => n * 10 + (c.toNat - 48)) 0)
    else none
  match s.toList with
  | '-' :: cs => (digits cs).map fun n => -n
  | '+' :: cs => (digits cs).map fun n => n
  | cs => (digits cs).map fun n => n

end CommandLine

end TxRecovery
