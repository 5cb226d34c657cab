import TxRecovery.Files.Basic
import TxRecovery.Json.Shape
import TxRecovery.Json.Value
import TxRecovery.Text.Utf8

/-!
# Settings

What an operator may set for recovery. A settings file is a JSON object; what it leaves out takes its
default, what it misspells is refused, and every size in it must be at least one.
-/

namespace TxRecovery

structure Settings where
  /-- Whether the node takes part in recovery at all. -/
  resendMode : Bool
  /-- Staged rows fetched at a time by a synchronisation. -/
  syncPageSize : Nat
  /-- Rows written back at a time by a staging pass. -/
  stagingBatchSize : Nat
  /-- Rows removed at a time by a cleanup. -/
  cleanupBatchSize : Nat
deriving DecidableEq

namespace Settings

def standard : Settings := ⟨true, 10000, 10000, 10000⟩

instance : Inhabited Settings := ⟨standard⟩

def size : Json.Reading Nat := .unsigned "usize" (UInt64.size - 1)

def record : Json.Record Settings where
  title := "struct ResyncConfig"
  fields := [
    .required "resendMode" .bool fun b s => { s with resendMode := b },
    .required "syncPageSize" size fun n s => { s with syncPageSize := n },
    .required "stagingBatchSize" size fun n s => { s with stagingBatchSize := n },
    .required "cleanupBatchSize" size fun n s => { s with cleanupBatchSize := n }]
  blank := standard
  closed := true
  defaults := true

def toJson (s : Settings) : Json.Value := .object [
  ("resendMode", .bool s.resendMode), ("syncPageSize", .number s.syncPageSize),
  ("stagingBatchSize", .number s.stagingBatchSize),
  ("cleanupBatchSize", .number s.cleanupBatchSize)]

end Settings

inductive SettingsError where
  | file (fault : FileFault)
  | text (fault : Json.Fault)
  /-- The named size is zero. -/
  | zero (name : String)
deriving DecidableEq

namespace SettingsError

/-- The fault underneath, if there is one. -/
def cause? : SettingsError → Option String
  | file f => some f.message
  | text f => some f.message
  | zero _ => none

def message : SettingsError → String
  | file f => "failed to read config file: " ++ f.message
  | text f => "invalid config file: " ++ f.message
  | zero name => s!"invalid config value: {name} must be at least 1"

end SettingsError

namespace Settings

def validate (s : Settings) : Except SettingsError Unit :=
  if s.syncPageSize = 0 then .error (.zero "syncPageSize")
  else if s.stagingBatchSize = 0 then .error (.zero "stagingBatchSize")
  else if s.cleanupBatchSize = 0 then .error (.zero "cleanupBatchSize")
  else .ok ()

/-- Reads a settings file. -/
def ofFile (content : Except FileFault Bytes) : Except SettingsError Settings := do
  let raw ← content.mapError .file
  let text ← (Utf8.decode raw).mapError fun _ => .file .notText
  let s ← (Json.parse record.read text).mapError .text
  s.validate
  .ok s

end Settings

end TxRecovery
