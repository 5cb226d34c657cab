import TxRecovery.Program

/-!
# The node's program on a disk

Runs `Program.execute` on the files, the environment and the randomness of the machine.
-/

namespace TxRecovery.Main

/-- Whether the machine's number of a failure is this one; some operations report it negated. -/
def isNumber (number code : UInt32) : Bool := code = number || code = 0 - number

/-- What a failure of the machine is to the program. -/
def faultOf (e : IO.Error) : FileFault :=
  match e with
  | .noFileOrDirectory .. => .notFound
  | .alreadyExists .. => .exists
  | .inappropriateType _ code _ => if isNumber 21 code then .isDirectory else .notDirectory
  | .resourceExhausted .. => .other "No space left on device (os error 28)"
  | .permissionDenied .. => .other "Permission denied (os error 13)"
  | .invalidArgument _ code text =>
    if isNumber 36 code then .nameTooLong else .other text
  | e => .other (toString e)

def attempt {α : Type} (op : IO α) : IO (Except FileFault α) := do
  try
    return .ok (← op)
  catch e => return .error (faultOf e)

def ownerOnly : IO.FileRight where
  user := { read := true, write := true }

def read (path : String) : IO (Except FileFault Bytes) :=
  attempt do return (← IO.FS.readBinFile path).toList

def disk : Files IO where
  makeDirectory path := attempt (IO.FS.createDir path)
  isDirectory path := return (← read path) matches .error .isDirectory
  contains path := return (← read path) matches .ok _ | .error .isDirectory | .error (.other _)
  read
  write path isPrivate content := attempt do
    IO.FS.writeBinFile path ⟨content.toArray⟩
    if isPrivate then IO.setAccessRights path ownerOnly

def environment : IO (String → Option String) := do
  let names := ["PTM_CONFIG", "PTM_DATA_DIR", "PTM_API_PORT", "PTM_METRICS_PORT",
    "PTM_RESEND_MODE", "PTM_PASS_INTERVAL_SECS", "PTM_LOG_FORMAT"]
  let values ← names.mapM fun name => do return (name, ← IO.getEnv name)
  return fun name => (values.find? fun v => v.1 == name).bind Prod.snd

end TxRecovery.Main

open TxRecovery

def main (words : List String) : IO UInt32 := do
  let secret := Block.ofPrefix 32 (← IO.getRandomBytes 32).toList
  let report ← Program.execute .standard Main.disk (← Main.environment) secret words
  IO.print report.output
  IO.eprint report.errorOutput
  return UInt32.ofNat report.exitCode
