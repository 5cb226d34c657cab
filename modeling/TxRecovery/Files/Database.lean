import TxRecovery.Digest.Crc32
import TxRecovery.Files.Basic
import TxRecovery.Text.Utf8

/-!
# The files of a database

A database has a directory of its own. In it `conf` holds the parameters that it was made with, `db`
its log, and the directory `blobs` what is too large for the log. `Database.openIn` makes what is
missing, and refuses a database that was made with other parameters.
-/

namespace TxRecovery

namespace Database

/-- Why a database cannot be opened. -/
inductive Fault where
  | file (fault : FileFault)
  | corrupt
  | unsupported (reason : String)
deriving DecidableEq

def Fault.message : Fault → String
  | file f => "IO error: " ++ f.message
  | corrupt => "Read corrupted data at file offset None backtrace ()"
  | unsupported reason => "Unsupported: " ++ reason

structure Parameters where
  segmentSize : Nat
  compressed : Bool
  version : Nat × Nat
deriving DecidableEq

namespace Parameters

def standard : Parameters := ⟨524288, false, (0, 34)⟩

def versionText (p : Parameters) : String := s!"{p.version.1}.{p.version.2}"

/-- The parameters as lines of text, and their checksum. -/
def toBytes (p : Parameters) : Bytes :=
  let text := Utf8.encode (s!"segment_size: {p.segmentSize}\nuse_compression: {p.compressed}\n" ++
    s!"version: {p.versionText}\n")
  text ++ Bytes.littleEndian 4 (Crc32.hash text).toNat

/-- A decimal number, with or without a plus. -/
def readNumber (s : String) : Except Fault Nat :=
  let digits :=
    match s.toList with
    | '+' :: cs => cs
    | cs => cs
  if !digits.isEmpty && digits.all Char.isDigit then
    .ok (digits.foldl (fun n c => n * 10 + (c.toNat - 48)) 0)
  else .error .corrupt

def readVersion (s : String) : Except Fault (Nat × Nat) :=
  match s.splitOn "." with
  | major :: minor :: _ => do .ok (← readNumber major, ← readNumber minor)
  | _ => .error .corrupt

def readFlag (s : String) : Except Fault Bool :=
  if s = "true" then .ok true else if s = "false" then .ok false else .error .corrupt

/-- A line names a parameter and its value. -/
def readLine (line : Bytes) : Except Fault (String × String) :=
  match Utf8.decode line with
  | .error _ => .error <| .unsupported <|
    "failed to open database that may have been created using a sled version earlier than 0.29"
  | .ok text =>
    match text.splitOn ": " with
    | name :: value :: _ => .ok (name, value)
    | _ => .error .corrupt

/-- The lines of a text; each but the last ends in a line feed, with or without a carriage return in
front of it. -/
def lines : Bytes → List Bytes
  | [] => []
  | 10 :: bs => [] :: lines bs
  | 13 :: 10 :: bs => [] :: lines bs
  | b :: bs =>
    match lines bs with
    | [] => [[b]]
    | l :: ls => (b :: l) :: ls

/-- The parameters in a file, whose last four bytes are a checksum that is not held against them. -/
def ofBytes (bs : Bytes) : Except Fault Parameters := do
  let fields ← (lines (bs.take (bs.length - 4))).mapM readLine
  let field (name : String) : Except Fault String :=
    match fields.reverse.find? fun f => f.1 == name with
    | some f => .ok f.2
    | none => .error .corrupt
  .ok ⟨← readNumber (← field "segment_size"), ← readFlag (← field "use_compression"),
    ← readVersion (← field "version")⟩

/-- Whether a database with the parameters `old` can be opened with these. -/
def checkAgainst (p old : Parameters) : Except Fault Unit :=
  if p.compressed ≠ old.compressed then
    .error <| .unsupported <| "cannot change compression values across restarts. " ++
      s!"old value of use_compression loaded from disk: {old.compressed}, " ++
      s!"currently set value: {p.compressed}."
  else if p.segmentSize ≠ old.segmentSize then
    .error <| .unsupported <| "cannot change the io buffer size across restarts. " ++
      s!"please change it back to {old.segmentSize}"
  else if p.version ≠ old.version then
    .error <| .unsupported <| s!"This database was created using pagecache version " ++
      s!"{old.versionText}, but our pagecache version is {p.versionText}. Please perform " ++
      "an upgrade using the sled::Db::export and sled::Db::import methods."
  else .ok ()

end Parameters

/-- How the log of a new database starts: with a checksum and the numbers of its first segment,
inverted. -/
def freshLog : Bytes :=
  let number := Bytes.littleEndian 8 (Int64.maxValue.toUInt64).toNat
  let numbers := number ++ number
  Bytes.littleEndian 4 (Crc32.hash numbers ^^^ 0xFFFFFFFF).toNat ++ numbers

variable {m : Type → Type} [Monad m]

/-- An operation on the database's files. -/
def attempt {α : Type} (op : m (Except FileFault α)) : ExceptT Fault m α :=
  ExceptT.mk do return (← op).mapError .file

/-- Checks the parameters in a file, or writes them if it holds none. -/
def settleParameters (files : Files m) (path : String) : ExceptT Fault m Unit := do
  let fresh := attempt (files.write path false Parameters.standard.toBytes)
  match ← (files.read path : m (Except FileFault Bytes)) with
  | .error .notFound => fresh
  | .error f => throw (.file f)
  | .ok bs =>
    if bs.length ≤ 8 then fresh
    else
      let old ← Parameters.ofBytes bs
      Parameters.standard.checkAgainst old

/-- Opens the database in a directory that is there. -/
def openIn (files : Files m) (directory : String) : ExceptT Fault m Unit := do
  let blobs := Files.join directory "blobs"
  unless ← (files.contains blobs : m Bool) do attempt (files.makeDirectories blobs)
  settleParameters files (Files.join directory "conf")
  attempt (files.create (Files.join directory "db") freshLog)

end Database

end TxRecovery
