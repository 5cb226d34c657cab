import TxRecovery.Bytes

/-!
# Files

What the program does with files, as a record over the monad that it runs in, so that the same
program runs on a disk and on a tree in memory. `Files.makeDirectories` makes a directory with those
it lies in: it goes up to the first that need not be made or cannot be, and from there back down.
-/

namespace TxRecovery

/-- Why a file operation failed. -/
inductive FileFault where
  | notFound
  | exists
  | notDirectory
  | isDirectory
  | nameTooLong
  | notText
  | other (text : String)
deriving DecidableEq

def FileFault.message : FileFault → String
  | notFound => "No such file or directory (os error 2)"
  | .exists => "File exists (os error 17)"
  | notDirectory => "Not a directory (os error 20)"
  | isDirectory => "Is a directory (os error 21)"
  | nameTooLong => "File name too long (os error 36)"
  | notText => "stream did not contain valid UTF-8"
  | other t => t

structure Files (m : Type → Type) where
  /-- Makes one directory. -/
  makeDirectory : (path : String) → m (Except FileFault Unit)
  isDirectory : (path : String) → m Bool
  contains : (path : String) → m Bool
  read : (path : String) → m (Except FileFault Bytes)
  /-- Writes a file, one that nobody but its owner may read if it is private. -/
  write : (path : String) → (isPrivate : Bool) → Bytes → m (Except FileFault Unit)

namespace Files

/-- The names in a path. -/
def names (path : String) : List String := (path.splitOn "/").filter (· ≠ "")

/-- The path of `name` in a directory. -/
def join (directory name : String) : String :=
  if directory.endsWith "/" then directory ++ name else directory ++ "/" ++ name

/-- The ways up from a place, given by its names from the last one up. A point on the way is none of
its own, unless the path starts with it. -/
def waysUp : List String → List (List String)
  | [] => []
  | n :: ns => if n = "." ∧ ns ≠ [] then waysUp ns else (n :: ns) :: waysUp ns

/-- The paths of the directories that a path lies in, the nearest first. -/
def parents (path : String) : List String :=
  (waysUp (names path).reverse).tail.map fun ns =>
    (if path.startsWith "/" then "/" else "") ++ "/".intercalate ns.reverse

variable {m : Type → Type} [Monad m]

/-- Makes one directory, unless it is there. -/
def ensureDirectory (files : Files m) (path : String) : m (Except FileFault Unit) := do
  match ← files.makeDirectory path with
  | .ok () => return .ok ()
  | .error f => return if ← files.isDirectory path then .ok () else .error f

/-- Makes directories of which each lies in the next one. -/
def ensureDirectories (files : Files m) : List String → m (Except FileFault Unit)
  | [] => return .ok ()
  | path :: parents => do
    match ← files.ensureDirectory path with
    | .error .notFound =>
      match ← files.ensureDirectories parents with
      | .ok () => files.ensureDirectory path
      | e => return e
    | r => return r

/-- Makes a directory and those it lies in, as far as they are missing. -/
def makeDirectories (files : Files m) (path : String) : m (Except FileFault Unit) :=
  files.ensureDirectories (path :: parents path)

/-- Writes a file unless there is one. -/
def create (files : Files m) (path : String) (content : Bytes) : m (Except FileFault Unit) := do
  if ← files.isDirectory path then return .error .isDirectory
  else if ← files.contains path then return .ok ()
  else files.write path false content

end Files

end TxRecovery
