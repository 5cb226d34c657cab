import TxRecovery.Files.Basic

/-!
# A tree of files

Files and directories in memory, by the names that lead to them. A path is followed name by name:
each but the last must name a directory, a point stays where it is, and two points lead back. A
relative path starts in the working directory, which is not left; an absolute one starts at the top
of the machine, of which only the null device is known.
-/

namespace TxRecovery

inductive FileTree.Entry where
  | directory
  | file (content : Bytes) (isPrivate : Bool)

structure FileTree where
  entries : List (List String × FileTree.Entry)

namespace FileTree

/-- The names that lead to the top of the machine. -/
def top : List String := ["/"]

/-- A machine with an empty working directory. -/
def empty : FileTree := ⟨[
  (top, .directory), (top ++ ["dev"], .directory), (top ++ ["dev", "null"], .file [] false)]⟩

/-- What stands at a place; the working directory is there from the start. -/
def entry? (t : FileTree) (place : List String) : Option Entry :=
  if place.isEmpty then some .directory
  else (t.entries.find? fun e => e.1 = place).map Prod.snd

def put (t : FileTree) (place : List String) (e : Entry) : FileTree :=
  ⟨(place, e) :: t.entries.filter fun e => e.1 ≠ place⟩

/-- The longest name in a directory, and the longest path, in bytes. -/
def maxName : Nat := 255

def maxPath : Nat := 4095

/-- The place one name further on. -/
def further (place : List String) (name : String) : List String :=
  if name = "." then place
  else if name = ".." then if place = top then top else place.dropLast
  else place ++ [name]

/-- Where a path leads. The last name need not be taken. -/
def follow (t : FileTree) : (place : List String) → List String → Except FileFault (List String)
  | place, [] => .ok place
  | place, name :: rest =>
    match t.entry? place with
    | some .directory =>
      if maxName < name.utf8ByteSize then .error .nameTooLong
      else follow t (further place name) rest
    | some (.file _ _) => .error .notDirectory
    | none => .error .notFound

/-- Where a path starts. -/
def start (path : String) : List String := if path.startsWith "/" then top else []

/-- Where a path to a file leads. A path that ends in a slash is one to a directory. -/
def locate (t : FileTree) (path : String) : Except FileFault (List String) :=
  if maxPath < path.utf8ByteSize then .error .nameTooLong
  else t.follow (start path) (Files.names path ++ if path.endsWith "/" then ["."] else [])

def read (t : FileTree) (path : String) : Except FileFault Bytes := do
  match t.entry? (← t.locate path) with
  | some (.file content _) => .ok content
  | some .directory => .error .isDirectory
  | none => .error .notFound

def contains (t : FileTree) (path : String) : Bool :=
  match t.locate path with
  | .ok place => (t.entry? place).isSome
  | .error _ => false

def isDirectory (t : FileTree) (path : String) : Bool :=
  match t.read path with
  | .error .isDirectory => true
  | _ => false

def write (t : FileTree) (path : String) (isPrivate : Bool) (content : Bytes) :
    Except FileFault FileTree := do
  let place ← t.locate path
  match t.entry? place with
  | some .directory => .error .isDirectory
  | _ => .ok (t.put place (.file content isPrivate))

/-- Makes a directory where the path's last name is not taken; points never are free. -/
def makeDirectory (t : FileTree) (path : String) : Except FileFault FileTree := do
  let names := Files.names path
  let name := names.getLastD "."
  if maxPath < path.utf8ByteSize then .error .nameTooLong
  else
    let parent ← t.follow (start path) names.dropLast
    let place ← t.follow parent [name]
    if name = "." ∨ name = ".." ∨ (t.entry? place).isSome then .error .exists
    else .ok (t.put place .directory)

/-- A change to the tree that may fail, and then changes nothing. -/
def change (f : FileTree → Except FileFault FileTree) : StateM FileTree (Except FileFault Unit) :=
  fun t =>
    match f t with
    | .ok t => (.ok (), t)
    | .error e => (.error e, t)

def files : Files (StateM FileTree) where
  makeDirectory path := change fun t => t.makeDirectory path
  isDirectory path := fun t => (t.isDirectory path, t)
  contains path := fun t => (t.contains path, t)
  read path := fun t => (t.read path, t)
  write path isPrivate content := change fun t => t.write path isPrivate content

end FileTree

end TxRecovery
