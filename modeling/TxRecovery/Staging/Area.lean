import TxRecovery.Ledger.Basic
import TxRecovery.Staging.Depth

/-!
# The staging area

The rows that peers have pushed and that are not committed yet, by transaction hash, in their binary
form. The area means nothing outside recovery: it may be cleared at any time, and peers push again.
-/

namespace TxRecovery

namespace Staging

structure Area where
  tree : Tree

/-- Cuts a list into chunks of `n + 1` elements; the last may be shorter. -/
def chunksOf {α : Type} (n : Nat) : List α → List (List α)
  | [] => []
  | x :: xs => (x :: xs.take n) :: chunksOf n (xs.drop n)
termination_by xs => xs.length
decreasing_by simp only [List.length_drop, List.length_cons]; omega

namespace Area

def empty : Area := ⟨.empty⟩

def size (a : Area) : Nat := a.tree.size

def find? (a : Area) (h : TxHash) : Except DbError (Option Row) :=
  match a.tree.get? h.bytes with
  | some bs => (decodeStored Row.format bs).map some
  | none => .ok none

def put (a : Area) (key : Bytes) (row : Row) : Area :=
  ⟨a.tree.insert key (Row.format.write row)⟩

/-- Merges a version into the row of its transaction, which it creates if need be. -/
def upsert (a : Area) (h : TxHash) (key : ViewKey) (version : Version) :
    Except DbError (Row × Area) := do
  let row := ((← a.find? h).getD (.empty h)).merge key version
  .ok (row, a.put h.bytes row)

/-- All rows, with the keys they are kept under. -/
def rows (a : Area) : Except DbError (List (Bytes × Row)) :=
  a.tree.entries.mapM fun e => (decodeStored Row.format e.2).map (e.1, ·)

def countStaged (a : Area) : Except DbError Nat := do
  .ok ((← a.rows).countP fun e => e.2.stage.isSome)

/-- The row with the stage and the issues that a staging pass finds, if it does not carry them. -/
def restaged? (stages : Stages) (row : Row) : Option Row :=
  let stage := stages.get? row.hash
  let issues := row.detectIssues
  if row.stage = stage ∧ row.issues = issues then none
  else some { row with stage, issues }

/-- Computes every stage anew and writes back the rows that change, in chunks of `batch` rows. -/
def assignStages (a : Area) (batch : Nat) : Except DbError Area := do
  let rows ← a.rows
  let stages := stages (rows.map Prod.snd)
  let updates := rows.filterMap fun e => (restaged? stages e.2).map (e.1, ·)
  .ok ((chunksOf (batch - 1) updates).foldl
    (fun a chunk => chunk.foldl (fun a e => a.put e.1 e.2) a) a)

/-- Whether one staged row is committed no later than another: by stage, then by hash. -/
def stageOrder (a b : Nat × Row) : Bool :=
  ((compare a.1 b.1).then (compare a.2.hash b.2.hash)).isLE

/-- The staged rows in the order in which they are committed. -/
def ordered (a : Area) : Except DbError (List Row) := do
  let staged := (← a.rows).filterMap fun e => e.2.stage.map (·, e.2)
  .ok ((staged.mergeSort stageOrder).map Prod.snd)

/-- At most `max` staged rows from the one at `offset` on. -/
def page (a : Area) (offset max : Nat) : Except DbError (List Row) := do
  .ok (((← a.ordered).drop offset).take max)

/-- Removes rows from the front, `n + 1` at a time, until none is left. Counts them. -/
def clearTree (n : Nat) (tree : Tree) (removed : Nat) : Nat × Tree :=
  match _h : tree.keys.take (n + 1) with
  | [] => (removed, tree)
  | k :: ks => clearTree n ((k :: ks).foldl SortedMap.erase tree) (removed + (ks.length + 1))
termination_by tree.size
decreasing_by
  have hk : k ∈ tree.keys := List.mem_of_mem_take (_h ▸ List.mem_cons_self)
  exact Nat.lt_of_le_of_lt (SortedMap.size_foldl_erase_le _ ks) (SortedMap.size_erase_lt hk)

/-- Empties the area, at most `batch` rows at a time. Answers with the number of rows removed. -/
def clear (a : Area) (batch : Nat) : Nat × Area :=
  let (removed, tree) := clearTree (batch - 1) a.tree 0
  (removed, ⟨tree⟩)

end Area

end Staging

end TxRecovery
