/-!
# Byte strings and blocks of fixed length

`Bytes` is a list of bytes, ordered lexicographically. `Block n` is a byte string of exactly `n`
bytes: the form of keys, nonces and shared secrets. The integers of the stored formats are little
endian: `littleEndian n v` writes the low `n` bytes of `v`, `Bytes.toNatLE` reads them back.
-/

namespace TxRecovery

abbrev Bytes := List UInt8

namespace Bytes

/-- The low `n` bytes of `v`, least significant first. -/
def littleEndian : Nat → Nat → Bytes
  | 0, _ => []
  | n + 1, v => UInt8.ofNat v :: littleEndian n (v / 256)

/-- The low `n` bytes of `v`, most significant first. -/
def bigEndian (n v : Nat) : Bytes :=
  (littleEndian n v).reverse

def toNatLE : Bytes → Nat
  | [] => 0
  | b :: bs => b.toNat + 256 * toNatLE bs

def toNatBE (bs : Bytes) : Nat :=
  toNatLE bs.reverse

@[simp] theorem length_littleEndian (n v : Nat) : (littleEndian n v).length = n := by
  induction n generalizing v with
  | zero => rfl
  | succ n ih => simp [littleEndian, ih]

@[simp] theorem length_bigEndian (n v : Nat) : (bigEndian n v).length = n := by
  simp [bigEndian]

theorem toNatLE_littleEndian {n v : Nat} (h : v < Nat.pow 256 n) : toNatLE (littleEndian n v) = v := by
  induction n generalizing v with
  | zero =>
    have : v = 0 := by simpa using h
    simp [littleEndian, toNatLE, this]
  | succ n ih =>
    have hq : v / 256 < Nat.pow 256 n := (Nat.div_lt_iff_lt_mul (by decide)).2 h
    have hb : (UInt8.ofNat v).toNat = v % 256 := by simp
    rw [littleEndian, toNatLE, ih hq, hb]
    exact Nat.mod_add_div v 256

/-- Cuts the first `n` bytes off, if there are that many. -/
def splitExactly? (n : Nat) (bs : Bytes) : Option (Bytes × Bytes) :=
  let chunk := bs.take n
  if chunk.length = n then some (chunk, bs.drop n) else none

theorem splitExactly?_append (xs ys : Bytes) :
    splitExactly? xs.length (xs ++ ys) = some (xs, ys) := by
  simp [splitExactly?]

theorem splitExactly?_eq_some {n : Nat} {bs xs ys : Bytes}
    (h : splitExactly? n bs = some (xs, ys)) : xs.length = n ∧ bs = xs ++ ys := by
  simp only [splitExactly?] at h
  split at h
  · rename_i hn
    injection h with h
    injection h with h1 h2
    subst h1 h2
    exact ⟨hn, (List.take_append_drop n bs).symm⟩
  · exact nomatch h

end Bytes

/-- A byte string of exactly `n` bytes. -/
structure Block (n : Nat) where
  toList : Bytes
  length_toList : toList.length = n
deriving DecidableEq

namespace Block

theorem ext {n : Nat} {a b : Block n} (h : a.toList = b.toList) : a = b := by
  cases a; cases b; cases h; rfl

def replicate (n : Nat) (b : UInt8) : Block n :=
  ⟨List.replicate n b, List.length_replicate⟩

instance {n : Nat} : Inhabited (Block n) := ⟨replicate n 0⟩

/-- The block of these bytes, if they are as many as it takes. -/
def ofBytes? (n : Nat) (bs : Bytes) : Option (Block n) :=
  if h : bs.length = n then some ⟨bs, h⟩ else none

@[simp] theorem ofBytes?_toList {n : Nat} (b : Block n) : ofBytes? n b.toList = some b := by
  simp [ofBytes?, b.length_toList]

theorem ofBytes?_eq_some_iff {n : Nat} {bs : Bytes} {b : Block n} :
    ofBytes? n bs = some b ↔ bs = b.toList := by
  constructor
  · intro h
    simp only [ofBytes?] at h
    split at h
    · cases h; rfl
    · exact nomatch h
  · rintro rfl
    exact ofBytes?_toList b

/-- The low `n` bytes of `v`, least significant first. -/
def ofNatLE (n v : Nat) : Block n :=
  ⟨Bytes.littleEndian n v, Bytes.length_littleEndian n v⟩

/-- The first `n` bytes of `bs`, filled up with zeros. -/
def ofPrefix (n : Nat) (bs : Bytes) : Block n :=
  ⟨(bs.take n ++ List.replicate n 0).take n, by simp⟩

instance {n : Nat} : Ord (Block n) := ⟨fun a b => compare a.toList b.toList⟩

instance {n : Nat} : Std.TransOrd (Block n) where
  eq_swap := Std.OrientedOrd.eq_swap (α := Bytes)
  isLE_trans := Std.TransOrd.isLE_trans (α := Bytes)

instance {n : Nat} : Std.LawfulEqOrd (Block n) where
  eq_of_compare h := ext (Std.LawfulEqOrd.eq_of_compare (α := Bytes) h)
  compare_self := Std.ReflOrd.compare_self (α := Bytes)

end Block

end TxRecovery
