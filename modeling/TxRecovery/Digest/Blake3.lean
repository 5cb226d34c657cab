import TxRecovery.Bytes

/-!
# BLAKE3 key derivation

`deriveKey context material` is the key derivation mode: the context text is hashed to a key, under
which the material is hashed. Input is cut into chunks of 1024 bytes, a chunk into blocks of 64, and
the chunks are the leaves of a binary tree whose left subtrees are full.
-/

namespace TxRecovery

namespace Blake3

/-- The chaining value of a node, eight words. -/
abbrev Chain := List UInt32

def initial : Chain :=
  [0x6a09e667, 0xbb67ae85, 0x3c6ef372, 0xa54ff53a, 0x510e527f, 0x9b05688c, 0x1f83d9ab, 0x5be0cd19]

def chunkStart : UInt32 := 1
def chunkEnd : UInt32 := 2
def parent : UInt32 := 4
def root : UInt32 := 8
def deriveContext : UInt32 := 32
def deriveMaterial : UInt32 := 64

def rotateRight (x n : UInt32) : UInt32 := (x >>> n) ||| (x <<< (32 - n))

/-- A column or diagonal of the sixteen state words. -/
structure Quad where
  a : UInt32
  b : UInt32
  c : UInt32
  d : UInt32

def Quad.mix (q : Quad) (x y : UInt32) : Quad :=
  let a := q.a + q.b + x
  let d := rotateRight (q.d ^^^ a) 16
  let c := q.c + d
  let b := rotateRight (q.b ^^^ c) 12
  let a := a + b + y
  let d := rotateRight (d ^^^ a) 8
  let c := c + d
  let b := rotateRight (b ^^^ c) 7
  ⟨a, b, c, d⟩

/-- The sixteen state words, as four columns. -/
structure State where
  q0 : Quad
  q1 : Quad
  q2 : Quad
  q3 : Quad

/-- One round: the columns, then the diagonals, take two message words each. -/
def State.round (s : State) (m : List UInt32) : State :=
  let w := fun i => m.getD i 0
  let c0 := s.q0.mix (w 0) (w 1)
  let c1 := s.q1.mix (w 2) (w 3)
  let c2 := s.q2.mix (w 4) (w 5)
  let c3 := s.q3.mix (w 6) (w 7)
  let d0 := Quad.mix ⟨c0.a, c1.b, c2.c, c3.d⟩ (w 8) (w 9)
  let d1 := Quad.mix ⟨c1.a, c2.b, c3.c, c0.d⟩ (w 10) (w 11)
  let d2 := Quad.mix ⟨c2.a, c3.b, c0.c, c1.d⟩ (w 12) (w 13)
  let d3 := Quad.mix ⟨c3.a, c0.b, c1.c, c2.d⟩ (w 14) (w 15)
  ⟨⟨d0.a, d3.b, d2.c, d1.d⟩, ⟨d1.a, d0.b, d3.c, d2.d⟩, ⟨d2.a, d1.b, d0.c, d3.d⟩,
    ⟨d3.a, d2.b, d1.c, d0.d⟩⟩

/-- The order in which a round reads the message words of the round before it. -/
def schedule : List Nat := [2, 6, 3, 10, 7, 0, 4, 13, 1, 11, 12, 5, 9, 14, 15, 8]

def rounds : Nat → List UInt32 → State → State
  | 0, _, s => s
  | n + 1, m, s => rounds n (schedule.map fun i => m.getD i 0) (s.round m)

def State.output (s : State) : List UInt32 :=
  [s.q0.a ^^^ s.q0.c, s.q1.a ^^^ s.q1.c, s.q2.a ^^^ s.q2.c, s.q3.a ^^^ s.q3.c,
    s.q0.b ^^^ s.q0.d, s.q1.b ^^^ s.q1.d, s.q2.b ^^^ s.q2.d, s.q3.b ^^^ s.q3.d]

/-- The last compression of a chunk or a parent, not yet done, since the root's has a flag more. -/
structure Node where
  chain : Chain
  block : List UInt32
  counter : Nat
  length : Nat
  flags : UInt32

def Node.compress (n : Node) (extra : UInt32) : Chain :=
  let h := fun i => n.chain.getD i 0
  let v := fun i => initial.getD i 0
  let s : State :=
    ⟨⟨h 0, h 4, v 0, UInt32.ofNat n.counter⟩, ⟨h 1, h 5, v 1, UInt32.ofNat (n.counter >>> 32)⟩,
      ⟨h 2, h 6, v 2, UInt32.ofNat n.length⟩, ⟨h 3, h 7, v 3, n.flags ||| extra⟩⟩
  (rounds 7 n.block s).output

/-- Sixteen words, least significant byte first, filled up with zeros. -/
def blockWords (bs : Bytes) : List UInt32 :=
  go 16 bs
where
  go : Nat → Bytes → List UInt32
    | 0, _ => []
    | n + 1, bs => UInt32.ofNat (Bytes.toNatLE (bs.take 4)) :: go n (bs.drop 4)

/-- The blocks of a chunk after the first `done`, of which `left` follow the next one. -/
def chunkNode (flags : UInt32) (counter : Nat) :
    (left : Nat) → (first : Bool) → Chain → Bytes → Node
  | 0, first, chain, bs =>
    ⟨chain, blockWords bs, counter, bs.length,
      flags ||| chunkEnd ||| (if first then chunkStart else 0)⟩
  | left + 1, first, chain, bs =>
    let block := bs.take 64
    let node : Node :=
      ⟨chain, blockWords block, counter, block.length, flags ||| (if first then chunkStart else 0)⟩
    chunkNode flags counter left false (node.compress 0) (bs.drop 64)

/-- The chunks of the input; the empty input has one, empty chunk. -/
def chunkNodes (key : Chain) (flags : UInt32) : (left counter : Nat) → Bytes → List Node
  | 0, counter, bs => [chunkNode flags counter ((bs.length - 1) / 64) true key bs]
  | left + 1, counter, bs =>
    chunkNode flags counter 15 true key (bs.take 1024)
      :: chunkNodes key flags left (counter + 1) (bs.drop 1024)

/-- The largest power of two below `n`, for `n` of at least two. -/
def leftSize (n : Nat) : Nat := 1 <<< (n - 1).log2

theorem leftSize_pos (n : Nat) : 0 < leftSize n := by
  rw [leftSize, Nat.one_shiftLeft]
  exact Nat.two_pow_pos _

theorem leftSize_lt {n : Nat} (h : 2 ≤ n) : leftSize n < n := by
  have : leftSize n ≤ n - 1 := by
    rw [leftSize, Nat.one_shiftLeft]
    exact Nat.log2_self_le (by omega)
  omega

/-- The root of the tree over these chunks. -/
def treeNode (key : Chain) (flags : UInt32) (chunks : List Node) : Node :=
  match chunks with
  | [] => chunkNode flags 0 0 true key []
  | [node] => node
  | a :: b :: rest =>
    let n := leftSize (rest.length + 2)
    let left := treeNode key flags ((a :: b :: rest).take n)
    let right := treeNode key flags ((a :: b :: rest).drop n)
    ⟨key, left.compress 0 ++ right.compress 0, 0, 64, flags ||| parent⟩
termination_by chunks.length
decreasing_by
  · have := leftSize_lt (n := rest.length + 2) (by omega)
    simp only [List.length_take, List.length_cons]
    omega
  · have := leftSize_pos (rest.length + 2)
    simp only [List.length_drop, List.length_cons]
    omega

def hashWith (key : Chain) (flags : UInt32) (bs : Bytes) : Chain :=
  (treeNode key flags (chunkNodes key flags ((bs.length - 1) / 1024) 0 bs)).compress root

def deriveKey (context material : Bytes) : Block 32 :=
  let key := hashWith initial deriveContext context
  let out := hashWith key deriveMaterial material
  .ofPrefix 32 (out.flatMap fun w => Bytes.littleEndian 4 w.toNat)

end Blake3

end TxRecovery
