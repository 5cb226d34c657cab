import TxRecovery.Cipher.Gcm

/-!
# GCM opens what it seals

Counter mode is its own inverse: the key stream is added to the text twice (`Gcm.crypt_crypt`). All that this
takes of the block cipher is that it answers with sixteen bytes (`Aes.length_encipher`). The tag is computed of
the ciphertext alone, so that it is found again, and what was sealed is opened (`Gcm.decrypt?_encrypt`).
-/

namespace TxRecovery

namespace Aes

@[simp] theorem length_xor (a b : Bytes) : (xor a b).length = min a.length b.length := List.length_zipWith

theorem xor_xor {a b : Bytes} (h : a.length ≤ b.length) : xor (xor a b) b = a := by
  induction a generalizing b with
  | nil => rfl
  | cons x a ih =>
    cases b with
    | nil => exact absurd h (Nat.not_succ_le_zero _)
    | cons y b =>
      have hxy : x ^^^ y ^^^ y = x := by rw [UInt8.xor_assoc, UInt8.xor_self, UInt8.xor_zero]
      have htail := ih (Nat.le_of_succ_le_succ h)
      simp only [xor, List.zipWith_cons_cons] at htail ⊢
      rw [hxy, htail]

/-! ### The key schedule -/

theorem nextWords_eight {constant : UInt8} {words : List Bytes} (h8 : words.length = 8)
    (h4 : ∀ w ∈ words, w.length = 4) :
    (nextWords constant words).length = 8 ∧ ∀ w ∈ nextWords constant words, w.length = 4 := by
  match words, h8 with
  | [w0, w1, w2, w3, w4, w5, w6, w7], _ =>
    simp only [List.forall_mem_cons] at h4
    obtain ⟨h0, h1, h2, h3, h4, h5, h6, h7, -⟩ := h4
    simp [nextWords, h0, h1, h2, h3, h4, h5, h6, h7]

theorem length_flatten_eight {words : List Bytes} (h8 : words.length = 8) (h4 : ∀ w ∈ words, w.length = 4) :
    words.flatten.length = 32 := by
  rw [List.length_flatten, List.map_congr_left h4, List.map_const', List.sum_replicate_nat, h8]

theorem length_expandFrom (n : Nat) {constant : UInt8} {words : List Bytes} (h8 : words.length = 8)
    (h4 : ∀ w ∈ words, w.length = 4) : (expandFrom n constant words).flatten.length = 32 * (n + 1) := by
  induction n generalizing constant words with
  | zero => exact length_flatten_eight h8 h4
  | succ n ih =>
    obtain ⟨h8', h4'⟩ := nextWords_eight h8 h4
    rw [expandFrom, List.flatten_append, List.length_append, length_flatten_eight h8 h4, ih h8' h4']
    omega

theorem length_pieces (size n : Nat) (bs : Bytes) : (pieces size n bs).length = n := by
  induction n generalizing bs with
  | zero => rfl
  | succ n ih => rw [pieces, List.length_cons, ih]

theorem length_of_mem_pieces {size n : Nat} {bs piece : Bytes} (h : size * n ≤ bs.length)
    (hp : piece ∈ pieces size n bs) : piece.length = size := by
  induction n generalizing bs with
  | zero => exact nomatch hp
  | succ n ih =>
    rw [Nat.mul_succ] at h
    rcases List.mem_cons.1 hp with rfl | hp
    · rw [List.length_take, Nat.min_eq_left (by omega)]
    · refine ih ?_ hp
      rw [List.length_drop]
      omega

theorem length_of_mem_roundKeys {key : Block 32} {k : Bytes} (hk : k ∈ roundKeys key) : k.length = 16 := by
  refine length_of_mem_pieces ?_ hk
  rw [length_expandFrom 7 (length_pieces 4 8 _) fun w hw => length_of_mem_pieces ?_ hw]
  · decide
  · exact Nat.le_of_eq key.length_toList.symm

/-! ### Rounds -/

theorem length_mixColumns (bs : Bytes) : (mixColumns bs).length = bs.length / 4 * 4 := by
  fun_induction mixColumns bs with
  | case1 a b c d rest all ih =>
    simp only [List.length_cons, ih]
    omega
  | case2 bs hshort =>
    match bs, hshort with
    | [], _ | [_], _ | [_, _], _ | [_, _, _], _ => simp
    | a :: b :: c :: d :: rest, hshort => exact absurd rfl (hshort a b c d rest)

theorem length_rounds {keys : List Bytes} {block : Bytes} (hkeys : ∀ k ∈ keys, k.length = 16)
    (hblock : block.length = 16) : (rounds keys block).length = 16 := by
  induction keys generalizing block with
  | nil => exact hblock
  | cons k keys ih =>
    obtain ⟨hk, hkeys⟩ := List.forall_mem_cons.1 hkeys
    have hrows : ∀ bs : Bytes, (shiftRows bs).length = 16 := fun bs => List.length_map _
    cases keys with
    | nil => rw [rounds, length_xor, hrows, hk, Nat.min_self]
    | cons k' keys =>
      rw [rounds]
      · exact ih hkeys (by rw [length_xor, length_mixColumns, hrows, hk]; rfl)
      · exact List.cons_ne_nil _ _

theorem length_encipher (key : Block 32) {block : Bytes} (hblock : block.length = 16) :
    (encipher (roundKeys key) block).length = 16 := by
  have hkeys := @length_of_mem_roundKeys key
  generalize roundKeys key = keys at hkeys
  cases keys with
  | nil => exact hblock
  | cons k keys =>
    rw [encipher]
    refine length_rounds (fun k' hk' => hkeys (List.mem_cons_of_mem k hk')) ?_
    rw [length_xor, hblock, hkeys List.mem_cons_self, Nat.min_self]

end Aes

namespace Gcm

open Aes (roundKeys)

variable (key : Block 32) (nonce : Block 12)

theorem length_counterBlock (n : Nat) : (counterBlock nonce n).length = 16 := by
  rw [counterBlock, List.length_append, nonce.length_toList, Bytes.length_bigEndian]

theorem length_keyBlock (n : Nat) : (Aes.encipher (roundKeys key) (counterBlock nonce n)).length = 16 :=
  Aes.length_encipher key (length_counterBlock nonce n)

theorem applyStream_nil (keys : List Bytes) (count n : Nat) : applyStream keys nonce count n [] = [] := by
  induction count generalizing n with
  | zero => rfl
  | succ count ih => exact ih (n + 1)

theorem length_applyStream {count n : Nat} {bs : Bytes} (h : bs.length ≤ 16 * count) :
    (applyStream (roundKeys key) nonce count n bs).length = bs.length := by
  induction count generalizing n bs with
  | zero => exact (Nat.le_zero.1 h).symm
  | succ count ih =>
    have hdrop : (bs.drop 16).length ≤ 16 * count := by
      rw [List.length_drop]
      omega
    rw [applyStream, List.length_append, ih hdrop, Aes.length_xor, length_keyBlock, List.length_take, List.length_drop]
    omega

theorem applyStream_applyStream {count n : Nat} {bs : Bytes} (h : bs.length ≤ 16 * count) :
    applyStream (roundKeys key) nonce count n (applyStream (roundKeys key) nonce count n bs) = bs := by
  induction count generalizing n bs with
  | zero => exact (List.eq_nil_of_length_eq_zero (Nat.le_zero.1 h)).symm
  | succ count ih =>
    have hdrop : (bs.drop 16).length ≤ 16 * count := by
      rw [List.length_drop]
      omega
    have hstream := length_keyBlock key nonce n
    have hfront : (Aes.xor (bs.take 16) (Aes.encipher (roundKeys key) (counterBlock nonce n))).length =
        min 16 bs.length := by
      rw [Aes.length_xor, hstream, List.length_take]
      omega
    have htwice : Aes.xor (Aes.xor (bs.take 16) (Aes.encipher (roundKeys key) (counterBlock nonce n)))
        (Aes.encipher (roundKeys key) (counterBlock nonce n)) = bs.take 16 := by
      refine Aes.xor_xor ?_
      rw [hstream, List.length_take]
      exact Nat.min_le_left _ _
    rw [applyStream, applyStream]
    by_cases hlong : 16 ≤ bs.length
    · rw [Nat.min_eq_left hlong] at hfront
      rw [List.take_left' hfront, List.drop_left' hfront, htwice, ih hdrop, List.take_append_drop]
    · -- the last block is not full, and nothing comes after it
      have hrest : bs.drop 16 = [] := List.drop_eq_nil_of_le (by omega)
      rw [hrest, applyStream_nil, List.append_nil, List.take_of_length_le (by omega), htwice,
        List.drop_eq_nil_of_le (by omega), applyStream_nil, List.append_nil, List.take_of_length_le (by omega)]

theorem length_le_blocks (bs : Bytes) : bs.length ≤ 16 * blocks bs := by
  rw [blocks]
  omega

theorem length_crypt (bs : Bytes) : (crypt (roundKeys key) nonce bs).length = bs.length :=
  length_applyStream key nonce (length_le_blocks bs)

theorem crypt_crypt (bs : Bytes) : crypt (roundKeys key) nonce (crypt (roundKeys key) nonce bs) = bs := by
  have hblocks : blocks (crypt (roundKeys key) nonce bs) = blocks bs := by
    rw [blocks, length_crypt, blocks]
  rw [crypt, hblocks]
  exact applyStream_applyStream key nonce (length_le_blocks bs)

theorem length_tag (bs : Bytes) : (tag (roundKeys key) nonce bs).length = tagLength := by
  rw [tag, Aes.length_xor, Bytes.length_bigEndian, length_keyBlock]
  rfl

theorem length_encrypt (m : Bytes) : (encrypt key nonce m).length = m.length + tagLength := by
  rw [encrypt, List.length_append, length_crypt, length_tag]

theorem decrypt?_encrypt (m : Bytes) : decrypt? key nonce (encrypt key nonce m) = some m := by
  have hcut : (encrypt key nonce m).length - tagLength = (crypt (roundKeys key) nonce m).length := by
    rw [length_encrypt, length_crypt, Nat.add_sub_cancel]
  rw [decrypt?, if_neg (by rw [length_encrypt]; omega), hcut, encrypt, List.take_left, List.drop_left,
    if_pos rfl, crypt_crypt]

end Gcm

end TxRecovery
