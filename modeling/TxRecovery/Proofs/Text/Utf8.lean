import Mathlib.Tactic.SplitIfs
import TxRecovery.Text.Case
import TxRecovery.Text.Utf8

/-!
# UTF-8 reads back

Every text is read back from its UTF-8 (`decode_encode`): each character is written in one to four bytes, of
which the first says how many follow (`decodeOne_utf8EncodeChar`). A character below 128 is one byte, so that
the bytes of an ASCII text are its characters (`encodeChars_ascii`); the bytes of all others are beyond 127
(`high_of_mem_utf8EncodeChar`). So a text is put in lower case by its bytes (`encode_lower`).
-/

namespace TxRecovery

namespace Utf8

theorem encodeChars_cons (c : Char) (cs : List Char) :
    encodeChars (c :: cs) = String.utf8EncodeChar c ++ encodeChars cs := rfl

/-! ### ASCII -/

theorem utf8EncodeChar_ofNat : ∀ v : Fin 128, String.utf8EncodeChar (Char.ofNat v) = [UInt8.ofNat v] := by
  decide

theorem utf8EncodeChar_byte {b : UInt8} (hb : b < 128) :
    String.utf8EncodeChar (Char.ofNat b.toNat) = [b] := by
  have h := utf8EncodeChar_ofNat ⟨b.toNat, hb⟩
  rwa [show UInt8.ofNat b.toNat = b from UInt8.ofNat_toNat] at h

theorem encodeChars_ascii {bs : Bytes} (h : ∀ b ∈ bs, b < 128) :
    encodeChars (bs.map fun b => Char.ofNat b.toNat) = bs := by
  induction bs with
  | nil => rfl
  | cons b bs ih =>
    obtain ⟨hb, hbs⟩ := List.forall_mem_cons.1 h
    rw [List.map_cons, encodeChars_cons, utf8EncodeChar_byte hb, ih hbs]
    rfl

theorem length_encodeChars_ascii {cs : List Char} (h : ∀ c ∈ cs, c.toNat < 128) :
    (encodeChars cs).length = cs.length := by
  induction cs with
  | nil => rfl
  | cons c cs ih =>
    obtain ⟨hc, hcs⟩ := List.forall_mem_cons.1 h
    have hone := utf8EncodeChar_ofNat ⟨c.toNat, hc⟩
    rw [Char.ofNat_toNat] at hone
    rw [encodeChars_cons, hone, List.length_append, ih hcs, List.length_singleton, List.length_cons, Nat.add_comm]

/-- Whether all of a text is ASCII is a matter of looking. -/
theorem ascii_of_all {cs : List Char} (h : (cs.all fun c => decide (c.toNat < 128)) = true) :
    ∀ c ∈ cs, c.toNat < 128 := fun c hc => of_decide_eq_true (List.all_eq_true.1 h c hc)

theorem decodeOne_ascii {offset : Nat} {b : UInt8} (hb : b < 128) (rest : Bytes) :
    decodeOne offset b rest = .ok (Char.ofNat b.toNat, 0) := by
  have hw : width b = 1 := if_pos hb
  unfold decodeOne
  rw [hw]
  cases rest <;> rfl

/-! ### Longer sequences -/

theorem isSecond_of {a b : UInt8} (hlow : 0x80 ≤ b.toNat) (hhigh : b.toNat ≤ 0xBF)
    (he0 : a.toNat = 0xE0 → 0xA0 ≤ b.toNat) (hed : a.toNat = 0xED → b.toNat ≤ 0x9F)
    (hf0 : a.toNat = 0xF0 → 0x90 ≤ b.toNat) (hf4 : a.toNat = 0xF4 → b.toNat ≤ 0x8F) :
    isSecond a b = true := by
  unfold isSecond secondRange
  simp only [← UInt8.toNat_inj, UInt8.le_iff_toNat_le, Bool.and_eq_true, decide_eq_true_iff]
  split_ifs with h1 h2 h3 h4
  · exact ⟨he0 h1, hhigh⟩
  · exact ⟨hlow, hed h2⟩
  · exact ⟨hf0 h3, hhigh⟩
  · exact ⟨hlow, hf4 h4⟩
  · exact ⟨hlow, hhigh⟩

theorem isContinuation_of {b : UInt8} (hlow : 0x80 ≤ b.toNat) (hhigh : b.toNat ≤ 0xBF) : isContinuation b = true := by
  simp only [isContinuation, UInt8.le_iff_toNat_le, Bool.and_eq_true, decide_eq_true_iff]
  exact ⟨hlow, hhigh⟩

theorem toNat_ofNat {n : Nat} (h : n < 256) : (UInt8.ofNat n).toNat = n := by
  rw [UInt8.toNat_ofNat', Nat.mod_eq_of_lt h]

theorem width_eq (a : UInt8) : width a =
    if a.toNat < 0x80 then 1 else if a.toNat < 0xC2 then 0 else if a.toNat < 0xE0 then 2
      else if a.toNat < 0xF0 then 3 else if a.toNat < 0xF5 then 4 else 0 := by
  simp only [width, UInt8.lt_iff_toNat_lt]
  rfl

variable {v : Nat} (offset : Nat) (rest : Bytes)

theorem decodeOne_two (hlow : 0x80 ≤ v) (hhigh : v ≤ 0x7FF) :
    decodeOne offset (.ofNat (v / 64 % 32 + 192)) (.ofNat (v % 64 + 128) :: rest) = .ok (Char.ofNat v, 1) := by
  have ha := toNat_ofNat (show v / 64 % 32 + 192 < 256 by omega)
  have hb := toNat_ofNat (show v % 64 + 128 < 256 by omega)
  generalize UInt8.ofNat (v / 64 % 32 + 192) = a at ha ⊢
  generalize UInt8.ofNat (v % 64 + 128) = b at hb ⊢
  have hw : width a = 2 := by
    rw [width_eq, if_neg (by omega), if_neg (by omega), if_pos (by omega)]
  have hs : isSecond a b = true :=
    isSecond_of (by omega) (by omega) (by omega) (by omega) (by omega) (by omega)
  have hv : codePoint (a.toNat % 32) [b] = Char.ofNat v := by
    simp only [codePoint, List.foldl_cons, List.foldl_nil]
    congr 1
    omega
  simp only [decodeOne, hw, hs, hv, if_true]

theorem decodeOne_three (hlow : 0x800 ≤ v) (hhigh : v ≤ 0xFFFF) (hpair : v < 0xD800 ∨ 0xDFFF < v) :
    decodeOne offset (.ofNat (v / 4096 % 16 + 224))
      (.ofNat (v / 64 % 64 + 128) :: .ofNat (v % 64 + 128) :: rest) = .ok (Char.ofNat v, 2) := by
  have ha := toNat_ofNat (show v / 4096 % 16 + 224 < 256 by omega)
  have hb := toNat_ofNat (show v / 64 % 64 + 128 < 256 by omega)
  have hc := toNat_ofNat (show v % 64 + 128 < 256 by omega)
  generalize UInt8.ofNat (v / 4096 % 16 + 224) = a at ha ⊢
  generalize UInt8.ofNat (v / 64 % 64 + 128) = b at hb ⊢
  generalize UInt8.ofNat (v % 64 + 128) = c at hc ⊢
  have hw : width a = 3 := by
    rw [width_eq, if_neg (by omega), if_neg (by omega), if_neg (by omega), if_pos (by omega)]
  have hs : isSecond a b = true :=
    isSecond_of (by omega) (by omega) (by omega) (by omega) (by omega) (by omega)
  have hc' : isContinuation c = true := isContinuation_of (by omega) (by omega)
  have hv : codePoint (a.toNat % 16) [b, c] = Char.ofNat v := by
    simp only [codePoint, List.foldl_cons, List.foldl_nil]
    congr 1
    omega
  simp only [decodeOne, hw, hs, hc', hv, Bool.not_true, Bool.false_eq_true, if_false, if_true]

theorem decodeOne_four (hlow : 0x10000 ≤ v) (hhigh : v < 0x110000) :
    decodeOne offset (.ofNat (v / 262144 % 8 + 240))
      (.ofNat (v / 4096 % 64 + 128) :: .ofNat (v / 64 % 64 + 128) :: .ofNat (v % 64 + 128) :: rest) =
        .ok (Char.ofNat v, 3) := by
  have ha := toNat_ofNat (show v / 262144 % 8 + 240 < 256 by omega)
  have hb := toNat_ofNat (show v / 4096 % 64 + 128 < 256 by omega)
  have hc := toNat_ofNat (show v / 64 % 64 + 128 < 256 by omega)
  have hd := toNat_ofNat (show v % 64 + 128 < 256 by omega)
  generalize UInt8.ofNat (v / 262144 % 8 + 240) = a at ha ⊢
  generalize UInt8.ofNat (v / 4096 % 64 + 128) = b at hb ⊢
  generalize UInt8.ofNat (v / 64 % 64 + 128) = c at hc ⊢
  generalize UInt8.ofNat (v % 64 + 128) = d at hd ⊢
  have hw : width a = 4 := by
    rw [width_eq, if_neg (by omega), if_neg (by omega), if_neg (by omega), if_neg (by omega),
      if_pos (by omega)]
  have hs : isSecond a b = true :=
    isSecond_of (by omega) (by omega) (by omega) (by omega) (by omega) (by omega)
  have hc' : isContinuation c = true := isContinuation_of (by omega) (by omega)
  have hd' : isContinuation d = true := isContinuation_of (by omega) (by omega)
  have hv : codePoint (a.toNat % 8) [b, c, d] = Char.ofNat v := by
    simp only [codePoint, List.foldl_cons, List.foldl_nil]
    congr 1
    omega
  simp only [decodeOne, hw, hs, hc', hd', hv, Bool.not_true, Bool.false_eq_true, if_false, if_true]

/-- A character is read from its bytes, whatever follows. -/
theorem decodeOne_utf8EncodeChar (c : Char) : ∃ a more, String.utf8EncodeChar c = a :: more ∧
    decodeOne offset a (more ++ rest) = .ok (c, more.length) := by
  have hvalid : c.toNat < 0xD800 ∨ 0xDFFF < c.toNat ∧ c.toNat < 0x110000 := c.valid
  have hchar : Char.ofNat c.val.toNat = c := Char.ofNat_toNat c
  unfold String.utf8EncodeChar
  have hv : c.val.toNat = c.toNat := rfl
  generalize c.val.toNat = v at hchar hv ⊢
  rw [← hv] at hvalid
  dsimp only
  split_ifs with h1 h2 h3
  · have hone : UInt8.ofNat v < 128 := by
      rw [UInt8.lt_iff_toNat_lt, toNat_ofNat (by omega)]
      show v < 128
      omega
    refine ⟨_, _, rfl, ?_⟩
    rw [decodeOne_ascii hone, toNat_ofNat (by omega), hchar]
    rfl
  · exact ⟨_, _, rfl, hchar ▸ decodeOne_two offset rest (by omega) (by omega)⟩
  · exact ⟨_, _, rfl, hchar ▸ decodeOne_three offset rest (by omega) (by omega) (by omega)⟩
  · exact ⟨_, _, rfl, hchar ▸ decodeOne_four offset rest (by omega) (by omega)⟩

theorem decodeFrom_encodeChars (cs : List Char) : decodeFrom offset (encodeChars cs) = .ok cs := by
  induction cs generalizing offset with
  | nil => rw [encodeChars, List.flatMap_nil, decodeFrom]
  | cons c cs ih =>
    obtain ⟨a, more, hc, hread⟩ := decodeOne_utf8EncodeChar offset (encodeChars cs) c
    rw [encodeChars_cons, hc, List.cons_append, decodeFrom, hread]
    simp only [List.drop_left, ih, Except.map]

theorem decode_encode (s : String) : decode (encode s) = .ok s := by
  rw [decode, encode, decodeFrom_encodeChars, Except.map, String.ofList_toList]

theorem encodeChars_injective {cs ds : List Char} (h : encodeChars cs = encodeChars ds) : cs = ds := by
  have hread := decodeFrom_encodeChars 0 cs
  rw [h, decodeFrom_encodeChars 0 ds] at hread
  exact (Except.ok.inj hread).symm

theorem encode_injective {s t : String} (h : encode s = encode t) : s = t :=
  String.toList_injective (encodeChars_injective h)

/-- The bytes of a character beyond ASCII are beyond ASCII themselves. -/
theorem high_of_mem_utf8EncodeChar {c : Char} (hc : 128 ≤ c.toNat) {b : UInt8} (hb : b ∈ String.utf8EncodeChar c) :
    128 ≤ b.toNat := by
  have hv : c.val.toNat = c.toNat := rfl
  unfold String.utf8EncodeChar at hb
  generalize c.val.toNat = v at hv hb
  dsimp only at hb
  split_ifs at hb with h1 h2 h3
  · omega
  all_goals
    simp only [List.mem_cons, List.not_mem_nil, or_false] at hb
    rcases hb with rfl | rfl | rfl | rfl <;> rw [toNat_ofNat (by omega)] <;> omega

/-! ### Case -/

/-- A byte of a text in lower case. -/
def lowerByte (b : UInt8) : UInt8 := if 65 ≤ b ∧ b ≤ 90 then b + 32 else b

theorem lower_ascii : ∀ v : Fin 128, String.utf8EncodeChar (Char.ofNat v).toLower = [lowerByte (UInt8.ofNat v)] := by
  decide

theorem toLower_of_high {c : Char} (hc : 128 ≤ c.toNat) : c.toLower = c := by
  refine dif_neg fun h => ?_
  have hle : c.toNat ≤ 90 := h.2
  omega

theorem lowerByte_of_high {b : UInt8} (hb : 128 ≤ b.toNat) : lowerByte b = b := by
  refine if_neg fun h => ?_
  have hle : b.toNat ≤ 90 := UInt8.le_iff_toNat_le.1 h.2
  omega

theorem utf8EncodeChar_toLower (c : Char) :
    String.utf8EncodeChar c.toLower = (String.utf8EncodeChar c).map lowerByte := by
  by_cases hc : c.toNat < 128
  · have hlower := lower_ascii ⟨c.toNat, hc⟩
    have hone := utf8EncodeChar_ofNat ⟨c.toNat, hc⟩
    rw [Char.ofNat_toNat] at hlower hone
    rw [hlower, hone]
    rfl
  · have hhigh : 128 ≤ c.toNat := Nat.le_of_not_lt hc
    rw [toLower_of_high hhigh]
    have hsame : (String.utf8EncodeChar c).map lowerByte = (String.utf8EncodeChar c).map id :=
      List.map_congr_left fun b hb => lowerByte_of_high (high_of_mem_utf8EncodeChar hhigh hb)
    rw [hsame, List.map_id]

theorem encode_lower (s : String) : encode (Text.lower s) = (encode s).map lowerByte := by
  rw [encode, encode, Text.lower, String.toList_ofList, encodeChars, encodeChars, List.flatMap_map, List.map_flatMap]
  exact congrArg (s.toList.flatMap ·) (funext utf8EncodeChar_toLower)

end Utf8

end TxRecovery
