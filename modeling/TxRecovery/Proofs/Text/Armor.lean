import TxRecovery.Proofs.Collections
import TxRecovery.Proofs.Text.Utf8
import TxRecovery.Text.Base64
import TxRecovery.Text.Blank
import TxRecovery.Text.Hex

/-!
# Bytes written as text

What `Hex.encode` and `Base64.encode` write is ASCII, so that its bytes are the digits and symbols themselves. Those
read back, and nothing else is read: `Hex.decode_eq_ok`, up to the case of the digits, and `Base64.decode_eq_ok`. Each
byte that is read is the symbol of the value that it is read as, and so is a digit in lower case. The last group of
base64 is padded to four places, and the bits of its symbols that belong to no byte are zero.
-/

namespace TxRecovery

namespace Hex

open Utf8 (lowerByte)

theorem encodeBytes_cons (b : UInt8) (bs : Bytes) :
    encodeBytes (b :: bs) = digit (b.toNat / 16) :: digit (b.toNat % 16) :: encodeBytes bs := rfl

theorem length_encodeBytes (bs : Bytes) : (encodeBytes bs).length = 2 * bs.length := by
  induction bs with
  | nil => rfl
  | cons b bs ih =>
    simp only [encodeBytes_cons, List.length_cons, ih]
    omega

theorem exists_digit_of_mem {d : UInt8} {bs : Bytes} (hd : d ∈ encodeBytes bs) : ∃ v : Fin 16, d = digit v.val := by
  obtain ⟨b, -, hd⟩ := List.mem_flatMap.1 hd
  have hb : b.toNat < 256 := b.toNat_lt
  rcases List.mem_cons.1 hd with rfl | hd
  · exact ⟨⟨b.toNat / 16, by omega⟩, rfl⟩
  · exact ⟨⟨b.toNat % 16, by omega⟩, List.mem_singleton.1 hd⟩

theorem digit_ascii : ∀ v : Fin 16, digit v.val < 128 := by decide

theorem encodeBytes_ascii (bs : Bytes) : ∀ b ∈ encodeBytes bs, b < 128 := by
  intro d hd
  obtain ⟨v, rfl⟩ := exists_digit_of_mem hd
  exact digit_ascii v

theorem utf8_encode (bs : Bytes) : Utf8.encode (encode bs) = encodeBytes bs := by
  rw [Utf8.encode, encode, String.toList_ofList, Utf8.encodeChars_ascii (encodeBytes_ascii bs)]

theorem digit_of_value? : ∀ b : Fin 256, ∀ v ∈ value? (UInt8.ofNat b.val),
    v < 16 ∧ digit v = lowerByte (UInt8.ofNat b.val) := by
  decide +kernel

theorem value?_lower : ∀ b : Fin 256, value? (lowerByte (UInt8.ofNat b.val)) = value? (UInt8.ofNat b.val) := by
  decide +kernel

/-- A digit is read in either case. -/
theorem readDigit_eq_ok {position v : Nat} {b : UInt8} :
    readDigit position b = .ok v ↔ v < 16 ∧ digit v = lowerByte b := by
  have hdigit := digit_of_value? ⟨b.toNat, b.toNat_lt⟩
  have hlower := value?_lower ⟨b.toNat, b.toNat_lt⟩
  rw [UInt8.ofNat_toNat] at hdigit hlower
  unfold readDigit
  constructor
  · intro h
    split at h
    · cases h
      exact hdigit v ‹_›
    · exact nomatch h
  · rintro ⟨hv, hb⟩
    rw [← hlower, ← hb, value?_digit ⟨v, hv⟩]

theorem decodePairs_eq_ok {position : Nat} {text bs : Bytes} (heven : text.length % 2 = 0) :
    decodePairs position text = .ok bs ↔ text.map lowerByte = encodeBytes bs := by
  induction position, text using decodePairs.induct generalizing bs with
  | case1 position a b rest ih =>
    have hrest : rest.length % 2 = 0 := by
      rw [List.length_cons, List.length_cons] at heven
      omega
    rw [List.map_cons, List.map_cons]
    constructor
    · intro h
      rw [decodePairs] at h
      obtain ⟨hi, hhi, h⟩ := bind_eq_ok.1 h
      obtain ⟨lo, hlo, h⟩ := bind_eq_ok.1 h
      obtain ⟨tail, htail, h⟩ := bind_eq_ok.1 h
      cases h
      obtain ⟨hhi, ha⟩ := readDigit_eq_ok.1 hhi
      obtain ⟨hlo, hb⟩ := readDigit_eq_ok.1 hlo
      have hbyte := Utf8.toNat_ofNat (show hi * 16 + lo < 256 by omega)
      have hdiv : (hi * 16 + lo) / 16 = hi := by omega
      have hmod : (hi * 16 + lo) % 16 = lo := by omega
      rw [encodeBytes_cons, hbyte, hdiv, hmod, ha, hb, (ih hrest).1 htail]
    · intro h
      cases bs with
      | nil => cases h
      | cons x tail =>
        have hx : x.toNat < 256 := x.toNat_lt
        have hvalue : x.toNat / 16 * 16 + x.toNat % 16 = x.toNat := by omega
        rw [encodeBytes_cons] at h
        obtain ⟨ha, h⟩ := List.cons.inj h
        obtain ⟨hb, htail⟩ := List.cons.inj h
        rw [decodePairs, readDigit_eq_ok.2 ⟨by omega, ha.symm⟩, readDigit_eq_ok.2 ⟨by omega, hb.symm⟩,
          (ih hrest).2 htail]
        simp only [bind, Except.bind, hvalue, UInt8.ofNat_toNat]
  | case2 text position hshort =>
    obtain rfl : text = [] := by
      rcases text with _ | ⟨a, _ | ⟨b, rest⟩⟩
      · rfl
      · cases heven
      · exact (hshort a b rest rfl).elim
    cases bs with
    | nil => exact iff_of_true rfl rfl
    | cons x tail => exact iff_of_false (fun h => by cases h) (fun h => by cases h)

/-- What is read as hexadecimal is what is written for these bytes, in either case. -/
theorem decode_eq_ok {text bs : Bytes} : decode text = .ok bs ↔ text.map lowerByte = encodeBytes bs := by
  unfold decode
  split
  · rename_i hodd
    refine iff_of_false nofun fun h => ?_
    have hlen := congrArg List.length h
    rw [List.length_map, length_encodeBytes] at hlen
    omega
  · exact decodePairs_eq_ok (by omega)

theorem lower_digit : ∀ v : Fin 16, lowerByte (digit v.val) = digit v.val := by decide

theorem decode_encode (bs : Bytes) : decode (Utf8.encode (encode bs)) = .ok bs := by
  rw [utf8_encode, decode_eq_ok]
  refine (List.map_congr_left fun d hd => ?_).trans (List.map_id _)
  obtain ⟨v, rfl⟩ := exists_digit_of_mem hd
  exact lower_digit v

end Hex

namespace Base64

theorem readSymbol_symbol {v : Nat} (hv : v < 64) (offset : Nat) : readSymbol offset (symbol v) = .ok v := by
  have h := value?_symbol ⟨v, hv⟩
  simp only at h
  rw [readSymbol, h]

theorem symbol_ne_pad : ∀ v : Fin 64, symbol v.val ≠ pad := by decide

theorem readLast_symbol {v : Nat} (hv : v < 64) (offset i : Nat) (rest : Bytes) :
    readLast.go offset i (symbol v :: rest) = (readLast.go offset (i + 1) rest).map (v :: ·) := by
  rw [readLast.go, if_neg (symbol_ne_pad ⟨v, hv⟩), readSymbol_symbol hv]
  cases readLast.go offset (i + 1) rest <;> rfl

theorem readLast_pads (offset i : Nat) (hi : 2 ≤ i) (rest : Bytes) (hrest : rest.all (· = pad) = true) :
    readLast.go offset i (pad :: rest) = .ok [] := by
  rw [readLast.go, if_pos rfl, if_neg (by omega), if_pos hrest]

theorem decodeLast_one (a : UInt8) (offset : Nat) : decodeLast offset (encodeBytes [a]) = .ok [a] := by
  have ha : a.toNat < 256 := a.toNat_lt
  have hread : readLast offset (encodeBytes [a]) = .ok [a.toNat / 4, a.toNat % 4 * 16] := by
    rw [encodeBytes, readLast, readLast_symbol (by omega), readLast_symbol (by omega),
      readLast_pads offset 2 (by omega) [pad] rfl]
    rfl
  have hvalue : a.toNat / 4 * 4 + a.toNat % 4 * 16 / 16 = a.toNat := by omega
  have hbits : a.toNat % 4 * 16 % 16 = 0 := by omega
  have hlen : (encodeBytes [a]).length = 4 := rfl
  simp only [decodeLast, hread, bind, Except.bind, hlen, hbits, hvalue, ne_eq, not_true_eq_false, ite_false,
    UInt8.ofNat_toNat]

theorem decodeLast_two (a b : UInt8) (offset : Nat) :
    decodeLast offset (encodeBytes [a, b]) = .ok [a, b] := by
  have ha : a.toNat < 256 := a.toNat_lt
  have hb : b.toNat < 256 := b.toNat_lt
  have hread : readLast offset (encodeBytes [a, b]) =
      .ok [a.toNat / 4, a.toNat % 4 * 16 + b.toNat / 16, b.toNat % 16 * 4] := by
    rw [encodeBytes, readLast, readLast_symbol (by omega), readLast_symbol (by omega),
      readLast_symbol (by omega), readLast_pads offset 3 (by omega) [] rfl]
    rfl
  have hfirst : a.toNat / 4 * 4 + (a.toNat % 4 * 16 + b.toNat / 16) / 16 = a.toNat := by omega
  have hsecond : (a.toNat % 4 * 16 + b.toNat / 16) % 16 * 16 + b.toNat % 16 * 4 / 4 = b.toNat := by omega
  have hbits : b.toNat % 16 * 4 % 4 = 0 := by omega
  have hlen : (encodeBytes [a, b]).length = 4 := rfl
  simp only [decodeLast, hread, bind, Except.bind, hlen, hbits, hfirst, hsecond, ne_eq, not_true_eq_false,
    ite_false, UInt8.ofNat_toNat]

/-- The bits of three bytes, cut into four symbols and put together again. -/
theorem regroup (a : Nat) {b c : Nat} (hb : b < 256) (hc : c < 256) :
    a / 4 * 4 + (a % 4 * 16 + b / 16) / 16 = a ∧
      (a % 4 * 16 + b / 16) % 16 * 16 + (b % 16 * 4 + c / 64) / 4 = b ∧
      (b % 16 * 4 + c / 64) % 4 * 64 + c % 64 = c := by
  omega

theorem decodeLast_three (a b c : UInt8) (offset : Nat) :
    decodeLast offset (encodeBytes [a, b, c]) = .ok [a, b, c] := by
  have ha : a.toNat < 256 := a.toNat_lt
  have hb : b.toNat < 256 := b.toNat_lt
  have hc : c.toNat < 256 := c.toNat_lt
  have hread : readLast offset (encodeBytes [a, b, c]) =
      .ok [a.toNat / 4, a.toNat % 4 * 16 + b.toNat / 16, b.toNat % 16 * 4 + c.toNat / 64, c.toNat % 64] := by
    rw [encodeBytes, encodeBytes, readLast, readLast_symbol (by omega), readLast_symbol (by omega),
      readLast_symbol (by omega), readLast_symbol (by omega)]
    rfl
  obtain ⟨hfirst, hsecond, hthird⟩ := regroup a.toNat hb hc
  simp only [decodeLast, hread, bind, Except.bind, hfirst, hsecond, hthird, UInt8.ofNat_toNat]

theorem encodeBytes_ne_nil {bs : Bytes} (h : bs ≠ []) : encodeBytes bs ≠ [] := by
  cases bs using encodeBytes.induct with
  | case1 => exact absurd rfl h
  | case2 a => exact List.cons_ne_nil _ _
  | case3 a b => exact List.cons_ne_nil _ _
  | case4 a b c rest => exact List.cons_ne_nil _ _

theorem decodeGroups_encodeBytes {bs : Bytes} (h : bs ≠ []) (offset : Nat) :
    decodeGroups offset (encodeBytes bs) = .ok bs := by
  induction bs using encodeBytes.induct generalizing offset with
  | case1 => exact absurd rfl h
  | case2 a => exact decodeLast_one a offset
  | case3 a b => exact decodeLast_two a b offset
  | case4 a b c rest ih =>
    by_cases hrest : rest = []
    · subst hrest
      exact decodeLast_three a b c offset
    · have ha : a.toNat < 256 := a.toNat_lt
      have hb : b.toNat < 256 := b.toNat_lt
      have hc : c.toNat < 256 := c.toNat_lt
      obtain ⟨hfirst, hsecond, hthird⟩ := regroup a.toNat hb hc
      obtain ⟨e, es, he⟩ := List.exists_cons_of_ne_nil (encodeBytes_ne_nil hrest)
      rw [encodeBytes, he, decodeGroups, readSymbol_symbol (by omega), readSymbol_symbol (by omega),
        readSymbol_symbol (by omega), readSymbol_symbol (by omega), ← he, ih hrest]
      simp only [bind, Except.bind, hfirst, hsecond, hthird, UInt8.ofNat_toNat]

theorem length_encodeBytes_mod (bs : Bytes) : (encodeBytes bs).length % 4 = 0 := by
  induction bs using encodeBytes.induct with
  | case1 => rfl
  | case2 a => simp only [encodeBytes, List.length_cons, List.length_nil]
  | case3 a b => simp only [encodeBytes, List.length_cons, List.length_nil]
  | case4 a b c rest ih =>
    simp only [encodeBytes, List.length_cons]
    omega

theorem decode_encodeBytes (bs : Bytes) : decode (encodeBytes bs) = .ok bs := by
  by_cases h : bs = []
  · subst h
    rfl
  · have hmod := length_encodeBytes_mod bs
    unfold decode
    split
    · rename_i hlast
      exact absurd (List.getLast?_eq_none_iff.1 hlast) (encodeBytes_ne_nil h)
    · rw [if_neg (by omega), decodeGroups_encodeBytes h]

/-! ### Nothing else is read -/

theorem symbol_of_value? : ∀ b : Fin 256, ∀ v ∈ value? (UInt8.ofNat b.val),
    v < 64 ∧ symbol v = UInt8.ofNat b.val := by
  decide +kernel

theorem symbol_of_readSymbol {offset v : Nat} {b : UInt8} (h : readSymbol offset b = .ok v) :
    v < 64 ∧ symbol v = b := by
  have hsymbol := symbol_of_value? ⟨b.toNat, b.toNat_lt⟩
  rw [UInt8.ofNat_toNat] at hsymbol
  unfold readSymbol at h
  split at h
  · cases h
    exact hsymbol v ‹_›
  · exact nomatch h

/-- The last group is symbols, and padding behind them. -/
theorem group_of_readLast {offset i : Nat} {group : Bytes} {vs : List Nat}
    (h : readLast.go offset i group = .ok vs) :
    (∀ v ∈ vs, v < 64) ∧ ∃ n, group = vs.map symbol ++ List.replicate n pad := by
  induction group generalizing i vs with
  | nil =>
    cases h
    exact ⟨List.forall_mem_nil _, 0, rfl⟩
  | cons b rest ih =>
    rw [readLast.go] at h
    split at h
    · rename_i hb
      split at h
      · cases h
      split at h
      · rename_i hrest
        cases h
        refine ⟨List.forall_mem_nil _, rest.length + 1, ?_⟩
        rw [hb, List.replicate_succ]
        exact congrArg _ (List.eq_replicate_iff.2 ⟨rfl, fun d hd => of_decide_eq_true (List.all_eq_true.1 hrest d hd)⟩)
      · cases h
    · obtain ⟨v, hv, h⟩ := bind_eq_ok.1 h
      obtain ⟨tail, htail, h⟩ := bind_eq_ok.1 h
      cases h
      obtain ⟨hlt, rfl⟩ := symbol_of_readSymbol hv
      obtain ⟨hvs, n, hn⟩ := ih htail
      exact ⟨List.forall_mem_cons.2 ⟨hlt, hvs⟩, n, congrArg _ hn⟩

/-- Four symbols, put together to three bytes and cut again. -/
theorem ungroup {v w x y : Nat} (hv : v < 64) (hw : w < 64) (hx : x < 64) (hy : y < 64) (rest : Bytes) :
    encodeBytes (UInt8.ofNat (v * 4 + w / 16) :: UInt8.ofNat (w % 16 * 16 + x / 4) :: UInt8.ofNat (x % 4 * 64 + y)
      :: rest) = symbol v :: symbol w :: symbol x :: symbol y :: encodeBytes rest := by
  have ha := Utf8.toNat_ofNat (show v * 4 + w / 16 < 256 by omega)
  have hb := Utf8.toNat_ofNat (show w % 16 * 16 + x / 4 < 256 by omega)
  have hc := Utf8.toNat_ofNat (show x % 4 * 64 + y < 256 by omega)
  have hcut : (v * 4 + w / 16) / 4 = v ∧ (v * 4 + w / 16) % 4 * 16 + (w % 16 * 16 + x / 4) / 16 = w ∧
      (w % 16 * 16 + x / 4) % 16 * 4 + (x % 4 * 64 + y) / 64 = x ∧ (x % 4 * 64 + y) % 64 = y := by
    omega
  obtain ⟨hv, hw, hx, hy⟩ := hcut
  rw [encodeBytes, ha, hb, hc, hv, hw, hx, hy]

theorem ungroup_one {v w : Nat} (hv : v < 64) (hw : w < 64) (hbits : w % 16 = 0) :
    encodeBytes [UInt8.ofNat (v * 4 + w / 16)] = [symbol v, symbol w, pad, pad] := by
  have ha := Utf8.toNat_ofNat (show v * 4 + w / 16 < 256 by omega)
  have hcut : (v * 4 + w / 16) / 4 = v ∧ (v * 4 + w / 16) % 4 * 16 = w := by omega
  obtain ⟨hv, hw⟩ := hcut
  rw [encodeBytes, ha, hv, hw]

theorem ungroup_two {v w x : Nat} (hv : v < 64) (hw : w < 64) (hx : x < 64) (hbits : x % 4 = 0) :
    encodeBytes [UInt8.ofNat (v * 4 + w / 16), UInt8.ofNat (w % 16 * 16 + x / 4)] =
      [symbol v, symbol w, symbol x, pad] := by
  have ha := Utf8.toNat_ofNat (show v * 4 + w / 16 < 256 by omega)
  have hb := Utf8.toNat_ofNat (show w % 16 * 16 + x / 4 < 256 by omega)
  have hcut : (v * 4 + w / 16) / 4 = v ∧ (v * 4 + w / 16) % 4 * 16 + (w % 16 * 16 + x / 4) / 16 = w ∧
      (w % 16 * 16 + x / 4) % 16 * 4 = x := by
    omega
  obtain ⟨hv, hw, hx⟩ := hcut
  rw [encodeBytes, ha, hb, hv, hw, hx]

theorem decodeLast_sound {offset : Nat} {group bs : Bytes} (hlen : group.length ≤ 4)
    (h : decodeLast offset group = .ok bs) : group = encodeBytes bs := by
  obtain ⟨vs, hread, hbytes⟩ := bind_eq_ok.1 h
  obtain ⟨hvs, n, rfl⟩ := group_of_readLast hread
  rw [List.length_append, List.length_map, List.length_replicate] at hlen hbytes
  -- two or three symbols need a group of four places, which says how many of them are padding
  match vs, hvs, hbytes with
  | [v, w], hvs, hbytes =>
    obtain ⟨hv, hw, -⟩ := by simpa only [List.forall_mem_cons] using hvs
    dsimp only [List.length_cons, List.length_nil] at hbytes
    split_ifs at hbytes with hpad hbits
    cases hbytes
    obtain rfl : n = 2 := by omega
    rw [ungroup_one hv hw (by omega)]
    rfl
  | [v, w, x], hvs, hbytes =>
    obtain ⟨hv, hw, hx, -⟩ := by simpa only [List.forall_mem_cons] using hvs
    dsimp only [List.length_cons, List.length_nil] at hbytes
    split_ifs at hbytes with hpad hbits
    cases hbytes
    obtain rfl : n = 1 := by omega
    rw [ungroup_two hv hw hx (by omega)]
    rfl
  | [v, w, x, y], hvs, hbytes =>
    obtain ⟨hv, hw, hx, hy, -⟩ := by simpa only [List.forall_mem_cons] using hvs
    cases hbytes
    obtain rfl : n = 0 := by
      rw [List.length_cons, List.length_cons, List.length_cons, List.length_singleton] at hlen
      omega
    rw [ungroup hv hw hx hy]
    rfl

theorem decodeGroups_sound {offset : Nat} {text bs : Bytes} (h : decodeGroups offset text = .ok bs) :
    text = encodeBytes bs := by
  induction offset, text using decodeGroups.induct generalizing bs with
  | case1 offset a b c d e rest ih =>
    rw [decodeGroups] at h
    obtain ⟨v, hv, h⟩ := bind_eq_ok.1 h
    obtain ⟨w, hw, h⟩ := bind_eq_ok.1 h
    obtain ⟨x, hx, h⟩ := bind_eq_ok.1 h
    obtain ⟨y, hy, h⟩ := bind_eq_ok.1 h
    obtain ⟨tail, htail, h⟩ := bind_eq_ok.1 h
    cases h
    obtain ⟨hv', rfl⟩ := symbol_of_readSymbol hv
    obtain ⟨hw', rfl⟩ := symbol_of_readSymbol hw
    obtain ⟨hx', rfl⟩ := symbol_of_readSymbol hx
    obtain ⟨hy', rfl⟩ := symbol_of_readSymbol hy
    rw [ungroup hv' hw' hx' hy', ih htail]
  | case2 offset group hshort =>
    have hlen : group.length ≤ 4 := by
      rcases group with _ | ⟨a, _ | ⟨b, _ | ⟨c, _ | ⟨d, _ | ⟨e, rest⟩⟩⟩⟩⟩
      case cons.cons.cons.cons.cons => exact (hshort a b c d e rest rfl).elim
      all_goals simp
    rw [decodeGroups] at h
    · exact decodeLast_sound hlen h
    · exact hshort

theorem decode_eq_ok {text bs : Bytes} : decode text = .ok bs ↔ text = encodeBytes bs := by
  constructor
  · intro h
    unfold decode at h
    split at h
    · rename_i hlast
      cases h
      exact List.getLast?_eq_none_iff.1 hlast
    · split at h
      · exact nomatch h
      · exact decodeGroups_sound h
  · rintro rfl
    exact decode_encodeBytes bs

/-- One byte has one text: the last four bits of the second symbol are not free. -/
example : decode (Utf8.encode "AA==") = .ok [0] ∧ decode (Utf8.encode "AB==") = .error (.invalidLastSymbol 66 1) := by
  decide

/-! ### No blanks -/

theorem symbol_visible : ∀ v : Fin 64, symbol v.val < 128 ∧
    Text.isBlank (Char.ofNat (symbol v.val).toNat) = false := by
  decide

def Visible (b : UInt8) : Prop := b < 128 ∧ Text.isBlank (Char.ofNat b.toNat) = false

theorem visible_symbol {v : Nat} (hv : v < 64) : Visible (symbol v) := symbol_visible ⟨v, hv⟩

theorem visible_pad : Visible pad := by
  constructor <;> decide

theorem visible_encodeBytes (bs : Bytes) : ∀ b ∈ encodeBytes bs, Visible b := by
  have hlt : ∀ a : UInt8, a.toNat < 256 := fun a => a.toNat_lt
  induction bs using encodeBytes.induct with
  | case1 => exact nofun
  | case2 a =>
    have := hlt a
    simp only [encodeBytes, List.forall_mem_cons]
    exact ⟨visible_symbol (by omega), visible_symbol (by omega), visible_pad, visible_pad, nofun⟩
  | case3 a b =>
    have := hlt a
    have := hlt b
    simp only [encodeBytes, List.forall_mem_cons]
    exact ⟨visible_symbol (by omega), visible_symbol (by omega), visible_symbol (by omega), visible_pad,
      nofun⟩
  | case4 a b c rest ih =>
    have := hlt a
    have := hlt b
    have := hlt c
    simp only [encodeBytes, List.forall_mem_cons]
    exact ⟨visible_symbol (by omega), visible_symbol (by omega), visible_symbol (by omega),
      visible_symbol (by omega), ih⟩

theorem utf8_encode (bs : Bytes) : Utf8.encode (encode bs) = encodeBytes bs := by
  rw [Utf8.encode, encode, String.toList_ofList, Utf8.encodeChars_ascii fun b hb => (visible_encodeBytes bs b hb).1]

end Base64

end TxRecovery
